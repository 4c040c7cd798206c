import Percolator.Engine.Instructions
import Percolator.Spec.Pnl

/-!
What the movements between capital, PnL, fee debt, insurance and the vault do.

Each of them replaces one account and the totals. `Entry` lists those that never
take principal from an account, `Charge` those that do, and `Exact` is what the
two have in common: the totals move by exactly what the account does.
-/

namespace Percolator

open Effect

/-- A movement on account `i` that takes no principal: the account and the totals
it leaves, and its events. -/
inductive Entry (s : RiskEngine) (i : Nat) : Account → Totals → List Event → Prop
  /-- Capital comes into the vault. -/
  | deposited (amount : Nat) (cap : s.vault + amount ≤ MAX_VAULT_TVL) :
      Entry s i ((s.accounts i).withCapital ((s.accounts i).capital + amount))
        { s.totals with vault := s.vault + amount, cTot := s.cTot + amount } []
  /-- Fee debt is paid from outside. -/
  | debtPaid (amount : Nat) (cap : s.vault + amount ≤ MAX_VAULT_TVL)
      (le_debt : (s.accounts i).feeCredits + amount ≤ 0) :
      Entry s i ((s.accounts i).withFeeCredits ((s.accounts i).feeCredits + amount))
        { s.totals with vault := s.vault + amount, insuranceFund := s.insuranceFund + amount } []
  /-- Capital pays a loss as far as it goes. -/
  | lossPaid (pay n : Nat) (le_capital : pay ≤ (s.accounts i).capital) (le_tot : pay ≤ s.cTot)
      (le_loss : pay ≤ (-(s.accounts i).pnl).toNat)
      (full : pay = (s.accounts i).capital ∨ 0 ≤ (s.accounts i).pnl + pay)
      (count : n + (s.accounts i).negPnl =
        s.negPnlAccountCount + if (s.accounts i).pnl + pay < 0 then 1 else 0) :
      Entry s i (((s.accounts i).withCapital ((s.accounts i).capital - pay)).withPnl
        ((s.accounts i).pnl + pay))
        { s.totals with cTot := s.cTot - pay, negPnlAccountCount := n } []
  /-- Capital pays fee debt into insurance. -/
  | feeSwept (pay : Nat) (le_capital : pay ≤ (s.accounts i).capital) (le_tot : pay ≤ s.cTot)
      (le_debt : pay ≤ (-(s.accounts i).feeCredits).toNat) :
      Entry s i (((s.accounts i).withCapital ((s.accounts i).capital - pay)).withFeeCredits
        ((s.accounts i).feeCredits + pay))
        { s.totals with cTot := s.cTot - pay, insuranceFund := s.insuranceFund + pay } []
  /-- `x` of released PnL becomes `y` of capital. -/
  | converted (x y : Nat) (live : s.marketMode = .live) (pos : 0 < x) (le : y ≤ x)
      (le_released : x ≤ (s.accounts i).releasedPos) (le_matured : x ≤ s.pnlMaturedPosTot)
      (le_tot : x ≤ s.pnlPosTot) (backed : (y : Int) ≤ s.backing) :
      Entry s i (((s.accounts i).withPnl ((s.accounts i).pnl - x)).withCapital
        ((s.accounts i).capital + y))
        { s.totals with
          cTot := s.cTot + y, pnlPosTot := s.pnlPosTot - x
          pnlMaturedPosTot := s.pnlMaturedPosTot - x } []
  /-- The schedule releases `r`. -/
  | warmed (r : Nat) (a' : Account) (l : List Event) (live : s.marketMode = .live)
      (events : l = [] ∧ r = 0 ∨ l = [.released i r])
      (warm : Warmed s.params s.currentSlot r (s.accounts i) a') :
      Entry s i a' { s.totals with pnlMaturedPosTot := s.pnlMaturedPosTot + r } l
  /-- The whole outstanding reserve is admitted. -/
  | accelerated (live : s.marketMode = .live)
      (fits : (s.pnlMaturedPosTot + (s.accounts i).reservedPnl : Int) ≤ s.backing) :
      Entry s i (s.accounts i).clearReserve
        { s.totals with pnlMaturedPosTot := s.pnlMaturedPosTot + (s.accounts i).reservedPnl }
        [.accelerated i (s.accounts i).reservedPnl]

/-- A movement on account `i` that takes principal from it. -/
inductive Charge (s : RiskEngine) (i : Nat) : Account → Totals → Prop
  /-- A fee: `paid` from capital into insurance and `debt` as negative fee credits. -/
  | feeCharged (paid debt : Nat) (le_capital : paid ≤ (s.accounts i).capital)
      (le_tot : paid ≤ s.cTot) (ge : -I128_MAX ≤ (s.accounts i).feeCredits - debt) :
      Charge s i (((s.accounts i).withCapital ((s.accounts i).capital - paid)).withFeeCredits
        ((s.accounts i).feeCredits - debt))
        { s.totals with cTot := s.cTot - paid, insuranceFund := s.insuranceFund + paid }
  /-- Capital leaves the vault. -/
  | paidOut (amount : Nat) (le_capital : amount ≤ (s.accounts i).capital) (le_tot : amount ≤ s.cTot)
      (le_vault : amount ≤ s.vault) :
      Charge s i ((s.accounts i).withCapital ((s.accounts i).capital - amount))
        { s.totals with vault := s.vault - amount, cTot := s.cTot - amount }
  /-- Capital goes to insurance. -/
  | reclaimed (le_tot : (s.accounts i).capital ≤ s.cTot) :
      Charge s i ((s.accounts i).withCapital 0)
        { s.totals with
          cTot := s.cTot - (s.accounts i).capital
          insuranceFund := s.insuranceFund + (s.accounts i).capital }
  /-- Fee debt is forgiven. -/
  | debtForgiven : Charge s i ((s.accounts i).withFeeCredits (max (s.accounts i).feeCredits 0)) s.totals

/-- The negative PnL of a flat account is written off, with `draw` from insurance. -/
inductive Forgiven (s : RiskEngine) (i : Nat) : Account → Totals → List Event → Prop
  | mk (draw n : Nat) (flat : effectivePosQ s i = some 0) (neg : (s.accounts i).pnl < 0)
      (le_fund : draw ≤ s.insuranceFund) (reserved : (s.accounts i).reservedPnl = 0)
      (count : n + 1 = s.negPnlAccountCount) :
      Forgiven s i ((s.accounts i).withPnl 0)
        { s.totals with insuranceFund := s.insuranceFund - draw, negPnlAccountCount := n } []

/-- The fields of an account that describe its position. -/
def Account.SamePosition (a a' : Account) : Prop :=
  a'.positionBasisQ = a.positionBasisQ ∧ a'.adlABasis = a.adlABasis ∧ a'.adlKSnap = a.adlKSnap ∧
    a'.fSnap = a.fSnap ∧ a'.adlEpochSnap = a.adlEpochSnap

/-- The totals move by exactly what account `i` does. -/
structure Exact (s : RiskEngine) (i : Nat) (a' : Account) (t' : Totals) : Prop where
  position : (s.accounts i).SamePosition a'
  cTot : t'.cTot + (s.accounts i).capital = s.cTot + a'.capital
  pos : t'.pnlPosTot + (s.accounts i).posPnl = s.pnlPosTot + a'.posPnl
  neg : t'.negPnlAccountCount + (s.accounts i).negPnl = s.negPnlAccountCount + a'.negPnl

theorem Account.SamePosition.trans {a b c : Account} (h : a.SamePosition b) (h' : b.SamePosition c) :
    a.SamePosition c := by
  obtain ⟨h1, h2, h3, h4, h5⟩ := h
  obtain ⟨k1, k2, k3, k4, k5⟩ := h'
  exact ⟨k1.trans h1, k2.trans h2, k3.trans h3, k4.trans h4, k5.trans h5⟩

theorem Account.SamePosition.refl (a : Account) : a.SamePosition a := ⟨rfl, rfl, rfl, rfl, rfl⟩

section SameButPnl

variable {a a' : Account}

theorem Account.SameButPnl.position (h : a.SameButPnl a') : a.SamePosition a' := by
  rw [h]; exact ⟨rfl, rfl, rfl, rfl, rfl⟩

theorem Account.SameButPnl.capital (h : a.SameButPnl a') : a'.capital = a.capital := by rw [h]

theorem Account.SameButPnl.feeCredits (h : a.SameButPnl a') : a'.feeCredits = a.feeCredits := by
  rw [h]

end SameButPnl

section Exact

variable {s : RiskEngine} {i : Nat} {a' : Account} {t' : Totals} {l : List Event} {v : Int}

theorem PnlSet.exact (h : PnlSet s i v a' t') : Exact s i a' t' where
  position := h.same.position
  cTot := by rw [h.frame, h.same.capital]; rfl
  pos := h.pos
  neg := h.neg

theorem Entry.exact (h : Entry s i a' t' l) : Exact s i a' t' := by
  cases h with
  | deposited amount cap =>
      exact ⟨.refl _, by simp only [Account.withCapital_capital]; omega, rfl, rfl⟩
  | debtPaid amount cap le => exact ⟨.refl _, rfl, rfl, rfl⟩
  | lossPaid pay n le_capital le_tot le_loss full count =>
      refine ⟨.refl _, ?_, ?_, count⟩
      · simp only [Account.withPnl_capital, Account.withCapital_capital]; omega
      · simp only [Account.posPnl, i128ClampPos, Account.withPnl_pnl, RiskEngine.totals]; omega
  | feeSwept pay le_capital le_tot le_debt =>
      refine ⟨.refl _, ?_, rfl, rfl⟩
      simp only [Account.withFeeCredits_capital, Account.withCapital_capital]; omega
  | converted x y live pos le le_released le_matured le_tot backed =>
      simp only [Account.releasedPos, i128ClampPos] at le_released
      refine ⟨.refl _, ?_, ?_, ?_⟩
      · simp only [Account.withCapital_capital]; omega
      · simp only [Account.posPnl, i128ClampPos, Account.withPnl_pnl, Account.withCapital_pnl]
        omega
      · simp only [Account.negPnl, Account.withPnl_pnl, Account.withCapital_pnl]
        rw [if_neg (by omega), if_neg (by omega)]
        rfl
  | warmed r a' l live events warm =>
      exact ⟨warm.same.position, by rw [warm.same.capital]; rfl,
        by simp [Account.posPnl, warm.pnl_eq, RiskEngine.totals],
        by simp [Account.negPnl, warm.pnl_eq, RiskEngine.totals]⟩
  | accelerated live fits => exact ⟨.refl _, rfl, rfl, rfl⟩

theorem Forgiven.exact (h : Forgiven s i a' t' l) : Exact s i a' t' := by
  obtain ⟨draw, n, flat, neg, le_fund, reserved, count⟩ := h
  refine ⟨.refl _, rfl, ?_, ?_⟩
  · simp only [Account.posPnl, i128ClampPos, Account.withPnl_pnl, RiskEngine.totals]
    omega
  · simp only [Account.negPnl, Account.withPnl_pnl, if_pos neg]
    exact count

theorem Charge.exact (h : Charge s i a' t') : Exact s i a' t' := by
  cases h with
  | feeCharged paid debt le_capital le_tot ge =>
      refine ⟨.refl _, ?_, rfl, rfl⟩
      simp only [Account.withFeeCredits_capital, Account.withCapital_capital]; omega
  | paidOut amount le_capital le_tot le_vault =>
      exact ⟨.refl _, by simp only [Account.withCapital_capital]; omega, rfl, rfl⟩
  | reclaimed le_tot =>
      exact ⟨.refl _, by simp only [Account.withCapital_capital]; omega, rfl, rfl⟩
  | debtForgiven => exact ⟨.refl _, rfl, rfl, rfl⟩

end Exact

section Specs

variable {s s' : RiskEngine} {l : List Event} {i : Nat}

theorem setCapital_spec {v : Nat} (hok : setCapital i v s = .ok () s' l) :
    ∃ c, s' = s.rebook i ((s.accounts i).withCapital v) { s.totals with cTot := c } ∧ l = [] ∧
      c + (s.accounts i).capital = s.cTot + v := by
  refine wp_sound (Q := fun _ s' l => ∃ c, s' = s.rebook i ((s.accounts i).withCapital v)
    { s.totals with cTot := c } ∧ l = [] ∧ c + (s.accounts i).capital = s.cTot + v) hok ?_
  simp only [setCapital, wp_bind, wp_read, wp_ite, wp_orErr, wp_update, wp_writeAccount,
    implies_true, true_and]
  refine ⟨fun h c hc => ⟨c, rfl, ?_⟩, fun h c hc => ⟨c, rfl, ?_⟩⟩
  · have := checkedAddU128_eq hc; omega
  · have := checkedSub_eq hc; omega

theorem toI128_eq {v w : Int} (h : toI128 v = some w) : w = v ∧ I128_MIN ≤ v ∧ v ≤ I128_MAX := by
  unfold toI128 at h
  split_ifs at h with hv
  exact ⟨(Option.some.inj h).symm, hv⟩

/-- A payment that does not exceed a loss fits `i128` whenever the sum does. -/
theorem checkedAddI128_pay {pnl v : Int} {pay : Nat} (hle : pnl + pay ≤ 0)
    (h : checkedAddI128 pnl (asI128 pay) = some v) : v = pnl + pay := by
  obtain ⟨rfl, hmin, -⟩ := toI128_eq h
  unfold asI128 at *
  split_ifs at * with hp
  · rfl
  · simp only [I128_MIN] at hmin; omega

/-- Account `i` was booked by `P`, or nothing happened. -/
def Booked (P : RiskEngine → Nat → Account → Totals → List Event → Prop) (i : Nat)
    (s s' : RiskEngine) (l : List Event) : Prop :=
  s' = s ∧ l = [] ∨ ∃ a' t', s' = s.rebook i a' t' ∧ P s i a' t' l

/-- A charge has no events. -/
def Charged (s : RiskEngine) (i : Nat) (a' : Account) (t' : Totals) (l : List Event) : Prop :=
  Charge s i a' t' ∧ l = []

/-- What an account pays of its loss from its capital. -/
def Account.lossPay (a : Account) : Nat := min (-a.pnl).toNat a.capital

/-- The account when its loss is paid from its capital as far as that goes. -/
def Account.lossPaid (a : Account) : Account :=
  (a.withCapital (a.capital - a.lossPay)).withPnl (a.pnl + a.lossPay)

theorem Account.lossPaid_eq {a : Account} (h : a.lossPay = 0) : a.lossPaid = a := by
  unfold lossPaid
  rw [h]
  simp [withCapital, withPnl]

/-- Losses are paid from capital as far as it goes. -/
theorem settleLosses_exact (hok : settleLosses i s = .ok () s' l) : l = [] ∧ ∃ n,
    s' = s.rebook i (s.accounts i).lossPaid
      { s.totals with cTot := s.cTot - (s.accounts i).lossPay, negPnlAccountCount := n } ∧
    ((s.accounts i).lossPay = 0 ∨ (s.accounts i).lossPay ≤ s.cTot) ∧
    n + (s.accounts i).negPnl = s.negPnlAccountCount + (s.accounts i).lossPaid.negPnl := by
  set P : RiskEngine → List Event → Prop := fun s' l => l = [] ∧ ∃ n,
    s' = s.rebook i (s.accounts i).lossPaid
      { s.totals with cTot := s.cTot - (s.accounts i).lossPay, negPnlAccountCount := n } ∧
    ((s.accounts i).lossPay = 0 ∨ (s.accounts i).lossPay ≤ s.cTot) ∧
    n + (s.accounts i).negPnl = s.negPnlAccountCount + (s.accounts i).lossPaid.negPnl with hP
  refine wp_sound (Q := fun _ => P) hok ?_
  have hnone : (s.accounts i).lossPay = 0 → P s [] := by
    intro h
    refine ⟨rfl, s.negPnlAccountCount, ?_, .inl h, ?_⟩
    · rw [Account.lossPaid_eq h, h]
      exact (s.rebook_eta i).symm
    · rw [Account.lossPaid_eq h]
  simp only [settleLosses, wp_bind, wp_read, wp_whenever, wp_rejectIf, wp_orErr, implies_true,
    true_and]
  have hpay : (s.accounts i).pnl < 0 →
      min (s.accounts i).pnl.natAbs (s.accounts i).capital = (s.accounts i).lossPay := fun hneg => by
    unfold Account.lossPay
    omega
  refine ⟨fun hneg _ => ?_, fun hneg => hnone ?_⟩
  · rw [hpay hneg]
    refine ⟨fun hpos => wp_ok fun _ s₁ l₁ h₁ v hv _ => wp_ok fun _ s₂ l₂ h₂ => ?_,
      fun hzero => hnone (by omega)⟩
    obtain ⟨c, rfl, rfl, hc⟩ := setCapital_spec h₁
    obtain ⟨octx, h₂⟩ := setPnl_eq h₂
    have hle : (s.accounts i).pnl + ((s.accounts i).lossPay : Nat) ≤ 0 := by
      unfold Account.lossPay
      omega
    obtain rfl := checkedAddI128_pay hle hv
    obtain ⟨n, rfl, rfl, -, hn⟩ := setPnlWithReserve_nonpos h₂
      (by simp only [RiskEngine.rebook_accounts, put_same, Account.withCapital_pnl]; omega) hle
    simp only [RiskEngine.rebook_accounts, put_same, RiskEngine.rebook_rebook] at hn ⊢
    have hcap : (s.accounts i).lossPay ≤ (s.accounts i).capital := min_le_right _ _
    obtain rfl : c = s.cTot - (s.accounts i).lossPay := by omega
    exact ⟨rfl, n, rfl, .inr (by omega), hn⟩
  · unfold Account.lossPay
    omega

theorem settleLosses_spec (hok : settleLosses i s = .ok () s' l) : Booked Entry i s s' l := by
  obtain ⟨rfl, n, rfl, htot, hn⟩ := settleLosses_exact hok
  rcases htot with hzero | htot
  · rw [Account.lossPaid_eq hzero] at hn ⊢
    refine .inl ⟨?_, rfl⟩
    obtain rfl : n = s.negPnlAccountCount := by omega
    rw [hzero]
    exact s.rebook_eta i
  · refine .inr ⟨_, _, rfl, .lossPaid _ n (min_le_right _ _) htot (min_le_left _ _) ?_ hn⟩
    unfold Account.lossPay
    omega

/-- A change to PnL zero of a flat negative account writes the loss off. -/
theorem Booked.writeOff {octx octx' : Option InstructionContext} {mode : ReserveMode} {draw : Nat}
    (hflat : effectivePosQ s i = some 0) (hneg : (s.accounts i).pnl < 0) (hdraw : draw ≤ s.insuranceFund)
    (hok : setPnlWithReserve i 0 mode octx (s.withInsuranceFund (s.insuranceFund - draw)) =
      .ok octx' s' l) : Booked Forgiven i s s' l := by
  obtain ⟨n, rfl, rfl, hres, hn⟩ := setPnlWithReserve_nonpos hok (le_of_lt hneg) le_rfl
  have h1 : (s.accounts i).negPnl = 1 := if_pos hneg
  have hn : n + (s.accounts i).negPnl = s.negPnlAccountCount + 0 := hn
  exact .inr ⟨_, _, rfl, .mk draw n hflat hneg hdraw hres (by omega)⟩

/-- A flat negative account is forgiven, with what insurance has above its floor. -/
theorem resolveFlatNegative_exact (hok : resolveFlatNegative i s = .ok () s' l) : l = [] ∧
    (¬ (effectivePosQ s i = some 0 ∧ (s.accounts i).pnl < 0) ∧ s' = s ∨
      (effectivePosQ s i = some 0 ∧ (s.accounts i).pnl < 0) ∧ (s.accounts i).reservedPnl = 0 ∧
        ∃ n, n + 1 = s.negPnlAccountCount ∧ s' = s.rebook i ((s.accounts i).withPnl 0)
          { s.totals with
            insuranceFund := s.insuranceFund -
              min (s.accounts i).pnl.natAbs (s.insuranceFund - s.params.insuranceFloor)
            negPnlAccountCount := n }) := by
  set P : RiskEngine → List Event → Prop := fun s' l => l = [] ∧
    (¬ (effectivePosQ s i = some 0 ∧ (s.accounts i).pnl < 0) ∧ s' = s ∨
      (effectivePosQ s i = some 0 ∧ (s.accounts i).pnl < 0) ∧ (s.accounts i).reservedPnl = 0 ∧
        ∃ n, n + 1 = s.negPnlAccountCount ∧ s' = s.rebook i ((s.accounts i).withPnl 0)
          { s.totals with
            insuranceFund := s.insuranceFund -
              min (s.accounts i).pnl.natAbs (s.insuranceFund - s.params.insuranceFloor)
            negPnlAccountCount := n }) with hP
  refine wp_sound (Q := fun _ => P) hok ?_
  simp only [resolveFlatNegative, absorbProtocolLoss, useInsuranceBuffer, wp_bind, wp_read,
    wp_whenever, wp_rejectIf, wp_expect, wp_update, wp_pure, implies_true, true_and]
  refine fun eff heff => ⟨?_, fun hno => ⟨rfl, .inl ⟨?_, rfl⟩⟩⟩
  · rintro ⟨h0, hneg⟩ -
    refine wp_ok fun _ s₁ l₁ h₁ => ?_
    subst h0
    obtain ⟨octx, h₁⟩ := setPnl_eq h₁
    obtain ⟨n, rfl, rfl, hres, hn⟩ := setPnlWithReserve_nonpos h₁ (le_of_lt hneg) le_rfl
    have h1 : (s.accounts i).negPnl = 1 := if_pos hneg
    have hn : n + (s.accounts i).negPnl = s.negPnlAccountCount + 0 := hn
    exact ⟨rfl, .inr ⟨⟨heff, hneg⟩, hres, n, by omega, rfl⟩⟩
  · rintro ⟨hflat, hneg⟩
    exact hno ⟨Option.some.inj (heff.symm.trans hflat), hneg⟩

theorem resolveFlatNegative_spec (hok : resolveFlatNegative i s = .ok () s' l) :
    Booked Forgiven i s s' l := by
  obtain ⟨rfl, ⟨-, rfl⟩ | ⟨⟨hflat, hneg⟩, hres, n, hn, rfl⟩⟩ := resolveFlatNegative_exact hok
  · exact .inl ⟨rfl, rfl⟩
  · exact .inr ⟨_, _, rfl, .mk _ n hflat hneg ((min_le_right _ _).trans (Nat.sub_le _ _)) hres hn⟩

/-- The engine after the fee debt of account `i` is paid from its capital. -/
def RiskEngine.feeSwept (s : RiskEngine) (i : Nat) : RiskEngine :=
  let pay := min (feeDebtU128Checked (s.accounts i).feeCredits) (s.accounts i).capital
  s.rebook i (((s.accounts i).withCapital ((s.accounts i).capital - pay)).withFeeCredits
    ((s.accounts i).feeCredits + pay))
    { s.totals with cTot := s.cTot - pay, insuranceFund := s.insuranceFund + pay }

/-- What an account pays of its fee debt from its capital. -/
def Account.debtPay (a : Account) : Nat := min (feeDebtU128Checked a.feeCredits) a.capital

theorem RiskEngine.feeSwept_eq (h : (s.accounts i).debtPay = 0) : s.feeSwept i = s := by
  have none : min (feeDebtU128Checked (s.accounts i).feeCredits) (s.accounts i).capital = 0 := h
  unfold feeSwept
  rw [none]
  simp [rebook, totals, Account.withCapital, Account.withFeeCredits]

theorem feeDebtSweep_exact (hfee : -I128_MAX ≤ (s.accounts i).feeCredits)
    (hok : feeDebtSweep i s = .ok () s' l) : s' = s.feeSwept i ∧ l = [] ∧
      ((s.accounts i).debtPay = 0 ∨ (s.accounts i).debtPay ≤ s.cTot) := by
  refine wp_sound (Q := fun _ s' l => s' = s.feeSwept i ∧ l = [] ∧
    ((s.accounts i).debtPay = 0 ∨ (s.accounts i).debtPay ≤ s.cTot)) hok ?_
  simp only [feeDebtSweep, wp_bind, wp_read, wp_whenever, wp_orErr, wp_update, wp_writeAccount,
    implies_true, true_and]
  have debt : min (feeDebtU128Checked (s.accounts i).feeCredits) (s.accounts i).capital =
      (s.accounts i).debtPay := rfl
  have le_capital : (s.accounts i).debtPay ≤ (s.accounts i).capital := min_le_right _ _
  have le_debt : (s.accounts i).debtPay ≤ (-(s.accounts i).feeCredits).toNat := min_le_left _ _
  rw [debt]
  constructor
  · refine fun _ => wp_ok fun _ s₁ l₁ h₁ credits hc fund hf => ?_
    obtain ⟨c, rfl, rfl, hcap⟩ := setCapital_spec h₁
    obtain ⟨rfl, -⟩ := toI128_eq hc
    have hf := checkedAddU128_eq hf
    rw [min_eq_left (by omega), hf.1]
    obtain rfl : c = s.cTot - (s.accounts i).debtPay := by omega
    refine ⟨?_, rfl, .inr (by omega)⟩
    simp [RiskEngine.feeSwept, debt, RiskEngine.rebook, RiskEngine.setAccount,
      RiskEngine.withInsuranceFund]
  · intro none
    have none : (s.accounts i).debtPay = 0 := by omega
    refine ⟨?_, .inl none⟩
    exact (RiskEngine.feeSwept_eq none).symm

/-- Capital pays fee debt into insurance. -/
theorem feeDebtSweep_spec (hfee : -I128_MAX ≤ (s.accounts i).feeCredits)
    (hok : feeDebtSweep i s = .ok () s' l) : Booked Entry i s s' l := by
  obtain ⟨rfl, rfl, none | le_tot⟩ := feeDebtSweep_exact hfee hok
  · exact .inl ⟨RiskEngine.feeSwept_eq none, rfl⟩
  · exact .inr ⟨_, _, rfl, .feeSwept _ (min_le_right _ _) le_tot (min_le_left _ _)⟩

/-- What an account can still owe keeps its credits representable. -/
theorem le_feeHeadroom {credits : Int} (h : -I128_MAX ≤ credits) {debt : Nat}
    (hd : debt ≤ feeHeadroom credits) : -I128_MAX ≤ credits - debt := by
  unfold feeHeadroom at hd
  cases hc : checkedAddI128 credits I128_MAX with
  | none => rw [hc] at hd; dsimp only at hd; omega
  | some v =>
      obtain ⟨rfl, -⟩ := toI128_eq hc
      rw [hc] at hd
      dsimp only at hd
      omega

/-- A fee is paid from capital first and becomes debt after that. -/
theorem chargeFeeToInsurance_spec {fee : Nat} {r : Nat × Nat × Nat}
    (hok : chargeFeeToInsurance i fee s = .ok r s' l)
    (hfee : -I128_MAX ≤ (s.accounts i).feeCredits) : Booked Charged i s s' l := by
  refine wp_sound (Q := fun _ s' l => Booked Charged i s s' l) hok ?_
  simp only [chargeFeeToInsurance, wp_bind, wp_read, wp_whenever, wp_rejectIf, wp_orErr, wp_update,
    wp_writeAccount, wp_pure, implies_true, true_and]
  set debt := min (fee - min fee (s.accounts i).capital) (feeHeadroom (s.accounts i).feeCredits)
    with hdebt
  have hle : -I128_MAX ≤ (s.accounts i).feeCredits - debt := le_feeHeadroom hfee (min_le_right _ _)
  refine fun _ => ⟨fun hpaid => wp_ok fun _ s₁ l₁ h₁ fund hf => ⟨fun _ => ?_, fun h0 => ?_⟩,
    fun hpaid => ⟨fun _ => ?_, fun _ => .inl ⟨rfl, rfl⟩⟩⟩
  · obtain ⟨c, rfl, rfl, hcap⟩ := setCapital_spec h₁
    have hf := checkedAddU128_eq hf
    obtain rfl : c = s.cTot - min fee (s.accounts i).capital := by omega
    refine .inr ⟨_, _, ?_, .feeCharged (min fee (s.accounts i).capital) debt (min_le_right _ _)
      (by omega) hle, rfl⟩
    simp [RiskEngine.rebook, RiskEngine.setAccount, RiskEngine.withInsuranceFund, hf.1]
  · obtain ⟨c, rfl, rfl, hcap⟩ := setCapital_spec h₁
    have hf := checkedAddU128_eq hf
    obtain rfl : c = s.cTot - min fee (s.accounts i).capital := by omega
    have h0 : debt = 0 := by omega
    refine .inr ⟨_, _, ?_, .feeCharged (min fee (s.accounts i).capital) 0 (min_le_right _ _)
      (by omega) (by omega), rfl⟩
    simp only [Nat.cast_zero, Int.sub_zero, hf.1]
    rfl
  · refine .inr ⟨_, _, ?_, .feeCharged 0 debt (Nat.zero_le _) (Nat.zero_le _) hle, rfl⟩
    simp [RiskEngine.rebook, RiskEngine.setAccount, RiskEngine.totals, Account.withFeeCredits,
      Account.withCapital]

/-- What a conversion of `x` of released PnL into `y` of capital leaves. -/
def RiskEngine.converted (s : RiskEngine) (i x y : Nat) : RiskEngine :=
  s.rebook i
    (((s.accounts i).withPnl ((s.accounts i).pnl - x)).withCapital ((s.accounts i).capital + y))
    { s.totals with
      cTot := s.cTot + y, pnlPosTot := s.pnlPosTot - x, pnlMaturedPosTot := s.pnlMaturedPosTot - x }

theorem convertInto_exact {x y : Nat} (hok : convertInto i x y s = .ok () s' l) :
    0 < x ∧ x ≤ (s.accounts i).releasedPos ∧ x ≤ s.pnlPosTot ∧ x ≤ s.pnlMaturedPosTot ∧
      s' = s.converted i x y ∧ l = [] := by
  refine wp_sound (Q := fun _ s' l => 0 < x ∧ x ≤ (s.accounts i).releasedPos ∧ x ≤ s.pnlPosTot ∧
    x ≤ s.pnlMaturedPosTot ∧ s' = s.converted i x y ∧ l = []) hok ?_
  simp only [convertInto, consumeReleasedPnl, wp_bind, wp_read, wp_rejectIf, wp_orErr, wp_update,
    wp_writeAccount, implies_true, true_and, not_lt]
  intro hx rel hrel hxrel tot htot m hm hlem v hv hmin cap hcap
  refine wp_ok fun _ s₁ l₁ h₁ => ?_
  obtain ⟨c, rfl, rfl, hc⟩ := setCapital_spec h₁
  have hrel := checkedSub_eq hrel
  have htot := checkedSub_eq htot
  have hm := checkedSub_eq hm
  obtain ⟨rfl, -, -⟩ := toI128_eq hv
  have hcap := checkedAddU128_eq hcap
  have hcap : cap = (s.accounts i).capital + y := by simpa using hcap.1
  have hc : c + (s.accounts i).capital = s.cTot + cap := by simpa using hc
  obtain rfl : c = s.cTot + y := by omega
  obtain rfl : tot = s.pnlPosTot - x := by omega
  obtain rfl : m = s.pnlMaturedPosTot - x := by omega
  refine ⟨by omega, by unfold Account.releasedPos; omega, by omega, by omega, ?_, rfl⟩
  simp [RiskEngine.converted, RiskEngine.rebook, RiskEngine.setAccount, RiskEngine.totals,
    RiskEngine.withPnlPosTot, RiskEngine.withPnlMaturedPosTot, hcap]

/-- Released PnL becomes capital, one for one or less, when the vault covers it. -/
theorem convertInto_spec {x y : Nat} (hok : convertInto i x y s = .ok () s' l)
    (hlive : s.marketMode = .live) (hle : y ≤ x)
    (hback : x ≤ s.pnlMaturedPosTot → (y : Int) ≤ s.backing) : Booked Entry i s s' l := by
  obtain ⟨pos, released, tot, matured, rfl, rfl⟩ := convertInto_exact hok
  exact .inr ⟨_, _, rfl, .converted x y hlive pos hle released matured tot (hback matured)⟩

theorem wideMulDivFloorU128_eq {a b d y : Nat} (h : wideMulDivFloorU128 a b d = some y) :
    0 < d ∧ y = a * b / d := by
  unfold wideMulDivFloorU128 at h
  split_ifs at h with hd
  simp only [Option.some.injEq] at h
  exact ⟨by omega, h.symm⟩

/-- The haircut is a ratio below one whose numerator the vault covers. -/
theorem haircut_le (hback : 0 ≤ s.backing) {x y : Nat} (hx : x ≤ s.pnlMaturedPosTot)
    (h : wideMulDivFloorU128 x (haircutRatio s).1 (haircutRatio s).2 = some y) :
    y ≤ x ∧ (y : Int) ≤ s.backing := by
  obtain ⟨hd, rfl⟩ := wideMulDivFloorU128_eq h
  have hres : (s.residual : Int) = s.backing := by
    unfold RiskEngine.backing at *; unfold RiskEngine.residual; omega
  unfold haircutRatio at *
  split_ifs at * with h0
  · obtain rfl : x = 0 := by omega
    simpa using hback
  · dsimp only at hd ⊢
    have h1 : x * min s.residual s.pnlMaturedPosTot / s.pnlMaturedPosTot ≤ x :=
      Nat.div_le_of_le_mul (by rw [Nat.mul_comm]; exact Nat.mul_le_mul_right _ (min_le_right _ _))
    have h2 : x * min s.residual s.pnlMaturedPosTot / s.pnlMaturedPosTot ≤ s.residual :=
      Nat.div_le_of_le_mul (Nat.mul_le_mul hx (min_le_left _ _))
    exact ⟨h1, by omega⟩

theorem convertAtHaircut_spec {x : Nat} (hok : convertAtHaircut i x s = .ok () s' l)
    (hlive : s.marketMode = .live) (hback : 0 ≤ s.backing) (hrel : (s.accounts i).releasedPos ≤ s.pnlMaturedPosTot) :
    Booked Entry i s s' l := by
  refine wp_sound (Q := fun _ s' l => Booked Entry i s s' l) hok ?_
  simp only [convertAtHaircut, wp_bind, wp_read, wp_rejectIf, wp_whenever, wp_expect, implies_true,
    true_and]
  intro hx
  have hx : x ≤ s.pnlMaturedPosTot := by omega
  refine ⟨fun _ _ _ _ y hy => ?_, fun _ y hy => ?_⟩
  all_goals
    obtain ⟨hle, hb⟩ := haircut_le hback hx hy
    exact wp_ok fun _ _ _ h => convertInto_spec h hlive hle fun _ => hb

/-- Capital leaves the vault with the account. -/
theorem payOut_spec {amount : Nat} (hok : payOut i amount s = .ok () s' l)
    (hle : amount ≤ (s.accounts i).capital) : Booked Charged i s s' l := by
  refine wp_sound (Q := fun _ s' l => Booked Charged i s s' l) hok ?_
  simp only [payOut, wp_bind, wp_read, wp_orErr, wp_update, implies_true, true_and]
  refine wp_ok fun _ s₁ l₁ h₁ v hv => ?_
  obtain ⟨c, rfl, rfl, hc⟩ := setCapital_spec h₁
  have hv := checkedSub_eq hv
  obtain rfl : c = s.cTot - amount := by omega
  obtain rfl : v = s.vault - amount := by omega
  refine .inr ⟨_, _, ?_, .paidOut amount hle (by omega) (by omega), rfl⟩
  simp [RiskEngine.rebook, RiskEngine.withVault]

theorem payOutAll_spec {r : Nat} (hok : payOutAll i s = .ok r s' l) :
    r = (s.accounts i).capital ∧ (s'.accounts i).capital = 0 ∧ Booked Charged i s s' l := by
  refine wp_sound (Q := fun r s' l => r = (s.accounts i).capital ∧ (s'.accounts i).capital = 0 ∧
    Booked Charged i s s' l) hok ?_
  simp only [payOutAll, wp_bind, wp_read, wp_rejectIf, wp_update, wp_pure, implies_true, true_and, not_lt]
  refine fun hv => wp_ok fun _ s₁ l₁ h₁ => ?_
  obtain ⟨c, rfl, rfl, hc⟩ := setCapital_spec h₁
  simp only [RiskEngine.withVault_accounts, RiskEngine.withVault_cTot] at hc
  obtain rfl : c = s.cTot - (s.accounts i).capital := by omega
  refine ⟨by simp, .inr ⟨_, _, ?_, .paidOut (s.accounts i).capital le_rfl (by omega) hv, rfl⟩⟩
  simp [RiskEngine.rebook, RiskEngine.withVault, RiskEngine.totals]

theorem vaultAfter_spec {amount v : Nat} {s₀ : RiskEngine} (hok : vaultAfter s₀ amount s = .ok v s' l) :
    s' = s ∧ l = [] ∧ v = s₀.vault + amount ∧ s₀.vault + amount ≤ MAX_VAULT_TVL := by
  refine wp_sound (Q := fun v s' l => s' = s ∧ l = [] ∧ v = s₀.vault + amount ∧
    s₀.vault + amount ≤ MAX_VAULT_TVL) hok ?_
  simp only [vaultAfter, wp_bind, wp_orErr, wp_rejectIf, wp_pure, implies_true, true_and, not_lt]
  intro v hv hle
  have hv := checkedAddU128_eq hv
  exact ⟨hv.1, hv.1 ▸ hle⟩

theorem creditDeposit_spec {amount : Nat} (hcap : s.vault + amount ≤ MAX_VAULT_TVL)
    (hok : creditDeposit i amount (s.vault + amount) s = .ok () s' l) : Booked Entry i s s' l := by
  refine wp_sound (Q := fun _ s' l => Booked Entry i s s' l) hok ?_
  simp only [creditDeposit, wp_bind, wp_read, wp_orErr, wp_update, implies_true, true_and]
  refine fun v hv => wp_ok fun _ s₁ l₁ h₁ => ?_
  obtain ⟨c, rfl, rfl, hc⟩ := setCapital_spec h₁
  simp only [RiskEngine.withVault_accounts, RiskEngine.withVault_cTot] at hc hv
  obtain ⟨rfl, -⟩ := checkedAddU128_eq hv
  obtain rfl : c = s.cTot + amount := by omega
  refine .inr ⟨_, _, ?_, .deposited amount hcap⟩
  simp [RiskEngine.rebook, RiskEngine.withVault, RiskEngine.totals]

/-- Dust capital goes to insurance, and then the debt is forgiven. -/
theorem reclaimDust_spec (hok : reclaimDust i s = .ok () s' l) :
    ∃ s₁, Booked Charged i s s₁ [] ∧ Booked Charged i s₁ s' [] ∧ l = [] ∧ (s'.accounts i).capital = 0 := by
  refine wp_sound (Q := fun _ s' l => ∃ s₁, Booked Charged i s s₁ [] ∧ Booked Charged i s₁ s' [] ∧
    l = [] ∧ (s'.accounts i).capital = 0) hok ?_
  simp only [reclaimDust, wp_bind, wp_read, wp_whenever, wp_orErr, wp_update, wp_writeAccount,
    implies_true, true_and]
  refine ⟨fun hpos f hf => wp_ok fun _ s₁ l₁ h₁ => ?_, fun h0 => ⟨s, .inl ⟨rfl, rfl⟩,
    .inr ⟨_, _, rfl, .debtForgiven, rfl⟩, ?_⟩⟩
  · obtain ⟨c, rfl, rfl, hc⟩ := setCapital_spec h₁
    obtain ⟨rfl, -⟩ := checkedAddU128_eq hf
    obtain rfl : c = s.cTot - (s.accounts i).capital := by omega
    exact ⟨_, .inr ⟨_, _, rfl, .reclaimed (by omega), rfl⟩, .inr ⟨_, _, rfl, .debtForgiven, rfl⟩, rfl,
      by simp [RiskEngine.rebook, RiskEngine.withInsuranceFund]⟩
  · simp only [RiskEngine.setAccount_accounts, put_same, Account.withFeeCredits_capital]; omega

end Specs

end Percolator
