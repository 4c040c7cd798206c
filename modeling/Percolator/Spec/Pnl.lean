import Percolator.Engine.Accrual
import Percolator.Engine.Ledger
import Percolator.Spec.Reserve

/-!
What the canonical PnL mutator does: `set_pnl_with_reserve` moves the totals by
exactly the change of the account, keeps its reserve well shaped, and credits
matured PnL at once only where it fits the residual.
-/

namespace Percolator

open Effect

/-- The positive part of an account's PnL. -/
def Account.posPnl (a : Account) : Nat := i128ClampPos a.pnl

/-- What an account contributes to the number of negative accounts. -/
def Account.negPnl (a : Account) : Nat := if a.pnl < 0 then 1 else 0

/-- `v` became the PnL of account `i`, with the new account `a'` and totals `t'`. -/
structure PnlSet (s : RiskEngine) (i : Nat) (v : Int) (a' : Account) (t' : Totals) : Prop where
  same : (s.accounts i).SameButPnl a'
  pnl_eq : a'.pnl = v
  frame : t' = { s.totals with
    pnlPosTot := t'.pnlPosTot, pnlMaturedPosTot := t'.pnlMaturedPosTot
    negPnlAccountCount := t'.negPnlAccountCount }
  pos : t'.pnlPosTot + (s.accounts i).posPnl = s.pnlPosTot + a'.posPnl
  neg : t'.negPnlAccountCount + (s.accounts i).negPnl = s.negPnlAccountCount + a'.negPnl

/-- The same in Live mode, where a rise goes to the reserve, or to matured PnL
only if `instant`. -/
structure LivePnlSet (s : RiskEngine) (i : Nat) (v : Int) (instant : Prop) (a' : Account)
    (t' : Totals) : Prop extends PnlSet s i v a' t' where
  shape : ReserveShape s.params (s.accounts i) → ReserveShape s.params a'
  matured : t'.pnlMaturedPosTot + (s.accounts i).releasedPos = s.pnlMaturedPosTot + a'.releasedPos
  reserved_le : v ≤ (s.accounts i).pnl → a'.reservedPnl ≤ (s.accounts i).reservedPnl
  slot : a'.releasedPos + a'.releasable s.currentSlot ≤
    (s.accounts i).releasedPos + (s.accounts i).releasable s.currentSlot ∨ instant
  grown : a'.releasedPos ≤ (s.accounts i).releasedPos ∨
    instant ∧ (t'.pnlMaturedPosTot : Int) ≤ s.backing
  started : (s.accounts i).StartedBy s.currentSlot → a'.StartedBy s.currentSlot
  within : v ≤ MAX_ACCOUNT_POSITIVE_PNL

theorem i128ClampPos_mono {v w : Int} (h : v ≤ w) : i128ClampPos v ≤ i128ClampPos w :=
  Int.toNat_le_toNat h

/-- The buckets do not see PnL. -/
theorem Buckets.withPnl {p : RiskParams} {a : Account} {v : Int} (h : Buckets p a) :
    Buckets p (a.withPnl v) :=
  ⟨h.schedAbsent, h.schedPresent, h.pendingAbsent, h.pendingPresent, h.total⟩

section Specs

variable {s s' : RiskEngine} {l : List Event} {i : Nat} {v : Int}

theorem trackNegPnl_spec {old : Int} (hok : trackNegPnl old v s = .ok () s' l) :
    ∃ n, s' = s.withNegPnlAccountCount n ∧ l = [] ∧
      n + (if old < 0 then 1 else 0) = s.negPnlAccountCount + (if v < 0 then 1 else 0) := by
  refine wp_sound (Q := fun _ s' l => ∃ n, s' = s.withNegPnlAccountCount n ∧ l = [] ∧
    n + (if old < 0 then 1 else 0) = s.negPnlAccountCount + (if v < 0 then 1 else 0)) hok ?_
  simp only [trackNegPnl, wp_bind, wp_read, wp_ite, wp_orErr, wp_update, wp_pure, implies_true,
    true_and]
  refine ⟨fun h n hn => ⟨n, rfl, ?_⟩, fun h => ⟨fun h' n hn => ⟨n, rfl, ?_⟩, fun h' =>
    ⟨_, rfl, ?_⟩⟩⟩
  · have := checkedSub_eq hn
    rw [if_pos h.1, if_neg (by omega)]; omega
  · unfold checkedAddU64 at hn
    split_ifs at hn
    rw [if_neg (by omega), if_pos h'.2]; simp at hn; omega
  · split_ifs <;> omega

theorem checkPnlPair_spec (hok : checkPnlPair i v s = .ok () s' l) :
    s' = s ∧ l = [] ∧ s.pnlMaturedPosTot ≤ s.pnlPosTot ∧
      (s.accounts i).reservedPnl ≤ i128ClampPos v := by
  refine wp_sound (Q := fun _ s' l => s' = s ∧ l = [] ∧ s.pnlMaturedPosTot ≤ s.pnlPosTot ∧
      (s.accounts i).reservedPnl ≤ i128ClampPos v) hok ?_
  simp only [checkPnlPair, wp_bind, wp_read, wp_rejectIf, implies_true, true_and, not_lt]
  exact fun h h' => ⟨h, h'⟩

/-- The end of an increase: fresh PnL went to matured or to the reserve. -/
theorem increasePnl_spec {hMin hMax : Nat} {ctx : InstructionContext}
    {ctx' : Option InstructionContext} (hlt : (s.accounts i).posPnl < i128ClampPos v)
    (hres : (s.accounts i).reservedPnl ≤ (s.accounts i).posPnl) (hcap : v ≤ MAX_ACCOUNT_POSITIVE_PNL)
    (hpair : AdmissionPair s.params hMin hMax)
    (hok : increasePnl i v (.useAdmissionPair hMin hMax) (some ctx) s = .ok ctx' s' l) :
    ∃ a' t' c, s' = s.rebook i a' t' ∧ l = [] ∧ ctx' = some c ∧ ctx.SameButSticky c ∧
      LivePnlSet s i v (hMin = 0) a' t' := by
  set P : Option InstructionContext → RiskEngine → List Event → Prop := fun ctx' s' l =>
    ∃ a' t' c, s' = s.rebook i a' t' ∧ l = [] ∧ ctx' = some c ∧ ctx.SameButSticky c ∧
      LivePnlSet s i v (hMin = 0) a' t' with hP
  refine wp_sound (Q := P) hok ?_
  simp only [increasePnl, wp_bind, wp_read, wp_ite, wp_orErr, wp_update, wp_writeAccount, wp_pure,
    implies_true, true_and]
  intro tot htot
  have htot := checkedAddU128_eq htot
  refine wp_ok fun _ s₁ l₁ h₁ => ?_
  obtain ⟨n, rfl, rfl, hn⟩ := trackNegPnl_spec h₁
  intro c hc
  refine wp_ok fun r s₂ l₂ h₂ => ?_
  obtain ⟨admitted, c'⟩ := r
  obtain ⟨rfl, rfl, hc', hadm⟩ := admitFreshReserveHLock_spec h₂
  obtain rfl := Option.some.inj hc
  have hold : i128ClampPos (s.accounts i).pnl = (s.accounts i).posPnl := rfl
  have hneg : n + (s.accounts i).negPnl = s.negPnlAccountCount + ((s.accounts i).withPnl v).negPnl := hn
  rw [hold] at htot hadm ⊢
  refine ⟨fun h0 m hm => wp_ok fun _ s₃ l₃ h₃ => ?_, fun h0 => wp_ok fun _ s₃ l₃ h₃ => ?_⟩
  · -- admitted at horizon zero: the whole rise is matured
    have hm := checkedAddU128_eq hm
    obtain ⟨rfl, rfl, -, hle⟩ := checkPnlPair_spec h₃
    simp only [RiskEngine.withPnlMaturedPosTot_accounts, RiskEngine.setAccount_accounts, put_same,
      RiskEngine.withNegPnlAccountCount_accounts, RiskEngine.withPnlPosTot_accounts,
      Account.withPnl_reservedPnl] at hle
    have hmax := hpair.max_pos
    have h0 : admitted = 0 := h0
    have hinst : hMin = 0 ∧ ((s.pnlMaturedPosTot + (i128ClampPos v - (s.accounts i).posPnl) : Nat) : Int)
        ≤ s.backing := by
      rcases hadm with h | ⟨h, hb⟩
      · omega
      · exact ⟨by omega, by push_cast; exact hb⟩
    refine ⟨(s.accounts i).withPnl v, { s.totals with
      pnlPosTot := tot, pnlMaturedPosTot := m, negPnlAccountCount := n }, c', rfl, rfl, rfl, hc', ?_⟩
    refine ⟨⟨rfl, rfl, rfl, ?_, hneg⟩, fun h => ?_, ?_, fun _ => le_rfl, .inr hinst.1,
      .inr ⟨hinst.1, hm.1 ▸ hinst.2⟩, fun h => ⟨h.sched, h.pending⟩, hcap⟩
    · show tot + _ = _ + i128ClampPos v; omega
    · exact reserveShape_iff.mpr ⟨(reserveShape_iff.mp h).1.withPnl, hle⟩
    · show m + ((s.accounts i).posPnl - (s.accounts i).reservedPnl) =
        s.pnlMaturedPosTot + (i128ClampPos v - (s.accounts i).reservedPnl)
      omega
  · -- reserved
    have hhor : 0 < admitted ∧ s.params.hMin ≤ admitted ∧ admitted ≤ s.params.hMax := by
      have h0 : admitted ≠ 0 := h0
      have hmax := hpair.max_pos
      have hfl := hpair.floor_le
      have hml := hpair.max_le
      rcases hadm with h | ⟨h, -⟩
      · omega
      · have := hpair.min_ge (by omega)
        have := hpair.min_le
        omega
    obtain ⟨a', rfl, rfl, ha'⟩ := appendOrRouteNewReserve_spec h₃ (by omega) hhor
    refine wp_ok fun _ s₄ l₄ h₄ => ?_
    obtain ⟨rfl, rfl, -, hle⟩ := checkPnlPair_spec h₄
    simp only [RiskEngine.setAccount_accounts, put_same] at ha' hle
    have hsame := ha'.same
    have hpnl : a'.pnl = v := ha'.pnl_eq
    have hreserved : a'.reservedPnl = (s.accounts i).reservedPnl + _ := ha'.reserved
    have hpos : a'.posPnl = i128ClampPos v := by rw [Account.posPnl, hpnl]
    have hrel : a'.releasedPos = (s.accounts i).releasedPos := by
      show a'.posPnl - a'.reservedPnl = (s.accounts i).posPnl - (s.accounts i).reservedPnl
      omega
    refine ⟨a', { s.totals with pnlPosTot := tot, negPnlAccountCount := n }, c', ?_, rfl, rfl, hc', ?_⟩
    · simp only [RiskEngine.setAccount_setAccount]; rfl
    refine ⟨⟨Account.SameButPnl.trans (b := (s.accounts i).withPnl v) rfl hsame, hpnl, rfl, ?_, ?_⟩, fun _ => ?_, ?_, fun h => ?_,
      .inl ?_, .inl hrel.le, fun h => ha'.started ⟨h.sched, h.pending⟩, hcap⟩
    · show tot + _ = _ + a'.posPnl; omega
    · rw [show a'.negPnl = ((s.accounts i).withPnl v).negPnl by simp [Account.negPnl, hpnl]]
      exact hneg
    · exact reserveShape_iff.mpr ⟨ha'.buckets, by rw [hpnl]; exact hle⟩
    · show s.pnlMaturedPosTot + _ = s.pnlMaturedPosTot + a'.releasedPos; rw [hrel]
    · have := i128ClampPos_mono h
      have : i128ClampPos (s.accounts i).pnl = (s.accounts i).posPnl := rfl
      omega
    · have : a'.releasable s.currentSlot = (s.accounts i).releasable s.currentSlot := ha'.releasable
      omega

/-- The account and matured total that a Live loss of `loss` leaves. -/
structure LossTaken (s : RiskEngine) (i loss : Nat) (a' : Account) (matured' : Nat) : Prop where
  same : (s.accounts i).SameButPnl a'
  pnl_eq : a'.pnl = (s.accounts i).pnl
  reserved : a'.reservedPnl + min loss (s.accounts i).reservedPnl = (s.accounts i).reservedPnl
  matured : matured' + (loss - min loss (s.accounts i).reservedPnl) = s.pnlMaturedPosTot
  buckets : Buckets s.params (s.accounts i) → Buckets s.params a'
  releasable : ∀ t, a'.releasable t ≤ (s.accounts i).releasable t
  started : ∀ t, (s.accounts i).StartedBy t → a'.StartedBy t

theorem takeLiveLoss_spec {loss : Nat} (hok : takeLiveLoss i loss s = .ok () s' l) :
    ∃ a' m, s' = (s.setAccount i a').withPnlMaturedPosTot m ∧ l = [] ∧ LossTaken s i loss a' m := by
  set P : RiskEngine → List Event → Prop := fun s' l =>
    ∃ a' m, s' = (s.setAccount i a').withPnlMaturedPosTot m ∧ l = [] ∧ LossTaken s i loss a' m
    with hP
  refine wp_sound (Q := fun _ => P) hok ?_
  simp only [takeLiveLoss, wp_bind, wp_read, wp_whenever, wp_orErr, wp_update, implies_true,
    true_and]
  -- the second step on whatever account the first one left
  have hrest : ∀ a', (s.accounts i).SameButPnl a' → a'.pnl = (s.accounts i).pnl →
      a'.reservedPnl + min loss (s.accounts i).reservedPnl = (s.accounts i).reservedPnl →
      (Buckets s.params (s.accounts i) → Buckets s.params a') →
      (∀ t, a'.releasable t ≤ (s.accounts i).releasable t) →
      (∀ t, (s.accounts i).StartedBy t → a'.StartedBy t) →
      (0 < loss - min loss (s.accounts i).reservedPnl → ∀ m,
        checkedSub s.pnlMaturedPosTot (loss - min loss (s.accounts i).reservedPnl) = some m →
        P ((s.setAccount i a').withPnlMaturedPosTot m) []) ∧
      (¬ 0 < loss - min loss (s.accounts i).reservedPnl → P (s.setAccount i a') []) := by
    intro a' h₁ h₂ h₃ h₄ h₅ h₆
    refine ⟨fun _ m hm => ⟨a', m, rfl, rfl, h₁, h₂, h₃, (checkedSub_eq hm).symm, h₄, h₅, h₆⟩,
      fun h => ⟨a', s.pnlMaturedPosTot, rfl, rfl, h₁, h₂, h₃, by omega, h₄, h₅, h₆⟩⟩
  refine ⟨fun _ => wp_ok fun _ s₁ l₁ h₁ => ?_, fun h => ?_⟩
  · obtain ⟨a', rfl, rfl, ha'⟩ := applyReserveLossNewestFirst_spec h₁
    exact hrest a' ha'.same ha'.pnl_eq ha'.reserved (fun _ => ha'.buckets) ha'.releasable ha'.started
  · have := hrest (s.accounts i) rfl rfl (by omega) id (fun _ => le_rfl) fun _ h => h
    rwa [RiskEngine.setAccount_eta] at this

/-- A fall of PnL in Live mode. -/
theorem decreasePnl_live {instant : Prop} (hlive : s.marketMode = .live)
    (hle : i128ClampPos v ≤ (s.accounts i).posPnl)
    (hres : (s.accounts i).reservedPnl ≤ (s.accounts i).posPnl) (hcap : v ≤ MAX_ACCOUNT_POSITIVE_PNL)
    (hok : decreasePnl i v s = .ok () s' l) :
    ∃ a' t', s' = s.rebook i a' t' ∧ l = [] ∧ LivePnlSet s i v instant a' t' := by
  set P : RiskEngine → List Event → Prop := fun s' l =>
    ∃ a' t', s' = s.rebook i a' t' ∧ l = [] ∧ LivePnlSet s i v instant a' t' with hP
  refine wp_sound (Q := fun _ => P) hok ?_
  simp only [decreasePnl, hlive, if_true, wp_bind, wp_read, wp_orErr, wp_update, wp_writeAccount, wp_rejectIf, implies_true,
    true_and]
  intro tot htot
  have htot := checkedSub_eq htot
  refine wp_ok fun _ s₁ l₁ h₁ => ?_
  obtain ⟨a₁, m, rfl, rfl, ha₁⟩ := takeLiveLoss_spec h₁
  refine wp_ok fun _ s₂ l₂ h₂ => ?_
  obtain ⟨n, rfl, rfl, hn⟩ := trackNegPnl_spec h₂
  intro _
  refine wp_ok fun _ s₃ l₃ h₃ => ?_
  obtain ⟨rfl, rfl, -, hle'⟩ := checkPnlPair_spec h₃
  simp only [RiskEngine.withPnlMaturedPosTot_accounts, RiskEngine.setAccount_accounts, put_same,
    RiskEngine.withNegPnlAccountCount_accounts, Account.withPnl_reservedPnl] at hle'
  have hold : i128ClampPos (s.accounts i).pnl = (s.accounts i).posPnl := rfl
  have hreserved : a₁.reservedPnl + min _ (s.accounts i).reservedPnl = (s.accounts i).reservedPnl :=
    ha₁.reserved
  have hmatured : m + (_ - min _ (s.accounts i).reservedPnl) = s.pnlMaturedPosTot := ha₁.matured
  have hrel : i128ClampPos v - a₁.reservedPnl ≤ (s.accounts i).releasedPos := by
    show _ ≤ (s.accounts i).posPnl - (s.accounts i).reservedPnl
    omega
  refine ⟨a₁.withPnl v, { s.totals with
    pnlPosTot := tot, pnlMaturedPosTot := m, negPnlAccountCount := n }, ?_, rfl, ⟨?_, rfl, rfl, ?_, ?_⟩,
    fun h => ?_, ?_, fun _ => ?_, .inl (Nat.add_le_add hrel (ha₁.releasable _)), .inl hrel,
    fun h => ⟨(ha₁.started _ h).sched, (ha₁.started _ h).pending⟩, hcap⟩
  · simp only [RiskEngine.withPnlMaturedPosTot_accounts, RiskEngine.setAccount_accounts, put_same,
      RiskEngine.withNegPnlAccountCount_accounts, RiskEngine.withNegPnlAccountCount_setAccount,
      RiskEngine.withPnlMaturedPosTot_setAccount, RiskEngine.setAccount_setAccount]
    rfl
  · exact Account.SameButPnl.trans (b := a₁) ha₁.same rfl
  · show tot + (s.accounts i).posPnl = s.pnlPosTot + i128ClampPos v
    omega
  · exact hn
  · obtain ⟨hb, -⟩ := reserveShape_iff.mp h
    exact (reserveShape_iff.mpr ⟨(ha₁.buckets hb).withPnl, hle'⟩)
  · show m + ((s.accounts i).posPnl - (s.accounts i).reservedPnl) =
      s.pnlMaturedPosTot + (i128ClampPos v - a₁.reservedPnl)
    omega
  · show a₁.reservedPnl ≤ _
    omega

/-- A change of PnL in Resolved mode, where nothing is reserved and everything
positive is matured. -/
structure ResolvedPnlSet (s : RiskEngine) (i : Nat) (v : Int) (a' : Account) (t' : Totals) : Prop
    extends PnlSet s i v a' t' where
  account : a' = (s.accounts i).withPnl v
  reserved : (s.accounts i).reservedPnl = 0
  matured : t'.pnlMaturedPosTot + (s.accounts i).posPnl = s.pnlMaturedPosTot + a'.posPnl

theorem takeResolvedLoss_spec {loss : Nat} (hok : takeResolvedLoss i loss s = .ok () s' l) :
    ∃ m, s' = s.withPnlMaturedPosTot m ∧ l = [] ∧ (s.accounts i).reservedPnl = 0 ∧
      m + loss = s.pnlMaturedPosTot := by
  refine wp_sound (Q := fun _ s' l => ∃ m, s' = s.withPnlMaturedPosTot m ∧ l = [] ∧
    (s.accounts i).reservedPnl = 0 ∧ m + loss = s.pnlMaturedPosTot) hok ?_
  simp only [takeResolvedLoss, wp_bind, wp_read, wp_rejectIf, wp_whenever, wp_orErr, wp_update,
    implies_true, true_and, not_not]
  exact fun h => ⟨fun _ m hm => ⟨m, rfl, h, (checkedSub_eq hm).symm⟩,
    fun h0 => ⟨s.pnlMaturedPosTot, rfl, h, by omega⟩⟩

/-- A fall of PnL in Resolved mode. -/
theorem decreasePnl_resolved (hmode : s.marketMode = .resolved)
    (hle : i128ClampPos v ≤ (s.accounts i).posPnl) (hok : decreasePnl i v s = .ok () s' l) :
    ∃ a' t', s' = s.rebook i a' t' ∧ l = [] ∧ ResolvedPnlSet s i v a' t' := by
  set P : RiskEngine → List Event → Prop := fun s' l =>
    ∃ a' t', s' = s.rebook i a' t' ∧ l = [] ∧ ResolvedPnlSet s i v a' t' with hP
  refine wp_sound (Q := fun _ => P) hok ?_
  simp only [decreasePnl, hmode, reduceCtorEq, if_false, wp_bind, wp_read, wp_orErr, wp_update,
    wp_writeAccount, wp_rejectIf, implies_true, true_and]
  intro tot htot
  have htot := checkedSub_eq htot
  refine wp_ok fun _ s₁ l₁ h₁ => ?_
  obtain ⟨m, rfl, rfl, hres, hm⟩ := takeResolvedLoss_spec h₁
  refine wp_ok fun _ s₂ l₂ h₂ => ?_
  obtain ⟨n, rfl, rfl, hn⟩ := trackNegPnl_spec h₂
  intro _
  refine wp_ok fun _ s₃ l₃ h₃ => ?_
  obtain ⟨rfl, rfl, -, -⟩ := checkPnlPair_spec h₃
  have hold : i128ClampPos (s.accounts i).pnl = (s.accounts i).posPnl := rfl
  have hm : m + _ = s.pnlMaturedPosTot := hm
  refine ⟨(s.accounts i).withPnl v, { s.totals with
    pnlPosTot := tot, pnlMaturedPosTot := m, negPnlAccountCount := n }, rfl, rfl,
    ⟨rfl, rfl, rfl, ?_, hn⟩, rfl, hres, ?_⟩
  · show tot + (s.accounts i).posPnl = s.pnlPosTot + i128ClampPos v
    omega
  · show m + (s.accounts i).posPnl = s.pnlMaturedPosTot + i128ClampPos v
    omega

/-- A rise of PnL in Resolved mode. -/
theorem increasePnl_resolved {ctx ctx' : Option InstructionContext}
    (hlt : (s.accounts i).posPnl < i128ClampPos v) (hres : (s.accounts i).reservedPnl = 0)
    (hok : increasePnl i v .immediateReleaseResolvedOnly ctx s = .ok ctx' s' l) :
    ∃ a' t', s' = s.rebook i a' t' ∧ l = [] ∧ ResolvedPnlSet s i v a' t' := by
  set P : RiskEngine → List Event → Prop := fun s' l =>
    ∃ a' t', s' = s.rebook i a' t' ∧ l = [] ∧ ResolvedPnlSet s i v a' t' with hP
  refine wp_sound (Q := fun _ => P) hok ?_
  simp only [increasePnl, wp_bind, wp_read, wp_orErr, wp_update, wp_writeAccount, wp_pure,
    implies_true, true_and]
  intro tot htot
  have htot := checkedAddU128_eq htot
  refine wp_ok fun _ s₁ l₁ h₁ => ?_
  obtain ⟨n, rfl, rfl, hn⟩ := trackNegPnl_spec h₁
  intro m hm
  have hm := checkedAddU128_eq hm
  refine wp_ok fun _ s₃ l₃ h₃ => ?_
  obtain ⟨rfl, rfl, -, -⟩ := checkPnlPair_spec h₃
  have hold : i128ClampPos (s.accounts i).pnl = (s.accounts i).posPnl := rfl
  refine ⟨(s.accounts i).withPnl v, { s.totals with
    pnlPosTot := tot, pnlMaturedPosTot := m, negPnlAccountCount := n }, rfl, rfl,
    ⟨rfl, rfl, rfl, ?_, hn⟩, rfl, hres, ?_⟩
  · show tot + (s.accounts i).posPnl = s.pnlPosTot + i128ClampPos v
    omega
  · show m + (s.accounts i).posPnl = s.pnlMaturedPosTot + i128ClampPos v
    omega

/-- The checks that `set_pnl_with_reserve` makes first. -/
structure PnlAdmissible (s : RiskEngine) (i : Nat) (v : Int) : Prop where
  ne_min : v ≠ I128_MIN
  reserved_le : (s.accounts i).reservedPnl ≤ (s.accounts i).posPnl
  resolved : s.marketMode ≠ .live → (s.accounts i).reservedPnl = 0
  pos_le : s.marketMode = .live → i128ClampPos v ≤ MAX_ACCOUNT_POSITIVE_PNL

theorem PnlAdmissible.within (h : PnlAdmissible s i v) (live : s.marketMode = .live) :
    v ≤ MAX_ACCOUNT_POSITIVE_PNL := by
  have := h.pos_le live
  unfold i128ClampPos at this
  omega

/-- `set_pnl_with_reserve` after its checks: the branch on a positive increase. -/
theorem setPnlWithReserve_cases {mode : ReserveMode} {octx ctx' : Option InstructionContext}
    (hok : setPnlWithReserve i v mode octx s = .ok ctx' s' l) :
    PnlAdmissible s i v ∧
      ((s.accounts i).posPnl < i128ClampPos v ∧ mode.refusal s.marketMode = none ∧
          increasePnl i v mode octx s = .ok ctx' s' l ∨
        i128ClampPos v ≤ (s.accounts i).posPnl ∧ ctx' = octx ∧ decreasePnl i v s = .ok () s' l) := by
  set P : Option InstructionContext → RiskEngine → List Event → Prop := fun ctx' s' l =>
    PnlAdmissible s i v ∧
      ((s.accounts i).posPnl < i128ClampPos v ∧ mode.refusal s.marketMode = none ∧
          increasePnl i v mode octx s = .ok ctx' s' l ∨
        i128ClampPos v ≤ (s.accounts i).posPnl ∧ ctx' = octx ∧ decreasePnl i v s = .ok () s' l)
    with hP
  refine wp_sound (Q := P) hok ?_
  simp only [setPnlWithReserve, wp_bind, wp_read, wp_rejectIf, wp_ite, wp_orErr, wp_pure,
    implies_true, true_and, not_lt, not_and, not_not]
  intro hne hres hmode
  refine ⟨fun hlt => ?_, fun hle hpos => ⟨fun h => absurd h (by omega), fun _ =>
    wp_ok fun _ s' l h => ⟨⟨hne, hres, hmode, hpos⟩, .inr ⟨hle, rfl, h⟩⟩⟩⟩
  cases hr : mode.refusal s.marketMode with
  | some e => simp only [wp_fail]
  | none =>
      simp only [wp_pure]
      refine fun hpos => ⟨fun _ _ _ _ => wp_ok fun _ s' l h => ⟨⟨hne, hres, hmode, hpos⟩,
        .inl ⟨hlt, hr, h⟩⟩, fun h => absurd h (by omega)⟩

/-- `set_pnl_with_reserve` in the admission mode of a Live instruction. -/
theorem setPnlAdmitted_spec {ctx ctx' : InstructionContext}
    (hok : setPnlAdmitted i v ctx s = .ok ctx' s' l) (hlive : s.marketMode = .live)
    (hpair : AdmissionPair s.params ctx.admitHMinShared ctx.admitHMaxShared) :
    ∃ a' t', s' = s.rebook i a' t' ∧ l = [] ∧ ctx.SameButSticky ctx' ∧ PnlAdmissible s i v ∧
      LivePnlSet s i v (ctx.admitHMinShared = 0) a' t' := by
  set P : InstructionContext → RiskEngine → List Event → Prop := fun ctx' s' l =>
    ∃ a' t', s' = s.rebook i a' t' ∧ l = [] ∧ ctx.SameButSticky ctx' ∧ PnlAdmissible s i v ∧
      LivePnlSet s i v (ctx.admitHMinShared = 0) a' t' with hP
  refine wp_sound (Q := P) hok ?_
  simp only [setPnlAdmitted, wp_bind, wp_pure]
  refine wp_ok fun octx s' l h => ?_
  obtain ⟨hadm, ⟨hlt, -, hinc⟩ | ⟨hle, rfl, hdec⟩⟩ := setPnlWithReserve_cases h
  · obtain ⟨a', t', c, rfl, rfl, rfl, hc, hset⟩ := increasePnl_spec hlt hadm.reserved_le (hadm.within hlive) hpair hinc
    exact ⟨a', t', rfl, rfl, hc, hadm, hset⟩
  · obtain ⟨a', t', rfl, rfl, hset⟩ := decreasePnl_live hlive hle hadm.reserved_le (hadm.within hlive) hdec
    exact ⟨a', t', rfl, rfl, rfl, hadm, hset⟩

/-- `set_pnl_with_reserve` in Live mode without an admission pair only lowers PnL. -/
theorem setPnlWithReserve_fall {mode : ReserveMode} {octx : Option InstructionContext}
    (hok : setPnlWithReserve i v mode none s = .ok octx s' l) (hlive : s.marketMode = .live)
    (hmode : mode.refusal .live ≠ none) :
    ∃ a' t', s' = s.rebook i a' t' ∧ l = [] ∧ PnlAdmissible s i v ∧ LivePnlSet s i v False a' t' := by
  obtain ⟨hadm, ⟨-, h, -⟩ | ⟨hle, rfl, h⟩⟩ := setPnlWithReserve_cases hok
  · exact absurd (hlive ▸ h) hmode
  · obtain ⟨a', t', hs', hl', hset⟩ := decreasePnl_live hlive hle hadm.reserved_le (hadm.within hlive) h
    exact ⟨a', t', hs', hl', hadm, hset⟩

/-- `set_pnl_with_reserve` in Resolved mode. -/
theorem setPnlWithReserve_resolved {mode : ReserveMode} {octx : Option InstructionContext}
    (hok : setPnlWithReserve i v mode none s = .ok octx s' l) (hmode : s.marketMode = .resolved) :
    ∃ a' t', s' = s.rebook i a' t' ∧ l = [] ∧ PnlAdmissible s i v ∧ ResolvedPnlSet s i v a' t' := by
  obtain ⟨hadm, ⟨hlt, href, h⟩ | ⟨hle, rfl, h⟩⟩ := setPnlWithReserve_cases hok
  · have hres := hadm.resolved (by simp [hmode])
    cases mode with
    | immediateReleaseResolvedOnly =>
        obtain ⟨a', t', rfl, rfl, hset⟩ := increasePnl_resolved hlt hres h
        exact ⟨a', t', rfl, rfl, hadm, hset⟩
    | useAdmissionPair => simp [hmode, ReserveMode.refusal] at href
    | noPositiveIncreaseAllowed => simp [ReserveMode.refusal] at href
  · obtain ⟨a', t', rfl, rfl, hset⟩ := decreasePnl_resolved hmode hle h
    exact ⟨a', t', rfl, rfl, hadm, hset⟩

theorem takeLiveLoss_zero (hok : takeLiveLoss i 0 s = .ok () s' l) : s' = s ∧ l = [] := by
  refine wp_sound (Q := fun _ s' l => s' = s ∧ l = []) hok ?_
  simp only [takeLiveLoss, wp_bind, wp_read, wp_whenever, Nat.zero_min, Nat.sub_zero, lt_irrefl,
    false_imp_iff, true_and, and_self, implies_true]

theorem takeResolvedLoss_zero (hok : takeResolvedLoss i 0 s = .ok () s' l) : s' = s ∧ l = [] := by
  obtain ⟨m, rfl, rfl, -, rfl⟩ := takeResolvedLoss_spec hok
  exact ⟨rfl, rfl⟩

/-- A change below zero moves only the account and the number of negative accounts. -/
theorem setPnlWithReserve_nonpos {mode : ReserveMode} {octx ctx' : Option InstructionContext}
    (hok : setPnlWithReserve i v mode octx s = .ok ctx' s' l) (hold : (s.accounts i).pnl ≤ 0)
    (hv : v ≤ 0) :
    ∃ n, s' = s.rebook i ((s.accounts i).withPnl v) { s.totals with negPnlAccountCount := n } ∧
      l = [] ∧ (s.accounts i).reservedPnl = 0 ∧
      n + (s.accounts i).negPnl = s.negPnlAccountCount + ((s.accounts i).withPnl v).negPnl := by
  have hpos : i128ClampPos (s.accounts i).pnl = 0 := Int.toNat_of_nonpos hold
  have hpos' : i128ClampPos v = 0 := Int.toNat_of_nonpos hv
  obtain ⟨hadm, ⟨hlt, -, -⟩ | ⟨-, -, hdec⟩⟩ := setPnlWithReserve_cases hok
  · omega
  have hres : (s.accounts i).reservedPnl = 0 := Nat.le_zero.mp (hadm.reserved_le.trans hpos.le)
  set P : RiskEngine → List Event → Prop := fun s' l =>
    ∃ n, s' = s.rebook i ((s.accounts i).withPnl v) { s.totals with negPnlAccountCount := n } ∧
      l = [] ∧ (s.accounts i).reservedPnl = 0 ∧
      n + (s.accounts i).negPnl = s.negPnlAccountCount + ((s.accounts i).withPnl v).negPnl with hP
  refine wp_sound (Q := fun _ => P) hdec ?_
  simp only [decreasePnl, hpos, hpos', Nat.sub_zero, wp_bind, wp_read, wp_orErr, wp_update,
    wp_writeAccount, wp_rejectIf, true_and, implies_true]
  intro tot htot
  obtain rfl : tot = s.pnlPosTot := by have := checkedSub_eq htot; omega
  refine wp_ok fun _ s₁ l₁ h₁ => ?_
  obtain ⟨rfl, rfl⟩ : s₁ = s ∧ l₁ = [] := by
    split at h₁
    · exact takeLiveLoss_zero h₁
    · exact takeResolvedLoss_zero h₁
  refine wp_ok fun _ s₂ l₂ h₂ => ?_
  obtain ⟨n, rfl, rfl, hn⟩ := trackNegPnl_spec h₂
  intro _
  refine wp_ok fun _ s₃ l₃ h₃ => ?_
  obtain ⟨rfl, rfl, -, -⟩ := checkPnlPair_spec h₃
  exact ⟨n, rfl, rfl, hres, hn⟩

theorem setPnl_eq (hok : setPnl i v s = .ok () s' l) :
    ∃ octx, setPnlWithReserve i v .immediateReleaseResolvedOnly none s = .ok octx s' l := by
  refine wp_sound (Q := fun _ s' l => ∃ octx,
    setPnlWithReserve i v .immediateReleaseResolvedOnly none s = .ok octx s' l) hok ?_
  simp only [setPnl, wp_bind, wp_pure]
  exact wp_ok fun octx s' l h => ⟨octx, h⟩

end Specs

end Percolator
