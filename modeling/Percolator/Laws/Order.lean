import Percolator.Machine.Runs

/-!
Touches commute: what a touch leaves of an account, its reserve aside, depends on that
account and the indices of its side alone, so that every order of touches ends alike.
-/

namespace Percolator

open Effect

variable {s s₁ s₂ s' : RiskEngine} {i j : Nat} {l : List Event} {sc : Scope} {c : Conf}
  {ctx ctx' : InstructionContext} {ph : Phase}

/-! ### Everything but the reserves -/

/-- The accounts without their reserves. -/
def RiskEngine.cores (s : RiskEngine) (j : Nat) : Account := (s.accounts j).clearReserve

/-- The engine without the split of positive PnL between reserve and matured. -/
def RiskEngine.core (s : RiskEngine) : RiskEngine := { s with accounts := s.cores, pnlMaturedPosTot := 0 }

@[simp] theorem Account.clearReserve_clearReserve (a : Account) : a.clearReserve.clearReserve = a.clearReserve := rfl

theorem Account.SameButPnl.core {a a' : Account} (h : a.SameButPnl a') :
    a'.clearReserve = a.clearReserve.withPnl a'.pnl := by
  rw [h]
  rfl

theorem Account.SameButPnl.core_eq {a a' : Account} (h : a.SameButPnl a') (pnl : a'.pnl = a.pnl) :
    a'.clearReserve = a.clearReserve := by
  rw [h.core, pnl]
  rfl

/-- `s'` is `s` with these cores, with `dust` more on the bounds of the sides, and with `loss`
drawn from insurance as far as its floor lets it. Counters and totals are left open. -/
structure Moved (s s' : RiskEngine) (cores : Nat → Account) (dust : Side → Nat) (loss : Nat) : Prop where
  cores : s'.cores = cores
  sides : ∀ d, ∃ n m, s'.sides d = (s.sides d).withSeats ⟨n, m, (s.sides d).phantomDustBoundQ + dust d⟩
  fund : s'.insuranceFund = s.insuranceFund - min loss (s.insuranceFund - s.params.insuranceFloor)
  frame : s' = { s with
    accounts := s'.accounts, sides := s'.sides, cTot := s'.cTot, pnlPosTot := s'.pnlPosTot
    pnlMaturedPosTot := s'.pnlMaturedPosTot, negPnlAccountCount := s'.negPnlAccountCount
    insuranceFund := s'.insuranceFund }

theorem Moved.refl (s : RiskEngine) : Moved s s s.cores (fun _ => 0) 0 :=
  ⟨rfl, fun d => ⟨(s.sides d).storedPosCount, (s.sides d).staleAccountCount, rfl⟩, by simp, rfl⟩

section Moved

variable {cores : Nat → Account} {dust : Side → Nat} {loss : Nat}

theorem Moved.params (h : Moved s s' cores dust loss) : s'.params = s.params := by rw [h.frame]

theorem Moved.isUsed (h : Moved s s' cores dust loss) : s'.isUsed = s.isUsed := by rw [h.frame]; rfl

theorem cores_put {a : Account} (h : s'.accounts = put s.accounts i a) :
    s'.cores = put s.cores i a.clearReserve := by
  funext j
  unfold RiskEngine.cores
  rw [h]
  by_cases hj : j = i
  · subst hj; rw [put_same, put_same]
  · rw [put_other _ _ hj, put_other _ _ hj]

/-- Account `i` is booked without insurance. -/
theorem Moved.rebook {a : Account} {t : Totals} (h : Moved s s₁ cores dust loss) (vault : t.vault = s₁.vault)
    (fund : t.insuranceFund = s₁.insuranceFund) :
    Moved s (s₁.rebook i a t) (put cores i a.clearReserve) dust loss := by
  refine ⟨?_, h.sides, fund.trans h.fund, ?_⟩
  · rw [cores_put (s := s₁) (a := a) rfl, h.cores]
  · have hv : t.vault = s.vault := vault.trans (by rw [h.frame])
    unfold RiskEngine.rebook
    rw [hv, h.frame]

/-- Account `i` and the seats of the sides change. -/
theorem Moved.reseat {a : Account} {f : Side → Seats} {n : Side → Nat} (h : Moved s s₁ cores dust loss)
    (hf : ∀ d, (f d).dust = (s₁.sides d).phantomDustBoundQ + n d) :
    Moved s (s₁.reseat i a f) (put cores i a.clearReserve) (fun d => dust d + n d) loss := by
  refine ⟨?_, fun d => ?_, h.fund, ?_⟩
  · rw [cores_put (s := s₁) (a := a) rfl, h.cores]
  · obtain ⟨n₀, m₀, h₀⟩ := h.sides d
    refine ⟨(f d).stored, (f d).stale, ?_⟩
    have hd := hf d
    rw [h₀] at hd
    have hd : (f d).dust = (s.sides d).phantomDustBoundQ + (dust d + n d) := by
      rw [hd, ← Nat.add_assoc]
      rfl
    show (s₁.sides d).withSeats (f d) = _
    rw [h₀, ← hd]
    rfl
  · unfold RiskEngine.reseat
    rw [h.frame]

/-- Account `i` is booked with a further loss on insurance. -/
theorem Moved.draw {a : Account} {t : Totals} {more : Nat} (h : Moved s s₁ cores dust loss)
    (vault : t.vault = s₁.vault) (fund : t.insuranceFund =
      s₁.insuranceFund - min more (s₁.insuranceFund - s₁.params.insuranceFloor)) :
    Moved s (s₁.rebook i a t) (put cores i a.clearReserve) dust (loss + more) := by
  refine ⟨?_, h.sides, ?_, ?_⟩
  · rw [cores_put (s := s₁) (a := a) rfl, h.cores]
  · have h₀ := h.fund
    rw [h.params] at fund
    show t.insuranceFund = _
    omega
  · have hv : t.vault = s.vault := vault.trans (by rw [h.frame])
    unfold RiskEngine.rebook
    rw [hv, h.frame]

/-- Moves compose. -/
theorem Moved.trans {cores' : Nat → Account} {dust' : Side → Nat} {loss' : Nat} (h : Moved s s₁ cores dust loss)
    (h' : Moved s₁ s₂ cores' dust' loss') : Moved s s₂ cores' (fun d => dust d + dust' d) (loss + loss') := by
  refine ⟨h'.cores, fun d => ?_, ?_, ?_⟩
  · obtain ⟨n, m, h₀⟩ := h.sides d
    obtain ⟨n', m', h₁⟩ := h'.sides d
    refine ⟨n', m', ?_⟩
    rw [h₁, h₀, ← Nat.add_assoc]
    rfl
  · have h₀ := h.fund
    have h₁ := h'.fund
    rw [h.params] at h₁
    omega
  · have h₀ := h'.frame
    rw [h.frame] at h₀
    exact h₀

end Moved

/-! ### What a touch does to an account -/

section Touched

/-- The account after it settled against the indices of its side. -/
def Account.settledBy (sides : Side → SideState) (a : Account) : Account :=
  match sideOfI128 a.positionBasisQ with
  | none => a
  | some d =>
      let b := a.withPnl (a.pnl + (a.settlement (sides d)).getD 0)
      if a.adlEpochSnap = (sides d).adlEpoch ∧
          0 < a.positionBasisQ.natAbs * (sides d).adlMult / a.adlABasis then
        b.withSnaps (sides d).adlCoeff (sides d).fNum (sides d).adlEpoch
      else b.flat

/-- What its settlement adds to the dust bound of side `d`. -/
def Account.dusts (sides : Side → SideState) (a : Account) (d : Side) : Nat :=
  if sideOfI128 a.positionBasisQ = some d ∧ a.adlEpochSnap = (sides d).adlEpoch ∧
    a.positionBasisQ.natAbs * (sides d).adlMult / a.adlABasis = 0 then 1 else 0

/-- The account after its settlement and the losses it could pay. -/
def RiskEngine.settledAccount (s : RiskEngine) (i : Nat) : Account := ((s.cores i).settledBy s.sides).lossPaid

/-- The loss that is left when the account is flat. -/
def RiskEngine.writtenOff (s : RiskEngine) (i : Nat) : Nat :=
  if effectivePosQ (s.setAccount i (s.settledAccount i)) i = some 0 then (-(s.settledAccount i).pnl).toNat else 0

/-- The account after a touch. -/
def RiskEngine.touchedAccount (s : RiskEngine) (i : Nat) : Account :=
  if 0 < s.writtenOff i then (s.settledAccount i).withPnl 0 else s.settledAccount i

theorem Settled.core {d : Side} {instant : Prop} {δ : Int} {a' a'' : Account} {t' : Totals} {f : Side → Seats}
    (h : Settled s s' i d instant δ a' t' a'' f) :
    a''.clearReserve = (s.cores i).settledBy s.sides ∧
      ∀ e, (f e).dust = (s.sides e).phantomDustBoundQ + (s.accounts i).dusts s.sides e := by
  have hside := h.side
  have hdelta := h.delta
  obtain ⟨p1, p2, p3, p4, p5⟩ := h.pnl.same.position
  have hcore : a'.clearReserve = (s.cores i).withPnl ((s.accounts i).pnl + δ) := by
    rw [h.pnl.same.core, h.pnl.pnl_eq]
    rfl
  have hsettle : (s.cores i).settlement (s.sides d) = some δ := hdelta
  have hother : ∀ e, e ≠ d → (s.accounts i).dusts s.sides e = 0 := fun e he => by
    unfold Account.dusts
    rw [hside, if_neg fun hc => he (Option.some.inj hc.1).symm]
  have hby : (s.cores i).settledBy s.sides = if (s.accounts i).adlEpochSnap = (s.sides d).adlEpoch ∧
      0 < (s.accounts i).positionBasisQ.natAbs * (s.sides d).adlMult / (s.accounts i).adlABasis then
      ((s.cores i).withPnl ((s.accounts i).pnl + δ)).withSnaps (s.sides d).adlCoeff (s.sides d).fNum
        (s.sides d).adlEpoch
      else ((s.cores i).withPnl ((s.accounts i).pnl + δ)).flat := by
    have hs : sideOfI128 (s.cores i).positionBasisQ = some d := hside
    unfold Account.settledBy
    rw [hs]
    simp only [hsettle, Option.getD_some]
    rfl
  rw [hby]
  cases h.position with
  | kept epoch pos =>
      rw [p5] at epoch
      rw [p1, p2] at pos
      refine ⟨?_, fun e => ?_⟩
      · rw [if_pos ⟨epoch, pos⟩, ← hcore]
        rfl
      · have : (s.accounts i).dusts s.sides e = 0 := by
          by_cases he : e = d
          · subst he
            exact if_neg fun hc => absurd hc.2.2 pos.ne'
          · exact hother e he
        rw [this]
        rfl
  | dusted n epoch zero stored =>
      rw [p5] at epoch
      rw [p1, p2] at zero
      refine ⟨?_, fun e => ?_⟩
      · rw [if_neg fun hc => absurd hc.2 (by omega), ← hcore]
        rfl
      · by_cases he : e = d
        · subst he
          beta_reduce
          rw [if_pos rfl]
          unfold Account.dusts
          rw [if_pos ⟨hside, epoch, zero⟩]
        · beta_reduce
          rw [if_neg he, hother e he]
          rfl
  | stale n m mode epoch stored stale =>
      rw [p5] at epoch
      refine ⟨?_, fun e => ?_⟩
      · rw [if_neg fun hc => absurd hc.1 (by omega), ← hcore]
        rfl
      · by_cases he : e = d
        · subst he
          beta_reduce
          rw [if_pos rfl]
          unfold Account.dusts
          rw [if_neg fun hc => absurd hc.2.1 (by omega)]
          rfl
        · beta_reduce
          rw [if_neg he, hother e he]
          rfl

/-- The reserve of account `i` changes, and nothing else. -/
theorem Moved.reserve {a : Account} {t : Totals} (h : Moved s s₁ s.cores (fun _ => 0) 0)
    (same : (s₁.accounts i).SameButPnl a) (pnl : a.pnl = (s₁.accounts i).pnl) (vault : t.vault = s₁.vault)
    (fund : t.insuranceFund = s₁.insuranceFund) : Moved s (s₁.rebook i a t) s.cores (fun _ => 0) 0 := by
  have hput : put s.cores i a.clearReserve = s.cores := by
    have : a.clearReserve = s.cores i := by
      rw [same.core_eq pnl, ← h.cores]
      rfl
    rw [this, put_eta]
  have hm := h.rebook (i := i) (a := a) vault fund
  rwa [hput] at hm

/-- The reserve of an account is admitted or released before it settles. -/
theorem reserve_moved {l' : List Event} (htouch : admitOutstandingReserveOnTouch i s = .ok () s₁ l)
    (hwarm : advanceProfitWarmup i s₁ = .ok () s₂ l') :
    Moved s s₂ s.cores (fun _ => 0) 0 ∧ s₂.sides = s.sides ∧ s₂.marketMode = s.marketMode := by
  obtain ⟨a', r, rfl, -, hw⟩ := advanceProfitWarmup_spec hwarm
  rcases admitOutstandingReserveOnTouch_spec htouch with ⟨rfl, -⟩ | ⟨rfl, -, -⟩
  · exact ⟨(Moved.refl s₁).reserve hw.same hw.pnl_eq rfl rfl, rfl, rfl⟩
  · have h₁ : Moved s _ s.cores (fun _ => 0) 0 := (Moved.refl s).reserve (i := i)
      (a := (s.accounts i).clearReserve)
      (t := { s.totals with pnlMaturedPosTot := s.pnlMaturedPosTot + (s.accounts i).reservedPnl }) rfl rfl rfl rfl
    exact ⟨h₁.reserve hw.same hw.pnl_eq rfl rfl, rfl, rfl⟩

/-- Settling an account, whatever its side. -/
theorem settle_moved (hok : settleSideEffectsLive i ctx s = .ok ctx' s' l) (live : s.marketMode = .live)
    (pair : AdmissionPair s.params ctx.admitHMinShared ctx.admitHMaxShared) :
    Moved s s' (put s.cores i ((s.cores i).settledBy s.sides)) ((s.accounts i).dusts s.sides) 0 := by
  have hstep : ∀ {s' : RiskEngine}, SettleStep s s' i (ctx.admitHMinShared = 0) →
      Moved s s' (put s.cores i ((s.cores i).settledBy s.sides)) ((s.accounts i).dusts s.sides) 0 := by
    rintro s' ⟨d, δ, a', t', a'', f, hset⟩
    obtain ⟨hcore, hdust⟩ := hset.core
    have hframe := hset.pnl.frame
    have h₁ := (Moved.refl s).rebook (i := i) (a := a') (t := t') (by rw [hframe]; rfl) (by rw [hframe]; rfl)
    have h₂ := h₁.reseat (i := i) (a := a'') (f := f) (n := (s.accounts i).dusts s.sides) hdust
    rw [hcore, put_put] at h₂
    rw [hset.eq]
    simpa using h₂
  set P : RiskEngine → Prop := fun s' =>
    Moved s s' (put s.cores i ((s.cores i).settledBy s.sides)) ((s.accounts i).dusts s.sides) 0 with hP
  refine wp_sound (Q := fun _ s' _ => P s') hok ?_
  simp only [settleSideEffectsLive, wp_bind, wp_read]
  cases hs : sideOfI128 (s.accounts i).positionBasisQ with
  | none =>
      have hby : (s.cores i).settledBy s.sides = s.cores i := by
        have : sideOfI128 (s.cores i).positionBasisQ = none := hs
        unfold Account.settledBy
        rw [this]
      have hdust : (s.accounts i).dusts s.sides = fun _ => 0 := by
        funext e
        unfold Account.dusts
        rw [hs]
        exact if_neg fun hc => absurd hc.1 (by rintro ⟨⟩)
      simp only [wp_pure, hP, hby, hdust, put_eta]
      exact Moved.refl s
  | some d =>
      simp only [wp_bind, wp_corruptIf, wp_ite, wp_lift, implies_true, true_and]
      refine fun _ => ⟨fun hepoch => wp_ok fun ctx' s' l' hok => ?_, fun hepoch => wp_ok fun ctx' s' l' hok => ?_⟩
      · exact hstep (settleCurrent_spec hok hs hepoch live pair).1
      · exact hstep (settleStale_spec hok hs hepoch live pair).1

/-- What a touch does, its reserve aside. -/
theorem touch_moved (hok : touchAccountLiveLocal i ctx s = .ok ctx' s' l)
    (pair : AdmissionPair s.params ctx.admitHMinShared ctx.admitHMaxShared) :
    Moved s s' (put s.cores i (s.touchedAccount i)) ((s.accounts i).dusts s.sides) (s.writtenOff i) := by
  set P : RiskEngine → Prop := fun s' =>
    Moved s s' (put s.cores i (s.touchedAccount i)) ((s.accounts i).dusts s.sides) (s.writtenOff i) with hP
  refine wp_sound (Q := fun _ s' _ => P s') hok ?_
  simp only [touchAccountLiveLocal, wp_bind, wp_read, wp_lift, wp_rejectIf, wp_orErr, wp_emit, wp_expect,
    wp_whenever, wp_pure, implies_true, true_and, not_not, Bool.not_eq_false]
  intro live used ctx₁ hctx
  have hctx₁ := (InstructionContext.addTouched_spec hctx).1
  refine wp_ok fun _ s₁ l₁ h₁ => ?_
  obtain ⟨rfl, -⟩ := validateReserveShape_spec h₁
  refine wp_ok fun _ s₂ l₂ h₂ => wp_ok fun _ s₃ l₃ h₃ => ?_
  obtain ⟨hm₃, hsides, hmode⟩ := reserve_moved h₂ h₃
  refine wp_ok fun ctx₄ s₄ l₄ h₄ => ?_
  have hm₄ := settle_moved h₄ (hmode.trans live) (by rw [hctx₁, hm₃.params]; exact pair)
  refine wp_ok fun _ s₅ l₅ h₅ => ?_
  obtain ⟨-, n, rfl, -, -⟩ := settleLosses_exact h₅
  -- what the settlement and the losses leave of account `i`
  have hcores : s₃.cores i = s₁.cores i := congrFun hm₃.cores i
  have hdusts : (s₃.accounts i).dusts s₃.sides = (s₁.accounts i).dusts s₁.sides := by
    show (s₃.cores i).dusts s₃.sides = (s₁.cores i).dusts s₁.sides
    rw [hcores, hsides]
  have hm := hm₃.trans hm₄
  rw [hcores, hsides, hm₃.cores, ← hsides, hdusts, hsides] at hm
  have hcore₄ : (s₄.accounts i).clearReserve = (s₁.cores i).settledBy s₁.sides := by
    have := congrFun hm.cores i
    rwa [put_same] at this
  have hm₅ : Moved s₁ _ _ _ _ := hm.rebook (i := i) (a := (s₄.accounts i).lossPaid)
    (t := { s₄.totals with cTot := s₄.cTot - (s₄.accounts i).lossPay, negPnlAccountCount := n }) rfl rfl
  have hpaid : (s₄.accounts i).lossPaid.clearReserve = s₁.settledAccount i := by
    show ((s₄.accounts i).clearReserve).lossPaid = _
    rw [hcore₄]
    rfl
  rw [hpaid, put_put] at hm₅
  set s₅ := s₄.rebook i (s₄.accounts i).lossPaid
    { s₄.totals with cTot := s₄.cTot - (s₄.accounts i).lossPay, negPnlAccountCount := n } with hs₅
  have hcore₅ : (s₅.accounts i).clearReserve = s₁.settledAccount i := by
    have := congrFun hm₅.cores i
    rwa [put_same] at this
  have hpnl : (s₅.accounts i).pnl = (s₁.settledAccount i).pnl := by
    rw [← hcore₅]
    rfl
  have heff : effectivePosQ s₅ i = effectivePosQ (s₁.setAccount i (s₁.settledAccount i)) i := by
    refine (effectivePosQ_congr ?_ (fun d => ?_) fun d => ?_).symm
    · rw [RiskEngine.setAccount_accounts, put_same, ← hcore₅]
      exact ⟨rfl, rfl, rfl, rfl, rfl⟩
    · obtain ⟨n, m, h⟩ := hm₅.sides d
      rw [h]
      rfl
    · obtain ⟨n, m, h⟩ := hm₅.sides d
      rw [h]
      rfl
  simp only [Nat.zero_add] at hm₅
  intro eff hflat
  constructor
  · rintro ⟨hzero, hneg⟩
    refine wp_ok fun _ s₆ l₆ h₆ => ?_
    -- the rest of the loss is written off
    subst hzero
    obtain ⟨-, ⟨hno, -⟩ | ⟨-, -, m, -, rfl⟩⟩ := resolveFlatNegative_exact h₆
    · exact absurd ⟨hflat, hneg⟩ hno
    have hoff : s₁.writtenOff i = (s₅.accounts i).pnl.natAbs := by
      unfold RiskEngine.writtenOff
      rw [if_pos (heff.symm.trans hflat), ← hpnl]
      omega
    have htouched : s₁.touchedAccount i = ((s₅.accounts i).withPnl 0).clearReserve := by
      unfold RiskEngine.touchedAccount
      rw [hoff, if_pos (by omega), ← hcore₅]
      rfl
    have hm₆ : Moved s₁ (s₅.rebook i ((s₅.accounts i).withPnl 0) { s₅.totals with
        insuranceFund := s₅.insuranceFund - min (s₅.accounts i).pnl.natAbs
          (s₅.insuranceFund - s₅.params.insuranceFloor)
        negPnlAccountCount := m }) _ _ (0 + (s₅.accounts i).pnl.natAbs) := hm₅.draw rfl rfl
    rw [put_put, Nat.zero_add, ← htouched] at hm₆
    show Moved s₁ _ _ _ (s₁.writtenOff i)
    rw [hoff]
    exact hm₆
  · intro hno
    have hoff : s₁.writtenOff i = 0 := by
      unfold RiskEngine.writtenOff
      split_ifs with h
      · have hz := Option.some.inj (hflat.symm.trans (heff.trans h))
        have : 0 ≤ (s₅.accounts i).pnl := not_lt.mp fun hneg => hno ⟨hz, hneg⟩
        omega
      · rfl
    have htouched : s₁.touchedAccount i = s₁.settledAccount i := by
      unfold RiskEngine.touchedAccount
      rw [hoff, if_neg (by omega)]
    show Moved s₁ s₅ _ _ _
    rw [htouched, hoff]
    exact hm₅

/-- Nobody else's touch changes what a touch of account `j` does. -/
theorem Moved.unaffected {cores : Nat → Account} {dust : Side → Nat} {loss : Nat}
    (h : Moved s s' cores dust loss) (same : cores j = s.cores j) :
    s'.touchedAccount j = s.touchedAccount j ∧ s'.writtenOff j = s.writtenOff j ∧
      (s'.accounts j).dusts s'.sides = (s.accounts j).dusts s.sides := by
  have hcore : s'.cores j = s.cores j := (congrFun h.cores j).trans same
  have hby : (s.cores j).settledBy s'.sides = (s.cores j).settledBy s.sides := by
    unfold Account.settledBy
    cases sideOfI128 (s.cores j).positionBasisQ with
    | none => rfl
    | some d =>
        obtain ⟨n, m, hd⟩ := h.sides d
        simp only [hd]
        rfl
  have hsettled : s'.settledAccount j = s.settledAccount j := by
    unfold RiskEngine.settledAccount
    rw [hcore, hby]
  have heff : effectivePosQ (s'.setAccount j (s.settledAccount j)) j =
      effectivePosQ (s.setAccount j (s.settledAccount j)) j := by
    refine effectivePosQ_congr ?_ (fun d => ?_) fun d => ?_
    · rw [RiskEngine.setAccount_accounts, RiskEngine.setAccount_accounts, put_same, put_same]
      exact .refl _
    · obtain ⟨n, m, hd⟩ := h.sides d
      show (s'.sides d).adlEpoch = (s.sides d).adlEpoch
      rw [hd]
      rfl
    · obtain ⟨n, m, hd⟩ := h.sides d
      show (s'.sides d).adlMult = (s.sides d).adlMult
      rw [hd]
      rfl
  have hoff : s'.writtenOff j = s.writtenOff j := by
    unfold RiskEngine.writtenOff
    rw [hsettled, heff]
  refine ⟨?_, hoff, funext fun d => ?_⟩
  · unfold RiskEngine.touchedAccount
    rw [hoff, hsettled]
  · obtain ⟨n, m, hd⟩ := h.sides d
    show (s'.cores j).dusts s'.sides d = (s.cores j).dusts s.sides d
    rw [hcore]
    unfold Account.dusts
    rw [hd]
    rfl

end Touched

/-! ### Touching many accounts -/

/-- Touch the accounts of a list, in its order and in one instruction context. -/
def touchAll : List Nat → InstructionContext → Op InstructionContext
  | [], ctx => pure ctx
  | i :: rest, ctx => do
      let ctx ← touchAccountLiveLocal i ctx
      touchAll rest ctx

/-- The scope of touches of any accounts. -/
def Scope.touches : Scope := ⟨fun _ => True, fun _ => False, False, True, False, False⟩

/-- A state in which an instruction may touch accounts. -/
def Touching (ctx : InstructionContext) (s : RiskEngine) : Prop :=
  ∃ ph, Between .touches ⟨s, ph⟩ ctx [] s ph

theorem Touching.of_between {sc : Scope} {c : Conf} (h : Between sc c ctx l s ph)
    (reach : ∀ i ∈ ctx.touchedAccounts, s.isUsed i = true ∧ i ∈ ph.touched) : Touching ctx s :=
  ⟨ph, .start _ h.good, h.live, h.pending, h.closing, h.trading, h.owed,
    fun i hi => ⟨(reach i hi).1, trivial, (reach i hi).2⟩, h.pair, fun _ => trivial⟩

theorem Touching.touch (h : Touching ctx s) (hok : touchAccountLiveLocal i ctx s = .ok ctx' s' l) :
    Touching ctx' s' := by
  obtain ⟨ph, hb⟩ := h
  obtain ⟨ph', hb', -⟩ := wp_sound hok (wp_mono (hb.touch (i := i) trivial) (fun _ _ _ h => h) fun _ _ _ => trivial)
  exact .of_between hb' fun j hj => ⟨(hb'.members j hj).1, (hb'.members j hj).2.2⟩

theorem Touching.pair (h : Touching ctx s) : AdmissionPair s.params ctx.admitHMinShared ctx.admitHMaxShared := by
  obtain ⟨ph, hb⟩ := h
  exact hb.pair

/-- What touches of distinct accounts do, in whatever order. -/
theorem Touching.all {is : List Nat} (h : Touching ctx s) (nodup : is.Nodup)
    (hok : touchAll is ctx s = .ok ctx' s' l) : Touching ctx' s' ∧
      Moved s s' (fun j => if j ∈ is then s.touchedAccount j else s.cores j)
        (fun d => (is.map fun i => (s.accounts i).dusts s.sides d).sum) (is.map s.writtenOff).sum := by
  induction is generalizing s s' ctx ctx' l with
  | nil =>
      obtain ⟨rfl, rfl, -⟩ := Outcome.ok.inj hok
      exact ⟨h, by simpa using Moved.refl s⟩
  | cons i rest ih =>
      obtain ⟨hi, hrest⟩ := List.nodup_cons.mp nodup
      refine wp_sound (Q := fun ctx' s' _ => Touching ctx' s' ∧
        Moved s s' (fun j => if j ∈ i :: rest then s.touchedAccount j else s.cores j)
          (fun d => ((i :: rest).map fun i => (s.accounts i).dusts s.sides d).sum)
          ((i :: rest).map s.writtenOff).sum) hok ?_
      simp only [touchAll, wp_bind]
      refine wp_ok fun ctx₁ s₁ l₁ h₁ => wp_ok fun ctx₂ s₂ l₂ h₂ => ?_
      have hm₁ := touch_moved h₁ h.pair
      obtain ⟨hend, hm₂⟩ := ih (h.touch h₁) hrest h₂
      have hother := fun j (hj : j ≠ i) => hm₁.unaffected (j := j) (put_other _ _ hj)
      have hne : ∀ j ∈ rest, j ≠ i := fun j hj hji => hi (hji ▸ hj)
      have hcores : (fun j => if j ∈ rest then s₁.touchedAccount j else s₁.cores j) =
          fun j => if j ∈ i :: rest then s.touchedAccount j else s.cores j := by
        funext j
        by_cases hj : j = i
        · subst hj
          rw [if_neg hi, if_pos List.mem_cons_self, hm₁.cores, put_same]
        · have hmem : j ∈ i :: rest ↔ j ∈ rest := by simp [hj]
          simp only [hmem, (hother j hj).1, congrFun hm₁.cores j, put_other _ _ hj]
      have hdust : ∀ d, rest.map (fun j => (s₁.accounts j).dusts s₁.sides d) =
          rest.map fun j => (s.accounts j).dusts s.sides d := fun d =>
        List.map_congr_left fun j hj => congrFun (hother j (hne j hj)).2.2 d
      have hloss : rest.map s₁.writtenOff = rest.map s.writtenOff :=
        List.map_congr_left fun j hj => (hother j (hne j hj)).2.1
      have hm := hm₁.trans hm₂
      simp only [hcores, hdust, hloss] at hm
      exact ⟨hend, hm⟩

/-- States that agree on the accounts and the fixed fields agree on the totals. -/
theorem Good.core_eq {ph₁ ph₂ : Phase} {cores : Nat → Account} {dust : Side → Nat} {loss : Nat}
    (h₁ : Good ⟨s₁, ph₁⟩) (h₂ : Good ⟨s₂, ph₂⟩) (live : s.marketMode = .live)
    (m₁ : Moved s s₁ cores dust loss) (m₂ : Moved s s₂ cores dust loss) : s₁.core = s₂.core := by
  have b₁ : Books s₁ := h₁.books
  have b₂ : Books s₂ := h₂.books
  have hcores : s₁.cores = s₂.cores := m₁.cores.trans m₂.cores.symm
  have hslots : s₁.usedSlots = s₂.usedSlots := by
    ext j
    rw [RiskEngine.mem_usedSlots, RiskEngine.mem_usedSlots, m₁.isUsed, m₂.isUsed]
  have htally : ∀ {f : Account → Nat}, (∀ a, f a.clearReserve = f a) →
      tally s₁.usedSlots s₁.accounts f = tally s₂.usedSlots s₂.accounts f := fun {f} hf => by
    rw [hslots]
    refine Finset.sum_congr rfl fun j _ => ?_
    rw [← hf (s₁.accounts j), ← hf (s₂.accounts j)]
    exact congrArg f (congrFun hcores j)
  have hlive : s₁.marketMode = .live ∧ s₂.marketMode = .live := by
    rw [m₁.frame, m₂.frame]
    exact ⟨live, live⟩
  have hsides : s₁.sides = s₂.sides := by
    funext d
    obtain ⟨n₁, k₁, e₁⟩ := m₁.sides d
    obtain ⟨n₂, k₂, e₂⟩ := m₂.sides d
    have hstored : (s₁.sides d).storedPosCount = (s₂.sides d).storedPosCount := by
      rw [b₁.stored, b₂.stored]
      exact htally fun _ => rfl
    have hstale₁ := ((h₁.positions hlive.1).side d).stale
    have hstale₂ := ((h₂.positions hlive.2).side d).stale
    dsimp only at hstale₁ hstale₂
    have hmode : (s₁.sides d).sideMode = (s₂.sides d).sideMode := by rw [e₁, e₂]; rfl
    have hstale : (s₁.sides d).staleAccountCount = (s₂.sides d).staleAccountCount := by
      rw [hstale₁, hstale₂, hmode, hstored]
    have hn : n₁ = n₂ := by
      rw [e₁, e₂] at hstored
      exact hstored
    have hk : k₁ = k₂ := by
      rw [e₁, e₂] at hstale
      exact hstale
    rw [e₁, e₂, hn, hk]
  have hctot : s₁.cTot = s₂.cTot := by
    rw [b₁.cTot, b₂.cTot]
    exact htally fun _ => rfl
  have hpos : s₁.pnlPosTot = s₂.pnlPosTot := by
    rw [b₁.pos, b₂.pos]
    exact htally fun _ => rfl
  have hneg : s₁.negPnlAccountCount = s₂.negPnlAccountCount := by
    rw [b₁.neg, b₂.neg]
    exact htally fun _ => rfl
  have hfund : s₁.insuranceFund = s₂.insuranceFund := m₁.fund.trans m₂.fund.symm
  unfold RiskEngine.core
  rw [hcores, m₁.frame, m₂.frame]
  simp only [hsides, hctot, hpos, hneg, hfund]

/-- Two orders of touches of the same distinct accounts, in one instruction context on a reachable
Live market, before or after it accrued, end in states that agree on everything but the split of
positive PnL between reserve and matured. -/
theorem Reachable.touches_commute (h : Reachable s) (live : s.marketMode = .live)
    (accrued : s₁ = s ∨ ∃ (now : UInt64) (price : Nat) (rate : Int) (l : List Event),
      accrueAndAnchor now.toNat price rate s = .ok () s₁ l)
    {hMin hMax : Nat} (pair : AdmissionPair s.params hMin hMax) {is js : List Nat} (nodup : is.Nodup) (perm : is.Perm js)
    {c₁ c₂ : InstructionContext} {l₁ l₂ : List Event} {s₃ : RiskEngine}
    (run₁ : touchAll is (.newWithAdmission hMin hMax) s₁ = .ok c₁ s₂ l₁)
    (run₂ : touchAll js (.newWithAdmission hMin hMax) s₁ = .ok c₂ s₃ l₂) : s₂.core = s₃.core := by
  have hstart : Touching (.newWithAdmission hMin hMax) s₁ := by
    rcases accrued with rfl | ⟨now, price, rate, l, accrued⟩
    · exact ⟨.idle, .start _ h.good, live, rfl, rfl, rfl, rfl, List.forall_mem_nil _, pair, fun _ => trivial⟩
    · obtain ⟨-, hb⟩ := wp_sound accrued (wp_mono (h.good.accrue .touches pair (fun _ => trivial) (slot_le now))
        (fun _ _ _ h => h) fun _ _ _ => trivial)
      exact .of_between hb (List.forall_mem_nil _)
  obtain ⟨⟨ph₂, hend₂⟩, hm₂⟩ := hstart.all nodup run₁
  obtain ⟨⟨ph₃, hend₃⟩, hm₃⟩ := hstart.all (perm.nodup_iff.mp nodup) run₂
  have hcores : (fun j => if j ∈ is then s₁.touchedAccount j else s₁.cores j) =
      fun j => if j ∈ js then s₁.touchedAccount j else s₁.cores j := by
    funext j
    simp only [perm.mem_iff]
  have hdust : ∀ d, (is.map fun i => (s₁.accounts i).dusts s₁.sides d).sum =
      (js.map fun i => (s₁.accounts i).dusts s₁.sides d).sum := fun d => (perm.map _).sum_eq
  rw [hcores, funext hdust, (perm.map _).sum_eq] at hm₂
  obtain ⟨ph, hb⟩ := hstart
  exact hend₂.good.core_eq hend₃.good hb.live hm₂ hm₃

/-- The traded market, accrued after a move of its price. -/
def movedMarket : RiskEngine := performAll tradedMarket [.accrueMarketTo 150 1010 0]

theorem movedMarket_reachable : Reachable movedMarket := tradedMarket_reachable.performAll _

theorem movedMarket_touches_commute : ∃ c₁ s₁ l₁ c₂ s₂ l₂,
    touchAll [1, 2] (.newWithAdmission 10 100) movedMarket = .ok c₁ s₁ l₁ ∧
    touchAll [2, 1] (.newWithAdmission 10 100) movedMarket = .ok c₂ s₂ l₂ ∧ s₁.core = s₂.core := by
  obtain ⟨c₁, l₁, h₁⟩ := Outcome.eq_ok (o := touchAll [1, 2] (.newWithAdmission 10 100) movedMarket)
    (by decide +kernel)
  obtain ⟨c₂, l₂, h₂⟩ := Outcome.eq_ok (o := touchAll [2, 1] (.newWithAdmission 10 100) movedMarket)
    (by decide +kernel)
  exact ⟨c₁, _, l₁, c₂, _, l₂, h₁, h₂, movedMarket_reachable.touches_commute (by decide +kernel) (.inl rfl)
    (by decide +kernel) (by decide) (.swap 2 1 []) h₁ h₂⟩

end Percolator
