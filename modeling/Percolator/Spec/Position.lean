import Percolator.Engine.Touch
import Percolator.Spec.Ledger

/-!
What the position mutators do: they replace one account and, on each side, the
number of stored positions, of stale ones, and the dust bound.
-/

namespace Percolator

open Effect

/-- The counters of a side that positions occupy. -/
structure Seats where
  stored : Nat
  stale : Nat
  dust : Nat

def SideState.seats (v : SideState) : Seats := ⟨v.storedPosCount, v.staleAccountCount, v.phantomDustBoundQ⟩

@[simps] def SideState.withSeats (v : SideState) (f : Seats) : SideState :=
  { v with storedPosCount := f.stored, staleAccountCount := f.stale, phantomDustBoundQ := f.dust }

@[simp] theorem SideState.withSeats_seats (v : SideState) : v.withSeats v.seats = v := rfl

/-- Replace account `i` and the counters of both sides. -/
@[simps] def RiskEngine.reseat (s : RiskEngine) (i : Nat) (a : Account) (f : Side → Seats) : RiskEngine :=
  { s with sides := fun d => (s.sides d).withSeats (f d), accounts := put s.accounts i a }

/-- What an account contributes to the stored positions of side `d`. -/
def Account.on (d : Side) (a : Account) : Nat :=
  if sideOfI128 a.positionBasisQ = some d then 1 else 0

/-- The account with no position. -/
def Account.flat (a : Account) : Account := (a.withPositionBasisQ 0).flatSnaps

/-- The account with the position `q` attached at the current indices. -/
def Account.attachedTo (a : Account) (sides : Side → SideState) (q : Int) : Account :=
  match sideOfI128 q with
  | none => a.flat
  | some d => (a.withPositionBasisQ q).attachSnaps (sides d)

/-- The dust that replacing the position of `a` adds to side `d`. -/
def Account.orphaned (a : Account) (d : Side) (v : SideState) : Nat :=
  if sideOfI128 a.positionBasisQ = some d ∧ a.OrphansDust v then 1 else 0

/-- The indices against which a position of epoch `e` settles. -/
def SideState.indices (v : SideState) (e : Nat) : Int × Int :=
  if e = v.adlEpoch then (v.adlCoeff, v.fNum) else (v.adlEpochStartK, v.fEpochStartNum)

/-- The PnL that settling a position of `a` on a side in state `v` realizes. -/
def Account.settlement (a : Account) (v : SideState) : Option Int :=
  computeKfPnlDelta a.positionBasisQ.natAbs a.adlKSnap (v.indices a.adlEpochSnap).1 a.fSnap
    (v.indices a.adlEpochSnap).2 (a.adlABasis * POS_SCALE)

/-- What becomes of the position of account `a` on side `d` when it is settled. -/
inductive Resettled (s : RiskEngine) (d : Side) (a : Account) : Account → (Side → Seats) → Prop
  /-- It goes on at the current indices. -/
  | kept (epoch : a.adlEpochSnap = (s.sides d).adlEpoch)
      (pos : 0 < a.positionBasisQ.natAbs * (s.sides d).adlMult / a.adlABasis) :
      Resettled s d a
        (a.withSnaps (s.sides d).adlCoeff (s.sides d).fNum (s.sides d).adlEpoch)
        fun e => (s.sides e).seats
  /-- It has become dust. -/
  | dusted (n : Nat) (epoch : a.adlEpochSnap = (s.sides d).adlEpoch)
      (zero : a.positionBasisQ.natAbs * (s.sides d).adlMult / a.adlABasis = 0)
      (stored : n + 1 = (s.sides d).storedPosCount) :
      Resettled s d a a.flat fun e =>
        if e = d then ⟨n, (s.sides d).staleAccountCount, (s.sides d).phantomDustBoundQ + 1⟩
        else (s.sides e).seats
  /-- Its epoch is over. -/
  | stale (n m : Nat) (mode : (s.sides d).sideMode = .resetPending)
      (epoch : a.adlEpochSnap + 1 = (s.sides d).adlEpoch)
      (stored : n + 1 = (s.sides d).storedPosCount) (stale : m + 1 = (s.sides d).staleAccountCount) :
      Resettled s d a a.flat fun e =>
        if e = d then ⟨n, m, (s.sides d).phantomDustBoundQ⟩ else (s.sides e).seats

theorem sideOfI128_eq_none {v : Int} : sideOfI128 v = none ↔ v = 0 := by
  unfold sideOfI128
  split_ifs <;> simp_all

theorem sideOfI128_eq_some {v : Int} {d : Side} :
    sideOfI128 v = some d ↔ (match d with | .long => 0 < v | .short => v < 0) := by
  unfold sideOfI128
  cases d <;> split_ifs <;> simp <;> omega

theorem checkedAddU64_eq {x y z : Nat} (h : checkedAddU64 x y = some z) : z = x + y ∧ z ≤ U64_MAX := by
  unfold checkedAddU64 at h
  split at h <;> simp_all

theorem mulDivFloorU128_eq {a b d q : Nat} (h : mulDivFloorU128 a b d = some q) :
    0 < d ∧ q = a * b / d := by
  unfold mulDivFloorU128 at h
  split_ifs at h with hd
  simp only [Option.some.injEq] at h
  exact ⟨by omega, h.symm⟩

section Specs

variable {s s' : RiskEngine} {l : List Event} {i : Nat} {q : Int} {d : Side}

/-- A state that differs in account `i` and in the counters of the sides. -/
theorem RiskEngine.eq_reseat {a : Account} {f : Side → SideState} {g : Side → Seats}
    (hf : ∀ d, f d = (s.sides d).withSeats (g d))
    (h : s' = { s with sides := f, accounts := put s.accounts i a }) : s' = s.reseat i a g := by
  rw [h, funext hf]
  rfl

/-- The stored positions of a side follow the account. -/
theorem setPositionBasisQ_spec (hok : setPositionBasisQ i q s = .ok () s' l) :
    ∃ n : Side → Nat, s' = s.reseat i ((s.accounts i).withPositionBasisQ q)
        (fun d => { (s.sides d).seats with stored := n d }) ∧ l = [] ∧
      ∀ d, n d + (s.accounts i).on d =
        (s.sides d).storedPosCount + ((s.accounts i).withPositionBasisQ q).on d := by
  set P : RiskEngine → List Event → Prop := fun s' l =>
    ∃ n : Side → Nat, s' = s.reseat i ((s.accounts i).withPositionBasisQ q)
        (fun d => { (s.sides d).seats with stored := n d }) ∧ l = [] ∧
      ∀ d, n d + (s.accounts i).on d =
        (s.sides d).storedPosCount + ((s.accounts i).withPositionBasisQ q).on d with hP
  refine wp_sound (Q := fun _ => P) hok ?_
  simp only [setPositionBasisQ, wp_bind, wp_read]
  have hnew : ∀ d, ((s.accounts i).withPositionBasisQ q).on d = if sideOfI128 q = some d then 1 else 0 :=
    fun _ => rfl
  have hold : ∀ d, (s.accounts i).on d =
      if sideOfI128 (s.accounts i).positionBasisQ = some d then 1 else 0 := fun _ => rfl
  cases ho : sideOfI128 (s.accounts i).positionBasisQ with
  | none =>
      cases hn : sideOfI128 q with
      | none =>
          simp only [wp_pure, wp_writeAccount]
          exact ⟨fun d => (s.sides d).storedPosCount, rfl, rfl, fun d => by simp [hold, hnew, ho, hn]⟩
      | some d =>
          simp only [wp_pure, wp_bind, wp_orErr, wp_writeSide, wp_writeAccount, implies_true, true_and]
          intro n h
          have h := checkedAddU64_eq h
          refine ⟨fun e => if e = d then n else (s.sides e).storedPosCount,
            RiskEngine.eq_reseat (fun e => ?_) rfl, rfl, fun e => ?_⟩
          · by_cases he : e = d
            · subst he; simp [SideState.withSeats, SideState.seats]
            · simp [he, SideState.withSeats, SideState.seats]
          · by_cases he : e = d
            · subst he; simp [hold, hnew, ho, hn, h.1]
            · simp [hold, hnew, ho, hn, he, Ne.symm he]
  | some c =>
      simp only [wp_bind, wp_orErr, wp_writeSide, implies_true, true_and]
      intro m hm
      have hm := checkedSub_eq hm
      cases hn : sideOfI128 q with
      | none =>
          simp only [wp_pure, wp_writeAccount]
          refine ⟨fun e => if e = c then m else (s.sides e).storedPosCount,
            RiskEngine.eq_reseat (fun e => ?_) rfl, rfl, fun e => ?_⟩
          · by_cases he : e = c
            · subst he; simp [SideState.withSeats, SideState.seats]
            · simp [he, SideState.withSeats, SideState.seats]
          · by_cases he : e = c
            · subst he; simp [hold, hnew, ho, hn, hm]
            · simp [hold, hnew, ho, hn, he, Ne.symm he]
      | some d =>
          simp only [wp_bind, wp_orErr, wp_writeSide, wp_writeAccount, implies_true, true_and]
          intro n h
          have h := checkedAddU64_eq h
          refine ⟨fun e => if e = d then n else if e = c then m else (s.sides e).storedPosCount,
            RiskEngine.eq_reseat (fun e => ?_) rfl, rfl, fun e => ?_⟩
          · by_cases he : e = d <;> by_cases hc : e = c <;>
              simp_all [SideState.withSeats, SideState.seats]
          · by_cases he : e = d <;> by_cases hc : e = c <;> simp_all [Ne.symm]

/-- Giving up a position on side `d`. -/
theorem setPositionBasisQ_zero (hside : sideOfI128 (s.accounts i).positionBasisQ = some d)
    (hok : setPositionBasisQ i 0 s = .ok () s' l) :
    ∃ n, n + 1 = (s.sides d).storedPosCount ∧ l = [] ∧
      s' = s.reseat i ((s.accounts i).withPositionBasisQ 0)
        fun e => if e = d then { (s.sides e).seats with stored := n } else (s.sides e).seats := by
  obtain ⟨n, rfl, rfl, hn⟩ := setPositionBasisQ_spec hok
  have hn : ∀ e, n e + (if d = e then 1 else 0) = (s.sides e).storedPosCount := by
    intro e
    have h0 : ((s.accounts i).withPositionBasisQ 0).on e = 0 := rfl
    have := hn e
    rw [h0] at this
    simpa only [Account.on, hside, Option.some.injEq, Nat.add_zero] using this
  refine ⟨n d, by simpa using hn d, rfl, congrArg _ (funext fun e => ?_)⟩
  by_cases he : e = d
  · subst he; simp
  · have := hn e
    rw [if_neg (Ne.symm he)] at this
    simp [he, ← this, SideState.seats]

/-- The bump of the dust bound when a fractional remainder is orphaned. -/
theorem incPhantomDustBound_spec (hok : incPhantomDustBound d s = .ok () s' l) :
    s' = s.setSide d { s.sides d with phantomDustBoundQ := (s.sides d).phantomDustBoundQ + 1 } ∧
      l = [] := by
  refine wp_sound (Q := fun _ s' l => s' = s.setSide d
    { s.sides d with phantomDustBoundQ := (s.sides d).phantomDustBoundQ + 1 } ∧ l = []) hok ?_
  simp only [incPhantomDustBound, incPhantomDustBoundBy, wp_bind, wp_read, wp_orErr, wp_writeSide,
    implies_true, true_and]
  intro n hn
  rw [(checkedAddU128_eq hn).1]
  exact ⟨rfl, trivial⟩

/-- The position `q` is attached to account `i`. -/
structure Attached (s s' : RiskEngine) (i : Nat) (q : Int) (f : Side → Seats) : Prop where
  eq : s' = s.reseat i ((s.accounts i).attachedTo s.sides q) f
  bound : q.natAbs ≤ MAX_POSITION_ABS_Q
  stored : ∀ d, (f d).stored + (s.accounts i).on d =
    (s.sides d).storedPosCount + ((s.accounts i).attachedTo s.sides q).on d
  stale : ∀ d, (f d).stale = (s.sides d).staleAccountCount
  dust : ∀ d, (f d).dust = (s.sides d).phantomDustBoundQ + (s.accounts i).orphaned d (s.sides d)

/-- Orphaning the dust of the old position. -/
theorem orphanDust_spec {o : Option Side} (ho : sideOfI128 (s.accounts i).positionBasisQ = o)
    (hok : (match o with
      | some d => whenever ((s.accounts i).OrphansDust (s.sides d)) (incPhantomDustBound d)
      | none => pure ()) s = .ok () s' l) :
    l = [] ∧ s' = { s with sides := fun d => { s.sides d with
      phantomDustBoundQ := (s.sides d).phantomDustBoundQ + (s.accounts i).orphaned d (s.sides d) } } := by
  set P : RiskEngine → List Event → Prop := fun s' l => l = [] ∧ s' = { s with sides := fun d =>
    { s.sides d with
      phantomDustBoundQ := (s.sides d).phantomDustBoundQ + (s.accounts i).orphaned d (s.sides d) } }
    with hP
  refine wp_sound (Q := fun _ => P) hok ?_
  have hnone : (∀ d, (s.accounts i).orphaned d (s.sides d) = 0) → P s [] := by
    intro h
    refine ⟨rfl, ?_⟩
    simp only [h, Nat.add_zero]
  cases o with
  | none => simpa using hnone fun d => by simp [Account.orphaned, ho]
  | some d =>
      simp only [wp_whenever]
      refine ⟨fun hd => wp_ok fun _ s₁ l₁ h₁ => ?_, fun hd => hnone fun e => ?_⟩
      · obtain ⟨rfl, rfl⟩ := incPhantomDustBound_spec h₁
        refine ⟨rfl, congrArg (fun f => ({ s with sides := f } : RiskEngine)) (funext fun e => ?_)⟩
        by_cases he : e = d
        · subst he; simp [Account.orphaned, ho, hd]
        · simp [Account.orphaned, ho, he, Ne.symm he]
      · unfold Account.orphaned
        rw [ho]
        refine if_neg ?_
        rintro ⟨h, h'⟩
        cases h
        exact hd h'

theorem Account.attachedTo_on (a : Account) (sides : Side → SideState) (q : Int) (d : Side) :
    (a.attachedTo sides q).on d = (a.withPositionBasisQ q).on d := by
  unfold attachedTo
  cases h : sideOfI128 q with
  | none => obtain rfl := sideOfI128_eq_none.mp h; rfl
  | some e => rfl

theorem attachEffectivePosition_spec (hok : attachEffectivePosition i q s = .ok () s' l) :
    ∃ f, Attached s s' i q f ∧ l = [] := by
  refine wp_sound (Q := fun _ s' l => ∃ f, Attached s s' i q f ∧ l = []) hok ?_
  simp only [attachEffectivePosition, wp_bind, wp_read]
  refine wp_ok fun _ s₁ l₁ h₁ => ?_
  obtain ⟨rfl, rfl⟩ := orphanDust_spec rfl h₁
  cases hq : sideOfI128 q with
  | none =>
      obtain rfl := sideOfI128_eq_none.mp hq
      simp only [wp_bind, wp_writeAccount]
      refine wp_ok fun _ s₂ l₂ h₂ => ?_
      obtain ⟨n, rfl, rfl, hn⟩ := setPositionBasisQ_spec h₂
      refine ⟨fun d => ⟨n d, (s.sides d).staleAccountCount,
        (s.sides d).phantomDustBoundQ + (s.accounts i).orphaned d (s.sides d)⟩, ⟨?_, by decide, ?_, ?_, ?_⟩, rfl⟩
      · simp [RiskEngine.reseat, RiskEngine.setAccount, Account.attachedTo, hq, Account.flat, SideState.withSeats, SideState.seats]
      · intro d; rw [Account.attachedTo_on]; exact hn d
      · exact fun _ => rfl
      · exact fun _ => rfl
  | some d =>
      simp only [wp_bind, wp_read, wp_rejectIf, wp_writeAccount, implies_true, true_and, not_lt]
      refine fun hb => wp_ok fun _ s₂ l₂ h₂ => ?_
      obtain ⟨n, rfl, rfl, hn⟩ := setPositionBasisQ_spec h₂
      refine ⟨fun d => ⟨n d, (s.sides d).staleAccountCount,
        (s.sides d).phantomDustBoundQ + (s.accounts i).orphaned d (s.sides d)⟩, ⟨?_, hb, ?_, ?_, ?_⟩, rfl⟩
      · simp [RiskEngine.reseat, RiskEngine.setAccount, Account.attachedTo, hq, Account.attachSnaps, SideState.withSeats, SideState.seats]
      · intro d; rw [Account.attachedTo_on]; exact hn d
      · exact fun _ => rfl
      · exact fun _ => rfl

/-- The PnL after settlement is the old one and the delta. -/
theorem settledPnl_spec {a : Account} {k f newPnl : Int} (hok : settledPnl a k f s = .ok newPnl s' l) :
    s' = s ∧ l = [] ∧ ∃ δ, computeKfPnlDelta a.positionBasisQ.natAbs a.adlKSnap k a.fSnap f
      (a.adlABasis * POS_SCALE) = some δ ∧ newPnl = a.pnl + δ ∧ I128_MIN < newPnl := by
  set P : Int → RiskEngine → List Event → Prop := fun newPnl s' l =>
    s' = s ∧ l = [] ∧ ∃ δ, computeKfPnlDelta a.positionBasisQ.natAbs a.adlKSnap k a.fSnap f
      (a.adlABasis * POS_SCALE) = some δ ∧ newPnl = a.pnl + δ ∧ I128_MIN < newPnl with hP
  refine wp_sound (Q := P) hok ?_
  simp only [settledPnl, wp_bind, wp_orErr, wp_rejectIf, wp_pure, implies_true, true_and]
  intro den hden δ hδ v hv hne
  obtain rfl := checkedMulU128_eq hden
  obtain ⟨rfl, hmin, -⟩ := toI128_eq hv
  exact ⟨rfl, rfl, δ, hδ, rfl, by omega⟩

/-- Account `i` settled the delta `δ` on side `d`. -/
structure Settled (s s' : RiskEngine) (i : Nat) (d : Side) (instant : Prop) (δ : Int)
    (a' : Account) (t' : Totals) (a'' : Account) (f : Side → Seats) : Prop where
  eq : s' = (s.rebook i a' t').reseat i a'' f
  side : sideOfI128 (s.accounts i).positionBasisQ = some d
  delta : (s.accounts i).settlement (s.sides d) = some δ
  range : I128_MIN < (s.accounts i).pnl + δ
  pnl : LivePnlSet s i ((s.accounts i).pnl + δ) instant a' t'
  position : Resettled s d a' a'' f

/-- What settling account `i` does. -/
def SettleStep (s s' : RiskEngine) (i : Nat) (instant : Prop) : Prop :=
  ∃ d δ a' t' a'' f, Settled s s' i d instant δ a' t' a'' f

theorem settleCurrent_spec {ctx ctx' : InstructionContext} (hok : settleCurrent i d ctx s = .ok ctx' s' l)
    (hside : sideOfI128 (s.accounts i).positionBasisQ = some d)
    (hepoch : (s.accounts i).adlEpochSnap = (s.sides d).adlEpoch) (hlive : s.marketMode = .live)
    (hpair : AdmissionPair s.params ctx.admitHMinShared ctx.admitHMaxShared) :
    SettleStep s s' i (ctx.admitHMinShared = 0) ∧ ctx.SameButSticky ctx' ∧ l = [] := by
  set P : InstructionContext → RiskEngine → List Event → Prop := fun ctx' s' l =>
    SettleStep s s' i (ctx.admitHMinShared = 0) ∧ ctx.SameButSticky ctx' ∧ l = [] with hP
  refine wp_sound (Q := P) hok ?_
  simp only [settleCurrent, wp_bind, wp_read, wp_expect, wp_ite, wp_writeAccount, wp_pure,
    implies_true, true_and]
  refine fun qEff hq => wp_ok fun v s₁ l₁ h₁ => wp_ok fun c s₂ l₂ h₂ => ?_
  obtain ⟨rfl, rfl, δ, hδ, rfl, hrange⟩ := settledPnl_spec h₁
  obtain ⟨a', t', rfl, rfl, hc, -, hset⟩ := setPnlAdmitted_spec h₂ hlive hpair
  obtain ⟨hpos, hq⟩ := mulDivFloorU128_eq hq
  have hdelta : (s₁.accounts i).settlement (s₁.sides d) = some δ := by
    rw [Account.settlement, SideState.indices, if_pos hepoch]; exact hδ
  obtain ⟨p1, p2, p3, p4, p5⟩ := hset.same.position
  refine ⟨fun h0 => wp_ok fun _ s₃ l₃ h₃ => wp_ok fun _ s₄ l₄ h₄ => ?_, fun h0 => ?_⟩
  · obtain ⟨rfl, rfl⟩ := incPhantomDustBound_spec h₃
    obtain ⟨n, hn, rfl, rfl⟩ := setPositionBasisQ_zero (d := d) (by simpa [p1] using hside) h₄
    refine ⟨⟨d, δ, a', t', _, _, ⟨?_, hside, hdelta, hrange, hset, .dusted n (by rw [p5, hepoch]) ?_ ?_⟩⟩, hc, rfl⟩
    · refine RiskEngine.eq_reseat (f := fun e => (s₁.sides e).withSeats (if e = d then
        ⟨n, (s₁.sides d).staleAccountCount, (s₁.sides d).phantomDustBoundQ + 1⟩ else (s₁.sides e).seats))
        (fun _ => rfl) ?_
      simp only [RiskEngine.reseat, RiskEngine.setAccount, RiskEngine.setSide, RiskEngine.rebook,
        Account.flat, put_same, put_put]
      congr 1
      funext e
      by_cases he : e = d
      · subst he; simp [SideState.withSeats, SideState.seats]
      · simp [he, SideState.withSeats, SideState.seats]
    · rw [p1, p2, ← hq]; exact h0
    · simpa using hn
  · refine ⟨⟨d, δ, a', t', _, _, ⟨?_, hside, hdelta, hrange, hset, .kept (by rw [p5, hepoch]) ?_⟩⟩, hc, rfl⟩
    · simp [RiskEngine.reseat, RiskEngine.rebook, RiskEngine.setAccount]
    · rw [p1, p2, ← hq]; exact Nat.pos_of_ne_zero h0

theorem settleStale_spec {ctx ctx' : InstructionContext} (hok : settleStale i d ctx s = .ok ctx' s' l)
    (hside : sideOfI128 (s.accounts i).positionBasisQ = some d)
    (hepoch : (s.accounts i).adlEpochSnap ≠ (s.sides d).adlEpoch) (hlive : s.marketMode = .live)
    (hpair : AdmissionPair s.params ctx.admitHMinShared ctx.admitHMaxShared) :
    SettleStep s s' i (ctx.admitHMinShared = 0) ∧ ctx.SameButSticky ctx' ∧ l = [] := by
  set P : InstructionContext → RiskEngine → List Event → Prop := fun ctx' s' l =>
    SettleStep s s' i (ctx.admitHMinShared = 0) ∧ ctx.SameButSticky ctx' ∧ l = [] with hP
  refine wp_sound (Q := P) hok ?_
  simp only [settleStale, wp_bind, wp_read, wp_corruptIf, wp_lift, wp_writeAccount, wp_writeSide,
    wp_pure, implies_true, true_and, not_not]
  refine fun hmode hnext => wp_ok fun v s₁ l₁ h₁ hstale => wp_ok fun c s₂ l₂ h₂ =>
    wp_ok fun _ s₃ l₃ h₃ => ?_
  obtain ⟨rfl, rfl, δ, hδ, rfl, hrange⟩ := settledPnl_spec h₁
  obtain ⟨a', t', rfl, rfl, hc, -, hset⟩ := setPnlAdmitted_spec h₂ hlive hpair
  have hdelta : (s₁.accounts i).settlement (s₁.sides d) = some δ := by
    rw [Account.settlement, SideState.indices, if_neg hepoch]; exact hδ
  obtain ⟨p1, p2, p3, p4, p5⟩ := hset.same.position
  obtain ⟨n, hn, rfl, rfl⟩ := setPositionBasisQ_zero (d := d) (by simpa [p1] using hside) h₃
  refine ⟨⟨d, δ, a', t', _, _, ⟨?_, hside, hdelta, hrange, hset, .stale n ((s₁.sides d).staleAccountCount - 1)
    hmode (by rw [p5]; exact (checkedAddU64_eq hnext).1.symm) (by simpa using hn) (by omega)⟩⟩, hc, rfl⟩
  refine RiskEngine.eq_reseat (f := fun e => (s₁.sides e).withSeats (if e = d then
    ⟨n, (s₁.sides d).staleAccountCount - 1, (s₁.sides d).phantomDustBoundQ⟩ else (s₁.sides e).seats))
    (fun _ => rfl) ?_
  simp only [RiskEngine.reseat, RiskEngine.setAccount, RiskEngine.setSide, RiskEngine.rebook,
    Account.flat, put_same, put_put]
  congr 1
  funext e
  by_cases he : e = d
  · subst he; simp [SideState.withSeats, SideState.seats]
  · simp [he, SideState.withSeats, SideState.seats]

end Specs

end Percolator
