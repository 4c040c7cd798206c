import Percolator.Laws.Funding

/-!
Settling after the indices moved: in whatever order the accounts of a market are
settled, and whether or not sides are reset on the way, each realizes what was due
to it, and an accrual creates nothing in the sum.
-/

namespace Percolator

open Effect Finset

variable {s s' : RiskEngine} {l : List Event} {i j : Nat} {d : Side} {δ : Int} {deltas : List (Nat × Int)}

/-! ### What is due -/

/-- What settling `a` on a side in state `v` realizes. -/
def Account.due (a : Account) (v : SideState) : Int :=
  kfDelta a.positionBasisQ.natAbs ((v.indices a.adlEpochSnap).1 - a.adlKSnap)
    ((v.indices a.adlEpochSnap).2 - a.fSnap) (a.adlABasis * POS_SCALE)

/-- What settling account `i` realizes. -/
def RiskEngine.due (s : RiskEngine) (i : Nat) : Int :=
  match sideOfI128 (s.accounts i).positionBasisQ with
  | none => 0
  | some d => (s.accounts i).due (s.sides d)

/-- Settlements of accounts, each with what it realized, and the resets between them. -/
inductive Settling : RiskEngine → List (Nat × Int) → RiskEngine → Prop
  | done (s : RiskEngine) : Settling s [] s
  | settled {s s₁ s₂ : RiskEngine} {i : Nat} {δ : Int} {deltas : List (Nat × Int)}
      {ctx ctx' : InstructionContext} {l : List Event} (used : s.isUsed i = true)
      (pair : AdmissionPair s.params ctx.admitHMinShared ctx.admitHMaxShared)
      (ok : settleSideEffectsLive i ctx s = .ok ctx' s₁ l)
      (realized : δ = (s₁.accounts i).pnl - (s.accounts i).pnl) (rest : Settling s₁ deltas s₂) :
      Settling s ((i, δ) :: deltas) s₂
  | scheduled {s s₁ s₂ : RiskEngine} {deltas : List (Nat × Int)} {ctx ctx' : InstructionContext}
      {l : List Event} (ok : scheduleEndOfInstructionResets ctx s = .ok ctx' s₁ l)
      (rest : Settling s₁ deltas s₂) : Settling s deltas s₂
  | reset {s s₁ s₂ : RiskEngine} {deltas : List (Nat × Int)} {ctx : InstructionContext}
      {l : List Event} (ok : finalizeEndOfInstructionResets ctx s = .ok () s₁ l)
      (rest : Settling s₁ deltas s₂) : Settling s deltas s₂

/-- What account `i` realized in all. -/
def realized (deltas : List (Nat × Int)) (i : Nat) : Int := ((deltas.filter (·.1 = i)).map Prod.snd).sum

/-- A market whose positions can be settled: each is of the epoch of its side, or of
the one before while the side waits for its reset. -/
structure Aligned (s : RiskEngine) : Prop where
  live : s.marketMode = .live
  stored : ∀ d, (s.sides d).storedPosCount = tally s.usedSlots s.accounts (Account.on d)
  epoch : ∀ i d, s.isUsed i = true → sideOfI128 (s.accounts i).positionBasisQ = some d →
    (s.sides d).sideMode ≠ .resetPending ∧ (s.accounts i).adlEpochSnap = (s.sides d).adlEpoch ∨
      (s.sides d).sideMode = .resetPending ∧ (s.accounts i).adlEpochSnap + 1 = (s.sides d).adlEpoch

theorem Good.aligned {ph : Phase} (h : Good ⟨s, ph⟩) (live : s.marketMode = .live) : Aligned s :=
  ⟨live, h.books.stored, fun i d used side => ((h.positions live).position i d used side).epoch⟩

/-- A side with a position on it has a stored position. -/
theorem Aligned.stored_pos (h : Aligned s) (used : s.isUsed i = true)
    (side : sideOfI128 (s.accounts i).positionBasisQ = some d) : 0 < (s.sides d).storedPosCount := by
  rw [h.stored d]
  have one : (s.accounts i).on d = 1 := if_pos side
  have := single_le_sum (f := fun j => (s.accounts j).on d) (fun _ _ => Nat.zero_le _)
    (RiskEngine.mem_usedSlots.mpr used)
  unfold tally
  omega

/-- A step after which every account is due what it was due before. -/
structure KeepsDue (s s' : RiskEngine) : Prop where
  used : s'.isUsed = s.isUsed
  due : ∀ i, s.isUsed i = true → s'.due i = s.due i
  aligned : Aligned s'

theorem SideState.finalized_epoch {v : SideState} {mark : Bool} {e : Nat} (stored : 0 < v.storedPosCount)
    (epoch : v.sideMode ≠ .resetPending ∧ e = v.adlEpoch ∨ v.sideMode = .resetPending ∧ e + 1 = v.adlEpoch) :
    (v.finalized mark).sideMode ≠ .resetPending ∧ e = (v.finalized mark).adlEpoch ∨
      (v.finalized mark).sideMode = .resetPending ∧ e + 1 = (v.finalized mark).adlEpoch := by
  have notReady {w : SideState} (h : w.storedPosCount = v.storedPosCount) : w.reopened = w :=
    if_neg fun ready => by
      have := ready.2.2.2
      omega
  unfold SideState.finalized
  split_ifs with drains
  · rw [notReady (w := v.drained) rfl]
    rcases epoch with ⟨-, he⟩ | ⟨hm, -⟩
    · exact .inr ⟨rfl, congrArg (· + 1) he⟩
    · exact absurd hm drains.2
  · rw [notReady rfl]
    exact epoch

/-- The sides change, and every account keeps its indices and its epoch. -/
theorem Aligned.withSides {f : Side → SideState} (h : Aligned s)
    (stored : ∀ d, (f d).storedPosCount = (s.sides d).storedPosCount)
    (indices : ∀ i d, s.isUsed i = true → sideOfI128 (s.accounts i).positionBasisQ = some d →
      (f d).indices (s.accounts i).adlEpochSnap = (s.sides d).indices (s.accounts i).adlEpochSnap)
    (epoch : ∀ i d, s.isUsed i = true → sideOfI128 (s.accounts i).positionBasisQ = some d →
      (f d).sideMode ≠ .resetPending ∧ (s.accounts i).adlEpochSnap = (f d).adlEpoch ∨
        (f d).sideMode = .resetPending ∧ (s.accounts i).adlEpochSnap + 1 = (f d).adlEpoch) :
    KeepsDue s (s.withSides f) where
  used := rfl
  due i used := by
    unfold RiskEngine.due
    cases side : sideOfI128 (s.accounts i).positionBasisQ with
    | none => simp only [RiskEngine.withSides_accounts, side]
    | some d =>
        simp only [RiskEngine.withSides_accounts, RiskEngine.withSides_sides, side]
        unfold Account.due
        rw [indices i d used side]
  aligned := ⟨h.live, fun d => (stored d).trans (h.stored d), epoch⟩

theorem Aligned.scheduled {ctx ctx' : InstructionContext} (h : Aligned s)
    (ok : scheduleEndOfInstructionResets ctx s = .ok ctx' s' l) : KeepsDue s s' := by
  obtain ⟨oi, rfl, -, -⟩ := scheduleEndOfInstructionResets_spec ok
  exact h.withSides (fun _ => rfl) (fun _ _ _ _ => rfl) h.epoch

theorem Aligned.reset {ctx : InstructionContext} (h : Aligned s)
    (ok : finalizeEndOfInstructionResets ctx s = .ok () s' l) : KeepsDue s s' := by
  obtain ⟨rfl, -, -⟩ := finalizeEndOfInstructionResets_spec ok
  refine h.withSides (fun d => SideState.finalized_stored _ _) (fun i d used side => ?_) fun i d used side => ?_
  · exact SideState.finalized_indices (s.sides d).oiEffQ (h.epoch i d used side)
  · exact SideState.finalized_epoch (h.stored_pos used side) (h.epoch i d used side)

/-! ### One settlement -/

/-- Account `i` realized what was due to it, and everybody else is due what they were due. -/
structure SettledDue (s s' : RiskEngine) (i : Nat) (δ : Int) : Prop where
  realized : δ = s.due i
  cleared : s'.due i = 0
  used : s'.isUsed = s.isUsed
  others : ∀ j, j ≠ i → s'.due j = s.due j
  aligned : Aligned s'

theorem kfDelta_zero (absBasis den : Nat) : kfDelta absBasis 0 0 den = 0 := by
  simp [kfDelta]

theorem RiskEngine.due_none (side : sideOfI128 (s.accounts i).positionBasisQ = none) : s.due i = 0 := by
  unfold due
  rw [side]

theorem RiskEngine.due_some (side : sideOfI128 (s.accounts i).positionBasisQ = some d) :
    s.due i = (s.accounts i).due (s.sides d) := by
  unfold due
  rw [side]

theorem Settled.realizes {instant : Prop} {a' a'' : Account} {t' : Totals} {f : Side → Seats}
    (h : Aligned s) (used : s.isUsed i = true) (pos : 0 < (s.accounts i).adlABasis)
    (hs : Settled s s' i d instant δ a' t' a'' f) :
    SettledDue s s' i ((s'.accounts i).pnl - (s.accounts i).pnl) := by
  obtain ⟨basis, aBasis, kSnap, fSnap, snap⟩ := hs.pnl.same.position
  have side : sideOfI128 a'.positionBasisQ = some d := by rw [basis]; exact hs.side
  have account : s'.accounts i = a'' := by rw [hs.eq]; simp
  have others {j : Nat} (hj : j ≠ i) : s'.accounts j = s.accounts j := by
    rw [hs.eq, RiskEngine.reseat_accounts, put_other _ _ hj, RiskEngine.rebook_accounts, put_other _ _ hj]
  have sides (e : Side) : s'.sides e = (s.sides e).withSeats (f e) := by rw [hs.eq]; rfl
  have isUsed : s'.isUsed = s.isUsed := by rw [hs.eq]; rfl
  have pnl : a''.pnl = (s.accounts i).pnl + δ := by
    rw [← hs.pnl.pnl_eq]
    cases hs.position <;> rfl
  have stored := hs.position.stored side
  refine ⟨?_, ?_, isUsed, fun j hj => ?_, ?_, fun e => ?_, fun j e hj hside => ?_⟩
  · rw [account, pnl, add_sub_cancel_left, RiskEngine.due_some hs.side]
    exact computeKfPnlDeltaWide_some (Nat.mul_pos pos (by decide)) hs.delta
  · cases hs.position with
    | kept _ _ =>
        have side' : sideOfI128 (s'.accounts i).positionBasisQ = some d := by rw [account]; exact side
        rw [RiskEngine.due_some side', account, sides d]
        simp only [Account.due, SideState.indices, Account.withSnaps, SideState.withSeats, if_true, sub_self]
        exact kfDelta_zero _ _
    | dusted _ _ _ _ => exact RiskEngine.due_none (by rw [account]; rfl)
    | stale _ _ _ _ _ _ => exact RiskEngine.due_none (by rw [account]; rfl)
  · unfold RiskEngine.due
    rw [others hj]
    cases sideOfI128 (s.accounts j).positionBasisQ with
    | none => rfl
    | some e => simp only [sides e]; rfl
  · rw [hs.eq]; exact h.live
  · have hused : s'.usedSlots = s.usedSlots := by rw [hs.eq]; rfl
    have table : s'.accounts = put s.accounts i a'' := by rw [hs.eq]; exact put_put _ _ _ _
    have tally' := tally_put (f := Account.on e) (t := s.accounts) (a := a'') (RiskEngine.mem_usedSlots.mpr used)
    have on : a'.on e = (s.accounts i).on e := by rw [Account.on, Account.on, basis]
    have count := stored e
    have before := h.stored e
    rw [sides e, hused, table]
    rw [SideState.withSeats_storedPosCount]
    change (f e).stored + a'.on e = (s.sides e).storedPosCount + a''.on e at count
    omega
  · rw [isUsed] at hj
    rw [sides e]
    by_cases hji : j = i
    · subst hji
      rw [account] at hside ⊢
      cases hs.position with
      | kept epoch _ =>
          obtain rfl : e = d := Option.some.inj (hside.symm.trans side)
          have old := h.epoch j e used hs.side
          rw [← snap, epoch] at old
          exact .inl ⟨old.resolve_right (fun hn => by have := hn.2; omega) |>.1, rfl⟩
      | dusted _ _ _ _ => cases hside
      | stale _ _ _ _ _ _ => cases hside
    · rw [others hji] at hside ⊢
      exact h.epoch j e hj hside

/-- A settlement realizes what is due. -/
theorem Aligned.settled {ctx ctx' : InstructionContext} (h : Aligned s) (used : s.isUsed i = true)
    (pair : AdmissionPair s.params ctx.admitHMinShared ctx.admitHMaxShared)
    (ok : settleSideEffectsLive i ctx s = .ok ctx' s' l) :
    SettledDue s s' i ((s'.accounts i).pnl - (s.accounts i).pnl) := by
  cases side : sideOfI128 (s.accounts i).positionBasisQ with
  | none =>
      obtain rfl : s' = s := by
        refine wp_sound (Q := fun _ s' _ => s' = s) ok ?_
        simp only [settleSideEffectsLive, wp_bind, wp_read, side, wp_pure]
      rw [sub_self]
      exact ⟨(RiskEngine.due_none side).symm, RiskEngine.due_none side, rfl, fun _ _ => rfl, h⟩
  | some d =>
      obtain ⟨pos, d', δ, a', t', a'', f, hs⟩ := settleSideEffectsLive_spec ok side h.live pair
      exact hs.realizes h used pos

/-! ### A run of settlements -/

theorem realized_cons {p : Nat × Int} : realized (p :: deltas) i = (if p.1 = i then p.2 else 0) + realized deltas i := by
  unfold realized
  by_cases h : p.1 = i <;> simp [h]

/-- Whatever the order, what an account realized and what it is still due add up to
what it was due. -/
theorem Settling.realized_add_due (h : Settling s deltas s') (hs : Aligned s) (used : s.isUsed i = true) :
    realized deltas i + s'.due i = s.due i := by
  induction h with
  | done s => simp [realized]
  | @settled s s₁ s₂ j δ deltas ctx ctx' l usedj pair ok hδ rest ih =>
      have step := hs.settled usedj pair ok
      have later := ih step.aligned (by rw [step.used]; exact used)
      rw [realized_cons, add_assoc, later, hδ, step.realized]
      by_cases hji : j = i
      · subst hji
        rw [if_pos rfl, step.cleared, add_zero]
      · rw [if_neg hji, step.others i (Ne.symm hji), zero_add]
  | scheduled ok rest ih =>
      have step := hs.scheduled ok
      rw [ih step.aligned (by rw [step.used]; exact used), step.due i used]
  | reset ok rest ih =>
      have step := hs.reset ok
      rw [ih step.aligned (by rw [step.used]; exact used), step.due i used]

/-- An account due nothing stays so. -/
theorem Settling.due_zero (h : Settling s deltas s') (hs : Aligned s) (used : s.isUsed i = true)
    (zero : s.due i = 0) : s'.due i = 0 := by
  induction h with
  | done s => exact zero
  | @settled s s₁ s₂ j δ deltas ctx ctx' l usedj pair ok hδ rest ih =>
      have step := hs.settled usedj pair ok
      refine ih step.aligned (by rw [step.used]; exact used) ?_
      by_cases hji : j = i
      · subst hji
        exact step.cleared
      · rw [step.others i (Ne.symm hji), zero]
  | scheduled ok rest ih =>
      have step := hs.scheduled ok
      exact ih step.aligned (by rw [step.used]; exact used) ((step.due i used).trans zero)
  | reset ok rest ih =>
      have step := hs.reset ok
      exact ih step.aligned (by rw [step.used]; exact used) ((step.due i used).trans zero)

/-- An account that was settled is due nothing more. -/
theorem Settling.cleared (h : Settling s deltas s') (hs : Aligned s) (used : s.isUsed i = true)
    (mem : i ∈ deltas.map Prod.fst) : s'.due i = 0 := by
  induction h with
  | done s => cases mem
  | @settled s s₁ s₂ j δ deltas ctx ctx' l usedj pair ok hδ rest ih =>
      have step := hs.settled usedj pair ok
      have used₁ : s₁.isUsed i = true := by rw [step.used]; exact used
      rcases List.mem_cons.mp mem with rfl | mem
      · exact rest.due_zero step.aligned used₁ step.cleared
      · exact ih step.aligned used₁ mem
  | scheduled ok rest ih =>
      have step := hs.scheduled ok
      exact ih step.aligned (by rw [step.used]; exact used) mem
  | reset ok rest ih =>
      have step := hs.reset ok
      exact ih step.aligned (by rw [step.used]; exact used) mem

/-- An account that was settled realized in all what it was due at the start. -/
theorem Settling.realized_eq (h : Settling s deltas s') (hs : Aligned s) (used : s.isUsed i = true)
    (mem : i ∈ deltas.map Prod.fst) : realized deltas i = s.due i := by
  have sum := h.realized_add_due hs used
  rwa [h.cleared hs used mem, add_zero] at sum

theorem Settling.used (h : Settling s deltas s') (hs : Aligned s) (mem : i ∈ deltas.map Prod.fst) :
    s.isUsed i = true := by
  induction h with
  | done s => cases mem
  | settled usedj pair ok hδ rest ih =>
      have step := hs.settled usedj pair ok
      rcases List.mem_cons.mp mem with rfl | mem
      · exact usedj
      · exact step.used ▸ ih step.aligned mem
  | scheduled ok rest ih =>
      have step := hs.scheduled ok
      exact step.used ▸ ih step.aligned mem
  | reset ok rest ih =>
      have step := hs.reset ok
      exact step.used ▸ ih step.aligned mem

/-- The sum of a list of settlements, account by account. -/
theorem sum_realized (U : Finset Nat) (mem : ∀ p ∈ deltas, p.1 ∈ U) :
    (deltas.map Prod.snd).sum = ∑ i ∈ U, realized deltas i := by
  induction deltas with
  | nil => simp [realized]
  | cons p rest ih =>
      have own : ∑ i ∈ U, (if p.1 = i then p.2 else 0) = p.2 := by
        rw [sum_ite_eq, if_pos (mem p List.mem_cons_self)]
      simp only [realized_cons, sum_add_distrib, own, List.map_cons, List.sum_cons]
      rw [ih fun q hq => mem q (List.mem_cons_of_mem _ hq)]

/-! ### Mark and funding in the sum -/

section ZeroSum

variable {now price : Nat} {rate : Int}

/-- What an accrual leaves of each side. -/
theorem accrueMarketTo_sides (hok : accrueMarketTo now price rate s = .ok () s' l) :
    s'.marketMode = .live ∧ s'.accounts = s.accounts ∧ s'.isUsed = s.isUsed ∧ s'.usedSlots = s.usedSlots ∧
      ∀ d, s'.sides d = (s.sides d).indexed
        ((s.sides d).adlCoeff + (s.sides d).marked d (price - s.lastOraclePrice))
        ((s.sides d).fNum - s.funded d (s.fundPxLast * rate * (now - s.lastMarketSlot : Nat))) := by
  obtain ⟨allowed, ⟨slot, same, rfl⟩ | ⟨k, f, moves, rfl⟩⟩ := accrueMarketTo_inv hok
  · refine ⟨allowed.live, rfl, rfl, rfl, fun d => ?_⟩
    have marked : (s.sides d).marked d (price - s.lastOraclePrice) = 0 := by
      simp [SideState.marked, same]
    have funded : s.funded d (s.fundPxLast * rate * (now - s.lastMarketSlot : Nat)) = 0 := by
      simp [RiskEngine.funded, slot]
    rw [marked, funded, add_zero, sub_zero]
    rfl
  · refine ⟨allowed.live, rfl, rfl, rfl, fun d => ?_⟩
    obtain ⟨kLong, kShort⟩ := k
    obtain ⟨fLong, fShort⟩ := f
    have mark := (markIndices_eq moves.mark d).1
    have fund := (fundIndices_eq moves.fund d).1
    show (s.sides d).indexed (d.pick (kLong, kShort)) (d.pick (fLong, fShort)) = _
    rw [← mark, ← fund]
    cases d <;> rfl

/-- The price change and the funding of an accrual, over `FUNDING_DEN`. -/
def RiskEngine.carry (s : RiskEngine) (now price : Nat) (rate : Int) : Int :=
  ((price : Int) - s.lastOraclePrice) * FUNDING_DEN - s.fundPxLast * rate * (now - s.lastMarketSlot : Nat)

/-- The move of both indices of a side in one number. -/
theorem carried (both : (s.sides .long).oiEffQ ≠ 0 ∧ (s.sides .short).oiEffQ ≠ 0) (d : Side) :
    (s.sides d).marked d (price - s.lastOraclePrice) * FUNDING_DEN +
        -s.funded d (s.fundPxLast * rate * (now - s.lastMarketSlot : Nat)) =
      d.sign * ((s.sides d).adlMult * s.carry now price rate) := by
  have own : (s.sides d).oiEffQ ≠ 0 := by
    cases d
    · exact both.1
    · exact both.2
  rw [SideState.marked, if_pos own, RiskEngine.funded, if_pos both, RiskEngine.carry]
  ring

theorem carried_closed (closed : s.Closed) (d : Side) (deltaP total : Int) :
    (s.sides d).marked d deltaP = 0 ∧ s.funded d total = 0 :=
  ⟨if_neg (not_not.mpr (closed d)), if_neg fun hc => hc.1 (closed .long)⟩

/-- A floor is at most the fraction. -/
theorem kfDelta_le (absBasis : Nat) (k f : Int) {den : Nat} (hden : 0 < den) :
    (kfDelta absBasis k f den : ℚ) ≤ absBasis * (k * FUNDING_DEN + f : Int) / (den * FUNDING_DEN : Nat) := by
  have pos : 0 < den * FUNDING_DEN := Nat.mul_pos hden (by decide)
  have floor := Int.ediv_mul_le (absBasis * (k * FUNDING_DEN + f)) (b := ((den * FUNDING_DEN : Nat) : Int)) (by omega)
  rw [le_div_iff₀ (by exact_mod_cast pos)]
  unfold kfDelta
  exact_mod_cast floor

/-- Every position is settled up to now, and no side waits for a reset. -/
structure RiskEngine.SnapshotsCurrent (s : RiskEngine) : Prop where
  snaps : ∀ i d, s.isUsed i = true → sideOfI128 (s.accounts i).positionBasisQ = some d →
    (s.accounts i).adlKSnap = (s.sides d).adlCoeff ∧ (s.accounts i).fSnap = (s.sides d).fNum
  running : ∀ d, (s.sides d).sideMode ≠ .resetPending

theorem SideState.indexed_indices (v : SideState) (k f : Int) :
    (v.indexed k f).indices v.adlEpoch = (k, f) := if_pos rfl

/-- What an account is due after an accrual, by the moves of its side. -/
theorem Reachable.due_accrued (h : Reachable s) (current : s.SnapshotsCurrent) (used : s.isUsed i = true)
    (ok : accrueMarketTo now price rate s = .ok () s' l)
    (side : sideOfI128 (s.accounts i).positionBasisQ = some d) :
    (s.accounts i).adlEpochSnap = (s.sides d).adlEpoch ∧
    s'.due i = kfDelta (s.accounts i).positionBasisQ.natAbs
      ((s.sides d).marked d (price - s.lastOraclePrice))
      (-s.funded d (s.fundPxLast * rate * (now - s.lastMarketSlot : Nat))) ((s.accounts i).adlABasis * POS_SCALE) := by
  obtain ⟨allowed, -⟩ := accrueMarketTo_inv ok
  obtain ⟨-, accounts, -, -, sides⟩ := accrueMarketTo_sides ok
  have epoch : (s.accounts i).adlEpochSnap = (s.sides d).adlEpoch := by
    have := ((h.good.positions allowed.live).position i d used side).epoch
    exact (this.resolve_right fun hn => current.running d hn.1).2
  refine ⟨epoch, ?_⟩
  have side' : sideOfI128 (s'.accounts i).positionBasisQ = some d := by rw [accounts]; exact side
  rw [RiskEngine.due_some side', accounts, sides d, Account.due, epoch, SideState.indexed_indices]
  obtain ⟨kSnap, fSnap⟩ := current.snaps i d used side
  rw [kSnap, fSnap]
  congr 1
  · exact add_sub_cancel_left _ _
  · show (s.sides d).fNum - _ - (s.sides d).fNum = _
    ring

theorem share_on (side : sideOfI128 (s.accounts i).positionBasisQ = some d)
    (epoch : (s.accounts i).adlEpochSnap = (s.sides d).adlEpoch) (e : Side) :
    (s.accounts i).share e (s.sides e) = if e = d then
      ((s.accounts i).positionBasisQ.natAbs * (s.sides d).adlMult / (s.accounts i).adlABasis : ℚ) else 0 := by
  unfold Account.share
  by_cases he : e = d
  · subst he
    rw [if_pos ⟨side, epoch⟩, if_pos rfl]
  · rw [if_neg fun hc => he (Option.some.inj (hc.1.symm.trans side)), if_neg he]

/-- In an open market an account is due at most its exact share of the carry. -/
theorem Reachable.due_le_share (h : Reachable s) (current : s.SnapshotsCurrent)
    (both : (s.sides .long).oiEffQ ≠ 0 ∧ (s.sides .short).oiEffQ ≠ 0) (used : s.isUsed i = true)
    (ok : accrueMarketTo now price rate s = .ok () s' l) :
    (s'.due i : ℚ) ≤ ((s.accounts i).share .long (s.sides .long) - (s.accounts i).share .short (s.sides .short)) *
      (s.carry now price rate / (POS_SCALE * FUNDING_DEN)) := by
  cases side : sideOfI128 (s.accounts i).positionBasisQ with
  | none =>
      have accounts := (accrueMarketTo_sides ok).2.1
      rw [RiskEngine.due_none (by rw [accounts]; exact side)]
      unfold Account.share
      rw [if_neg (by rw [side]; rintro ⟨⟨⟩, -⟩), if_neg (by rw [side]; rintro ⟨⟨⟩, -⟩)]
      simp
  | some d =>
      obtain ⟨allowed, -⟩ := accrueMarketTo_inv ok
      obtain ⟨epoch, due⟩ := h.due_accrued current used ok side
      have pos : 0 < (s.accounts i).adlABasis := ((h.good.positions allowed.live).position i d used side).basis_pos
      rw [due, share_on side epoch, share_on side epoch]
      refine (kfDelta_le _ _ _ (Nat.mul_pos pos (by decide))).trans (le_of_eq ?_)
      rw [carried both d]
      have basis_ne : ((s.accounts i).adlABasis : ℚ) ≠ 0 := by exact_mod_cast pos.ne'
      cases d <;> simp [Side.sign] <;> field_simp

/-- A side that is not waiting for its reset has open interest where it has a position. -/
theorem Positions.oi_pos (h : Positions s .idle) (used : s.isUsed i = true)
    (side : sideOfI128 (s.accounts i).positionBasisQ = some d) (running : (s.sides d).sideMode ≠ .resetPending) :
    (s.accounts i).adlEpochSnap = (s.sides d).adlEpoch ∧ (s.sides d).oiEffQ ≠ 0 := by
  have position := h.position i d used side
  obtain ⟨-, epoch⟩ := position.epoch.resolve_right fun waiting => running waiting.1
  refine ⟨epoch, fun closed => ?_⟩
  have basis : 0 < (s.accounts i).positionBasisQ.natAbs := by
    refine Int.natAbs_pos.mpr fun flat => ?_
    rw [sideOfI128_eq_none.mpr flat] at side
    cases side
  have share : 0 < (s.accounts i).share d (s.sides d) := by
    have mult := (h.side d).mult_pos
    have aBasis := position.basis_pos
    rw [share_on side epoch, if_pos rfl]
    positivity
  have le_shares : (s.accounts i).share d (s.sides d) ≤ s.shares d :=
    Finset.single_le_sum (f := fun j => (s.accounts j).share d (s.sides d)) (fun _ _ => Account.share_nonneg)
      (RiskEngine.mem_usedSlots.mpr used)
  have cover := (h.cover d rfl).le
  rw [closed] at cover
  simp only [Phase.closedOn, Phase.idle, Nat.cast_zero, add_zero] at cover
  linarith

theorem Aligned.accrued (h : Aligned s) (ok : accrueMarketTo now price rate s = .ok () s' l) :
    Aligned s' := by
  obtain ⟨live, accounts, isUsed, usedSlots, sides⟩ := accrueMarketTo_sides ok
  refine ⟨live, fun d => ?_, fun i d used side => ?_⟩
  · rw [accounts, usedSlots, sides d]
    exact h.stored d
  · rw [isUsed] at used
    rw [accounts] at side ⊢
    rw [sides d]
    exact h.epoch i d used side

/-- The exact shares of the two sides differ by the dust of one of them. -/
theorem Reachable.shares_diff (h : Reachable s) (live : s.marketMode = .live) :
    |s.shares .long - s.shares .short| ≤
      max ((s.sides .long).phantomDustBoundQ : ℚ) (s.sides .short).phantomDustBoundQ := by
  have balanced : ((s.sides .long).oiEffQ : ℚ) = (s.sides .short).oiEffQ := by exact_mod_cast h.good.balanced
  have long := (h.good.positions live).cover .long rfl
  have short := (h.good.positions live).cover .short rfl
  have long_le := long.le
  have long_ge := long.ge
  have short_le := short.le
  have short_ge := short.ge
  simp only [Phase.closedOn, Phase.idle, Nat.cast_zero, add_zero] at long_le long_ge short_le short_ge
  rw [abs_le]
  have hl := le_max_left ((s.sides .long).phantomDustBoundQ : ℚ) (s.sides .short).phantomDustBoundQ
  have hs := le_max_right ((s.sides .long).phantomDustBoundQ : ℚ) (s.sides .short).phantomDustBoundQ
  constructor <;> linarith

/-- In a closed market nothing is due. -/
theorem Reachable.due_closed (h : Reachable s) (current : s.SnapshotsCurrent) (closed : s.Closed)
    (used : s.isUsed i = true) (ok : accrueMarketTo now price rate s = .ok () s' l) : s'.due i = 0 := by
  cases side : sideOfI128 (s.accounts i).positionBasisQ with
  | none => exact RiskEngine.due_none (by rw [(accrueMarketTo_sides ok).2.1]; exact side)
  | some d =>
      obtain ⟨-, due⟩ := h.due_accrued current used ok side
      obtain ⟨mark, fund⟩ := carried_closed closed d (price - s.lastOraclePrice)
        (s.fundPxLast * rate * (now - s.lastMarketSlot : Nat))
      rw [due, mark, fund, neg_zero]
      exact kfDelta_zero _ _

/-- Settling every account after an accrual realizes in the sum at most the dust at the
price change less the funding: mark and funding create nothing. -/
theorem Reachable.accrual_zero_sum (h : Reachable s) (current : s.SnapshotsCurrent)
    (ok : accrueMarketTo now price rate s = .ok () s' l) {last : RiskEngine} (settling : Settling s' deltas last)
    (all : ∀ i, s.isUsed i = true → i ∈ deltas.map Prod.fst) :
    ((deltas.map Prod.snd).sum : ℚ) ≤
        max ((s.sides .long).phantomDustBoundQ : ℚ) (s.sides .short).phantomDustBoundQ *
          |(price : ℚ) - s.lastOraclePrice - s.fundPxLast * rate * (now - s.lastMarketSlot : Nat) / FUNDING_DEN| /
          POS_SCALE ∧
      ((∀ d, (s.sides d).phantomDustBoundQ = 0) → (deltas.map Prod.snd).sum ≤ 0) := by
  obtain ⟨allowed, -⟩ := accrueMarketTo_inv ok
  obtain ⟨-, -, isUsed, -, -⟩ := accrueMarketTo_sides ok
  have aligned : Aligned s' := (h.good.aligned allowed.live).accrued ok
  have total : (deltas.map Prod.snd).sum = ∑ i ∈ s.usedSlots, s'.due i := by
    rw [sum_realized s.usedSlots fun p hp => ?_]
    · refine sum_congr rfl fun i hi => ?_
      have used := RiskEngine.mem_usedSlots.mp hi
      exact settling.realized_eq aligned (isUsed ▸ used) (all i used)
    · refine RiskEngine.mem_usedSlots.mpr ?_
      rw [← isUsed]
      exact settling.used aligned (List.mem_map_of_mem hp)
  set dust := max ((s.sides .long).phantomDustBoundQ : ℚ) (s.sides .short).phantomDustBoundQ with hdust
  set w : ℚ := s.carry now price rate / (POS_SCALE * FUNDING_DEN) with hw
  have weight : |(price : ℚ) - s.lastOraclePrice - s.fundPxLast * rate * (now - s.lastMarketSlot : Nat) /
      FUNDING_DEN| / POS_SCALE = |w| := by
    have unit : (0 : ℚ) < POS_SCALE := by norm_num [POS_SCALE]
    have den : (0 : ℚ) < FUNDING_DEN := by norm_num [FUNDING_DEN]
    have split : w = ((price : ℚ) - s.lastOraclePrice -
        s.fundPxLast * rate * (now - s.lastMarketSlot : Nat) / FUNDING_DEN) / POS_SCALE := by
      rw [hw, RiskEngine.carry]
      push_cast
      field_simp
    rw [split, abs_div, abs_of_pos unit]
  have bound : ((deltas.map Prod.snd).sum : ℚ) ≤ dust * |w| := by
    rw [total]
    rcases RiskEngine.closed_or_open h.good.balanced with closed | both
    · rw [sum_eq_zero fun i hi => h.due_closed current closed (RiskEngine.mem_usedSlots.mp hi) ok]
      rw [Int.cast_zero]
      exact mul_nonneg (le_max_of_le_left (Nat.cast_nonneg _)) (abs_nonneg w)
    · calc ((∑ i ∈ s.usedSlots, s'.due i : Int) : ℚ)
          = ∑ i ∈ s.usedSlots, (s'.due i : ℚ) := Int.cast_sum _ _
        _ ≤ ∑ i ∈ s.usedSlots,
              ((s.accounts i).share .long (s.sides .long) - (s.accounts i).share .short (s.sides .short)) * w :=
            sum_le_sum fun i hi => h.due_le_share current both (RiskEngine.mem_usedSlots.mp hi) ok
        _ = (s.shares .long - s.shares .short) * w := by rw [← sum_mul, sum_sub_distrib]; rfl
        _ ≤ |s.shares .long - s.shares .short| * |w| := by rw [← abs_mul]; exact le_abs_self _
        _ ≤ dust * |w| := mul_le_mul_of_nonneg_right (h.shares_diff allowed.live) (abs_nonneg w)
  rw [mul_div_assoc, weight]
  refine ⟨bound, fun none => ?_⟩
  have zero : dust = 0 := by rw [hdust, none .long, none .short]; simp
  rw [zero, zero_mul] at bound
  exact_mod_cast bound

/-- The funded market after an accrual that moved its price and its funding. -/
def driftedMarket : RiskEngine := (accrueMarketTo 150 1010 700 fundedMarket).final

/-- The drifted market with account 1 settled. -/
def halfSettledMarket : RiskEngine :=
  (settleSideEffectsLive 1 (.newWithAdmission 10 100) driftedMarket).final

theorem fundedMarket_accrual_zero_sum : ∃ deltas last, Settling driftedMarket deltas last ∧
    deltas.map Prod.fst = [1, 2] ∧ (deltas.map Prod.snd).sum ≤ 0 := by
  obtain ⟨_, l, ok⟩ := Outcome.eq_ok (o := accrueMarketTo 150 1010 700 fundedMarket) (by decide +kernel)
  obtain ⟨_, l₁, ok₁⟩ := Outcome.eq_ok
    (o := settleSideEffectsLive 1 (.newWithAdmission 10 100) driftedMarket) (by decide +kernel)
  obtain ⟨_, l₂, ok₂⟩ := Outcome.eq_ok
    (o := settleSideEffectsLive 2 (.newWithAdmission 10 100) halfSettledMarket) (by decide +kernel)
  have settling := Settling.settled (by decide +kernel) (by decide +kernel) ok₁ rfl
    (.settled (by decide +kernel) (by decide +kernel) ok₂ rfl (.done _))
  have width : fundedMarket.maxAccounts = 4 := by decide +kernel
  have slots (i : Nat) (h : fundedMarket.isUsed i = true) : i < 4 := width ▸ isUsed_lt h
  have used : ∀ i < 4, fundedMarket.isUsed i = true → i = 1 ∨ i = 2 := by decide +kernel
  have snaps (d : Side) : ∀ i < 4, fundedMarket.isUsed i = true →
      sideOfI128 (fundedMarket.accounts i).positionBasisQ = some d →
      (fundedMarket.accounts i).adlKSnap = (fundedMarket.sides d).adlCoeff ∧
        (fundedMarket.accounts i).fSnap = (fundedMarket.sides d).fNum := by
    cases d <;> decide +kernel
  have current : fundedMarket.SnapshotsCurrent :=
    ⟨fun i d hi hside => snaps d i (slots i hi) hi hside, fun d => by cases d <;> decide +kernel⟩
  have bound := (fundedMarket_reachable.accrual_zero_sum current ok settling fun i hi => by
    rcases used i (slots i hi) hi with rfl | rfl <;> simp).2 fun d => by cases d <;> decide +kernel
  exact ⟨_, _, settling, rfl, bound⟩

end ZeroSum

end Percolator
