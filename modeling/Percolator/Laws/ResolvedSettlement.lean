import Percolator.Laws.Resolution
import Percolator.Laws.Settlement
import Percolator.Laws.Settling

/-!
Resolved settlement equals live settlement at the resolution price.

A resolution accrues to the live price and keeps the move from there to the resolution price apart,
as the terminal delta of each side; the live market would accrue that move into the index. A side
that holds a position of its epoch has open interest, so the live mark reaches it, and both ways a
position is settled by one floor of one sum. The resolved market keeps what the settlement reads
until the position is reconciled, whatever it does before.
-/

namespace Percolator

open Effect

variable {s s₁ s₂ s₃ s' r r' u v w : RiskEngine} {i now price resolvedPrice livePrice : Nat} {d : Side} {rate δ : Int}
  {l : List Event}

/-! ### Resolution -/

theorem checkedU128MulI128_eq {a : Nat} {b c : Int} (h : checkedU128MulI128 a b = some c) : c = a * b := by
  unfold checkedU128MulI128 at h
  split_ifs at h with zero
  · obtain rfl := Option.some.inj h
    rcases zero with rfl | rfl
    · simp
    · simp
  · exact (Option.some.inj h).symm

/-- What a resolved market settles the positions of a side against. -/
structure SettlesAt (v : SideState) (epoch : Nat) (k f : Int) : Prop where
  epoch : v.adlEpoch = epoch
  k : v.adlEpochStartK + v.resolvedKTerminalDelta = k
  f : v.fEpochStartNum = f

/-- The indices after the live part of a resolution are those of the live accrual. -/
theorem resolveLivePart_indices {mode : ResolveMode} {s₀ : RiskEngine}
    (part : Runs (resolveLivePart mode resolvedPrice livePrice now rate) s () s₀)
    (accrue : accrueMarketTo now livePrice rate s = .ok () s₁ l) :
    s₀.accounts = s.accounts ∧ s₀.isUsed = s.isUsed ∧ ∀ d, s₀.sides d = s₁.sides d := by
  obtain ⟨l', hok⟩ := part
  obtain ⟨-, accounts, isUsed, -, sides⟩ := accrueMarketTo_sides accrue
  set P : RiskEngine → Prop := fun s₀ => s₀.accounts = s.accounts ∧ s₀.isUsed = s.isUsed ∧
    ∀ d, s₀.sides d = s₁.sides d with hP
  refine wp_sound (Q := fun _ s₀ _ => P s₀) hok ?_
  cases mode with
  | degenerate =>
      simp only [resolveLivePart, wp_bind, wp_read, wp_rejectIf, wp_update, implies_true, true_and, not_not]
      rintro samePrice rfl
      refine ⟨rfl, rfl, fun d => ?_⟩
      have marked : (s.sides d).marked d (livePrice - s.lastOraclePrice) = 0 := by
        simp [SideState.marked, samePrice]
      have funded : s.funded d (s.fundPxLast * 0 * (now - s.lastMarketSlot : Nat)) = 0 := by
        simp [RiskEngine.funded]
      rw [sides d, marked, funded, add_zero, sub_zero]
      rfl
  | ordinary =>
      simp only [resolveLivePart, wp_bind, wp_read, wp_rejectIf, wp_orErr, implies_true, true_and]
      refine wp_ok fun _ s₂ l₂ accrue' _ _ _ _ _ => ?_
      obtain ⟨-, rfl, -⟩ := Outcome.ok.inj (accrue.symm.trans accrue')
      exact ⟨accounts, isUsed, fun _ => rfl⟩

/-- A resolved market settles the positions of a running side against the live indices and the move to the
resolution price. -/
theorem resolveMarket_settlesAt {mode : ResolveMode} {l' : List Event}
    (resolve : resolveMarket mode resolvedPrice livePrice now rate s = .ok () r l')
    (accrue : accrueMarketTo now livePrice rate s = .ok () s₁ l) (running : (s₁.sides d).sideMode ≠ .resetPending) :
    r.marketMode = .resolved ∧ r.accounts = s.accounts ∧ r.isUsed = s.isUsed ∧
      SettlesAt (r.sides d) ((s₁.sides d).adlEpoch + 1)
        ((s₁.sides d).adlCoeff + d.sign * ((s₁.sides d).adlMult * ((resolvedPrice : Int) - livePrice)))
        (s₁.sides d).fNum := by
  set P : RiskEngine → Prop := fun r => r.marketMode = .resolved ∧ r.accounts = s.accounts ∧ r.isUsed = s.isUsed ∧
      SettlesAt (r.sides d) ((s₁.sides d).adlEpoch + 1)
        ((s₁.sides d).adlCoeff + d.sign * ((s₁.sides d).adlMult * ((resolvedPrice : Int) - livePrice)))
        (s₁.sides d).fNum with hP
  refine wp_sound (Q := fun _ r _ => P r) resolve ?_
  simp only [resolveMarket, wp_bind, wp_read, wp_lift, wp_rejectIf, wp_orErr, wp_update, implies_true, true_and]
  refine fun _ _ _ _ _ => wp_ok fun _ s₀ l₀ part kLong hLong kShort hShort => ?_
  obtain ⟨accounts, isUsed, sides⟩ := resolveLivePart_indices ⟨_, part⟩ accrue
  refine wp_ok fun _ t₁ k₁ h₁ => wp_ok fun _ t₂ k₂ h₂ => wp_ok fun _ t₃ k₃ h₃ => wp_ok fun _ t₄ k₄ h₄ _ => ?_
  have resets : Runs (drainSide .long >>= fun _ => drainSide .short >>= fun _ => reopenSide .long >>= fun _ =>
      reopenSide .short) _ () t₄ := Runs.bind ⟨_, h₁⟩ (Runs.bind ⟨_, h₂⟩ (Runs.bind ⟨_, h₃⟩ ⟨_, h₄⟩))
  obtain ⟨k, resets⟩ := resets
  obtain ⟨rfl, -, -⟩ := resetSides_spec resets
  refine wp_ok fun _ t₅ k₅ post => ?_
  obtain rfl := assertPublicPostconditions_same post
  refine ⟨rfl, accounts, isUsed, ?_⟩
  rw [← sides d] at running ⊢
  have settled {kDelta : Side → Int} (hk : kDelta d = d.sign * ((s₀.sides d).adlMult * ((resolvedPrice : Int) - livePrice))) :
      SettlesAt (((s₀.enterResolved resolvedPrice livePrice now kDelta).sides d).finalized true)
        ((s₀.sides d).adlEpoch + 1) ((s₀.sides d).adlCoeff + d.sign * ((s₀.sides d).adlMult *
          ((resolvedPrice : Int) - livePrice))) (s₀.sides d).fNum := by
    have drains : ((s₀.enterResolved resolvedPrice livePrice now kDelta).sides d).Drains true := ⟨rfl, running⟩
    rw [SideState.finalized, if_pos drains, SideState.reopened_eq]
    exact ⟨rfl, congrArg ((s₀.sides d).adlCoeff + ·) hk, rfl⟩
  refine settled ?_
  unfold resolvedKDelta at hLong hShort
  cases d with
  | long =>
      rw [if_neg running] at hLong
      exact (checkedU128MulI128_eq hLong).trans (by simp [Side.sign])
  | short =>
      rw [if_neg running] at hShort
      refine (checkedU128MulI128_eq hShort).trans ?_
      simp only [Side.sign]
      ring

/-! ### The resolved market -/

/-- What a resolved market keeps for a position until it is reconciled. -/
structure Awaits (a : Account) (i : Nat) (d : Side) (epoch : Nat) (k f : Int) (s : RiskEngine) : Prop where
  mode : s.marketMode = .resolved
  indices : SettlesAt (s.sides d) epoch k f
  position : (s.accounts i).positionBasisQ = 0 ∨ a.SamePosition (s.accounts i)

theorem SettlesAt.reseat {w : SideState} {epoch : Nat} {k f : Int} (h : SettlesAt w epoch k f) (c : Seats) :
    SettlesAt (w.withSeats c) epoch k f := ⟨h.epoch, h.k, h.f⟩

theorem SettlesAt.reopened {w : SideState} {epoch : Nat} {k f : Int} (h : SettlesAt w epoch k f) :
    SettlesAt w.reopened epoch k f := by
  rw [SideState.reopened_eq]
  exact ⟨h.epoch, h.k, h.f⟩

section Awaits

variable {a b : Account} {epoch j : Nat} {k f : Int}

/-- Writing an account that keeps its position or is flat. -/
theorem Awaits.put {t : RiskEngine} (h : Awaits a i d epoch k f s) (mode : t.marketMode = s.marketMode)
    (sides : t.sides = s.sides) (accounts : t.accounts = Percolator.put s.accounts j b)
    (kept : b.positionBasisQ = 0 ∨ (s.accounts j).SamePosition b) : Awaits a i d epoch k f t := by
  refine ⟨mode.trans h.mode, by rw [sides]; exact h.indices, ?_⟩
  rw [accounts]
  by_cases hij : i = j
  · subst hij
    rw [put_same]
    rcases kept with flat | same
    · exact .inl flat
    · rcases h.position with flat | position
      · exact .inl (same.1.trans flat)
      · exact .inr (position.trans same)
  · rw [put_other _ _ hij]
    exact h.position

/-- Every step of a resolved market keeps it. -/
theorem Step.awaits {sc : Scope} {c c' : Conf} (step : Step sc c l c') (h : Awaits a i d epoch k f c.engine) :
    Awaits a i d epoch k f c'.engine := by
  have mode := h.mode
  cases step with
  | noted | funded | clocked | checked | captured => exact ⟨h.mode, h.indices, h.position⟩
  | reopened => exact ⟨h.mode, h.indices.reopened, h.position⟩
  | booked used reach entry => exact h.put rfl rfl rfl (.inr entry.exact.position)
  | charged used reach allowed charge => exact h.put rfl rfl rfl (.inr charge.exact.position)
  | forgave used reach calm forgiven => exact h.put rfl rfl rfl (.inr forgiven.exact.position)
  | @relabeled s ph j b used reach same slot =>
      exact h.put (t := s.setAccount j b) rfl rfl rfl (.inr (by rw [same]; exact .refl _))
  | @freed s s' ph j allowed reach charges clean freed =>
      refine h.put (j := j) (b := emptyAccount) ?_ ?_ ?_ (.inl rfl)
      · show s'.swept.marketMode = s.marketMode
        rw [RiskEngine.swept_eq, freed.eq]
        rfl
      · show s'.swept.sides = s.sides
        rw [RiskEngine.swept_eq, freed.eq]
        rfl
      · show s'.swept.accounts = _
        rw [RiskEngine.swept_eq, freed.eq]
        rfl
  | @wiped s ph j used reach mode' =>
      exact h.put (t := s.setAccount j (s.accounts j).clearReserve) rfl rfl rfl (.inr (.refl _))
  | @reconciled s s' ph j e v t' n m used reach mode' reconciled =>
      rw [reconciled.eq]
      refine ⟨h.mode, h.indices.reseat _, ?_⟩
      by_cases hij : i = j
      · subst hij
        left
        rw [RiskEngine.reseat_accounts, put_same]
        rfl
      · simp only [RiskEngine.reseat_accounts, RiskEngine.rebook_accounts, put_other _ _ hij]
        exact h.position
  | @paid s s' ph j y used reach allowed mode' paid =>
      rw [paid.eq]
      exact h.put (t := s.rebook j _ _) rfl rfl rfl (.inr (.refl _))
  | accrued rest fresh live => exact absurd (mode.symm.trans live) (by rintro ⟨⟩)
  | settled used reach touched live => exact absurd (mode.symm.trans live) (by rintro ⟨⟩)
  | slipped legs used reach allowed live => exact absurd (mode.symm.trans live) (by rintro ⟨⟩)
  | traded usedA usedB reachA reachB allowedA allowedB touchedA touchedB live =>
      exact absurd (mode.symm.trans live) (by rintro ⟨⟩)
  | closed allowed used reach touched live => exact absurd (mode.symm.trans live) (by rintro ⟨⟩)
  | deleveraged marks used live => exact absurd (mode.symm.trans live) (by rintro ⟨⟩)
  | reset live => exact absurd (mode.symm.trans live) (by rintro ⟨⟩)
  | materialized allowed reach live => exact absurd (mode.symm.trans live) (by rintro ⟨⟩)
  | resolved price live now kDelta allowed rest mode' => exact absurd (mode.symm.trans mode') (by rintro ⟨⟩)

theorem Awaits.performed {ls : List (Instruction × List Event)} (h : Awaits a i d epoch k f s)
    (good : Good ⟨s, .idle⟩) (next : Performed s ls s') : Awaits a i d epoch k f s' := by
  cases next with
  | rolledBack fault => exact h
  | committed ok =>
      obtain ⟨ph, course, -⟩ := good.committed ok
      exact course.run.invariant (I := fun c => Awaits a i d epoch k f c.engine) (fun _ _ _ h step => step.awaits h) h

/-- So does every run of operations. -/
theorem Awaits.history {ls : List (Instruction × List Event)} (h : Awaits a i d epoch k f s)
    (good : Good ⟨s, .idle⟩) (history : History s ls s') : Awaits a i d epoch k f s' :=
  (history.invariant (I := fun s => Awaits a i d epoch k f s ∧ Good ⟨s, .idle⟩)
    (fun _ _ _ h next => ⟨h.1.performed h.2 next, h.2.performed next⟩) ⟨h, good⟩).1

end Awaits

/-! ### Reconciliation -/

/-- The parts of a reconciliation of account `i`, on side `d`: its position is settled from `u` to `v`, and
what it owes after that is settled and written off. -/
structure ReconcileParts (i : Nat) (d : Side) (r u v w r' : RiskEngine) : Prop where
  entered : u = (r.withCurrentSlot r.resolvedSlot).setAccount i (r.accounts i).clearReserve
  position : Runs (reconcilePosition i d) u () v
  losses : Runs (settleLosses i) v () w
  forgiven : Runs (resolveFlatNegative i) w () r'

theorem reconcileResolved_parts (side : sideOfI128 (r.accounts i).positionBasisQ = some d)
    (hok : Percolator.reconcileResolved i r = .ok () r' l) :
    r.marketMode = .resolved ∧ ∃ u v w, ReconcileParts i d r u v w r' := by
  set P : RiskEngine → Prop := fun r' => r.marketMode = .resolved ∧ ∃ u v w, ReconcileParts i d r u v w r' with hP
  refine wp_sound (Q := fun _ r' _ => P r') hok ?_
  simp only [Percolator.reconcileResolved, prepareAccountForResolvedTouch, wp_bind, wp_read, wp_lift, wp_rejectIf,
    wp_update, wp_writeAccount, side, implies_true, true_and, not_not]
  intro mode _
  refine wp_ok fun _ v l₁ position => wp_ok fun _ w l₂ losses => wp_ok fun _ x l₃ forgiven => wp_ok fun _ y l₄ post => ?_
  obtain rfl := assertPublicPostconditions_same post
  exact ⟨mode, _, v, w, rfl, ⟨_, position⟩, ⟨_, losses⟩, ⟨_, forgiven⟩⟩

theorem reconcilePosition_realizes {epoch : Nat} {k f : Int} (mode : u.marketMode = .resolved)
    (settles : SettlesAt (u.sides d) epoch k f) (hok : reconcilePosition i d u = .ok () v l) :
    (v.accounts i).pnl - (u.accounts i).pnl = kfDelta (u.accounts i).positionBasisQ.natAbs
      (k - (u.accounts i).adlKSnap) (f - (u.accounts i).fSnap) ((u.accounts i).adlABasis * POS_SCALE) := by
  set D := kfDelta (u.accounts i).positionBasisQ.natAbs (k - (u.accounts i).adlKSnap) (f - (u.accounts i).fSnap)
    ((u.accounts i).adlABasis * POS_SCALE) with hD
  refine wp_sound (Q := fun _ v _ => (v.accounts i).pnl - (u.accounts i).pnl = D) hok ?_
  simp only [reconcilePosition, wp_bind, wp_read, wp_rejectIf, wp_orErr, wp_writeSide, wp_writeAccount,
    implies_true, true_and, not_not]
  intro aBasis den hden _ _ _ kTerminal hk pnlDelta hdelta newPnl hnew _
  refine wp_ok fun _ s₁ l₁ h₁ stale _ => wp_ok fun _ s₂ l₂ h₂ => ?_
  obtain ⟨newPnl_eq, -⟩ := toI128_eq hnew
  have kTerminal_eq : kTerminal = k := (toI256_eq hk).trans settles.k
  have pnlDelta_eq : pnlDelta = D := by
    have pos : 0 < (u.accounts i).adlABasis * POS_SCALE := Nat.mul_pos (Nat.pos_of_ne_zero aBasis) (by decide)
    rw [checkedMulU128_eq hden] at hdelta
    rw [computeKfPnlDeltaWide_some pos hdelta, kTerminal_eq, settles.f]
  obtain ⟨t', rfl, -, -, -⟩ := reconcilePnl_spec mode newPnl_eq h₁
  obtain ⟨n, rfl, -, -⟩ := setPositionBasisQ_spec h₂
  simp only [RiskEngine.setAccount_accounts, RiskEngine.reseat_accounts, RiskEngine.setSide_accounts,
    RiskEngine.rebook_accounts, put_same]
  show newPnl - _ = D
  rw [newPnl_eq, add_sub_cancel_left, pnlDelta_eq]

/-- Before a position is reconciled, the market keeps what its reconciliation settles it against. -/
theorem Awaits.realizes {epoch : Nat} {k f : Int} {a : Account} (h : Awaits a i d epoch k f r)
    (waiting : (r.accounts i).positionBasisQ ≠ 0) (parts : ReconcileParts i d r u v w r') :
    (v.accounts i).pnl - (u.accounts i).pnl =
      kfDelta a.positionBasisQ.natAbs (k - a.adlKSnap) (f - a.fSnap) (a.adlABasis * POS_SCALE) := by
  obtain ⟨l, position⟩ := parts.position
  obtain ⟨basis, aBasis, kSnap, fSnap, -⟩ := h.position.resolve_left waiting
  obtain rfl := parts.entered
  have realized := reconcilePosition_realizes (u := (r.withCurrentSlot r.resolvedSlot).setAccount i
    (r.accounts i).clearReserve) h.mode h.indices position
  rw [RiskEngine.setAccount_accounts, put_same] at realized ⊢
  rw [realized]
  show kfDelta (r.accounts i).positionBasisQ.natAbs (k - (r.accounts i).adlKSnap) (f - (r.accounts i).fSnap)
    ((r.accounts i).adlABasis * POS_SCALE) = _
  rw [basis, aBasis, kSnap, fSnap]

/-! ### Settlement of the live market -/

theorem accrueMarketTo_price (hok : accrueMarketTo now price rate s = .ok () s' l) : s'.lastOraclePrice = price := by
  obtain ⟨-, ⟨-, same, rfl⟩ | ⟨k, f, -, rfl⟩⟩ := accrueMarketTo_inv hok
  · exact same
  · rfl

/-- The live market that accrues from `livePrice` to `resolvedPrice` without funding settles a position against
the live indices and the move between the prices. -/
theorem SettledWithin.after_move {later : Nat} {l' : List Event} (accrue : accrueMarketTo now livePrice rate s = .ok () s₁ l)
    (move : accrueMarketTo later resolvedPrice 0 s₁ = .ok () s₂ l') (oi : (s.sides d).oiEffQ ≠ 0)
    (settled : SettledWithin i d s₂ δ s₃) :
    δ = kfDelta (s.accounts i).positionBasisQ.natAbs
      ((s₁.sides d).adlCoeff + d.sign * ((s₁.sides d).adlMult * ((resolvedPrice : Int) - livePrice)) -
        (s.accounts i).adlKSnap)
      ((s₁.sides d).fNum - (s.accounts i).fSnap) ((s.accounts i).adlABasis * POS_SCALE) := by
  obtain ⟨-, single, -⟩ := settled.single
  obtain ⟨-, accounts₁, -, -, sides₁⟩ := accrueMarketTo_sides accrue
  obtain ⟨-, accounts₂, -, -, sides₂⟩ := accrueMarketTo_sides move
  have oi₁ : (s₁.sides d).oiEffQ ≠ 0 := by rw [sides₁ d]; exact oi
  have marked : (s₁.sides d).marked d (resolvedPrice - s₁.lastOraclePrice) =
      d.sign * ((s₁.sides d).adlMult * ((resolvedPrice : Int) - livePrice)) := by
    rw [SideState.marked, if_pos oi₁, accrueMarketTo_price accrue]
  have funded : s₁.funded d (s₁.fundPxLast * 0 * (later - s₁.lastMarketSlot : Nat)) = 0 := by
    simp [RiskEngine.funded]
  rw [single, singleDelta, accounts₂, accounts₁, sides₂ d, marked, funded, sub_zero]
  rfl

/-- Resolved settlement equals live settlement at the resolution price. What a reconciliation realizes from
a position, whatever the resolved market did before, is what the market accrued to the live price and then to the
resolution price would realize from it. -/
theorem Reachable.resolved_settles_as_live {mode : ResolveMode} {now : UInt64} {later : Nat}
    {ctx ctx' : InstructionContext} {ls : List (Instruction × List Event)} {l₁ l₂ l₃ l₄ l₅ : List Event}
    (h : Reachable s) (side : sideOfI128 (s.accounts i).positionBasisQ = some d)
    (running : (s.sides d).sideMode ≠ .resetPending)
    (resolve : (Instruction.resolveMarket mode resolvedPrice livePrice now rate).run s = .ok () u l₁)
    (history : History u ls r) (waiting : (r.accounts i).positionBasisQ ≠ 0)
    (reconcile : Percolator.reconcileResolved i r = .ok () r' l₂)
    (accrue : accrueMarketTo now.toNat livePrice rate s = .ok () s₁ l₃)
    (move : accrueMarketTo later resolvedPrice 0 s₁ = .ok () s₂ l₄)
    (pair : AdmissionPair s₂.params ctx.admitHMinShared ctx.admitHMaxShared)
    (settle : settleSideEffectsLive i ctx s₂ = .ok ctx' s₃ l₅) :
    ∃ v w x, ReconcileParts i d r v w x r' ∧
      (w.accounts i).pnl - (v.accounts i).pnl = (s₃.accounts i).pnl - (s₂.accounts i).pnl := by
  obtain ⟨allowed, -⟩ := accrueMarketTo_inv accrue
  have used : s.isUsed i = true := by
    by_contra unused
    rw [h.vacant i (by simpa using unused)] at side
    cases side
  obtain ⟨epoch, oi⟩ := (h.good.positions allowed.live).oi_pos used side running
  obtain ⟨live, accounts₁, -, -, sides₁⟩ := accrueMarketTo_sides accrue
  obtain ⟨-, accounts₂, -, -, sides₂⟩ := accrueMarketTo_sides move
  have running₁ : (s₁.sides d).sideMode ≠ .resetPending := by rw [sides₁ d]; exact running
  obtain ⟨resolved, accounts, -, settles⟩ := resolveMarket_settlesAt resolve accrue running₁
  have awaits : Awaits (s.accounts i) i d _ _ _ u := ⟨resolved, settles, .inr (by rw [accounts]; exact .refl _)⟩
  have good : Good ⟨u, .idle⟩ := h.good.performed (.committed resolve)
  have awaits' := awaits.history good history
  obtain ⟨basis, -⟩ := awaits'.position.resolve_left waiting
  obtain ⟨-, v, w, x, parts⟩ := reconcileResolved_parts (by rw [basis]; exact side) reconcile
  have within : SettledWithin i d s₂ ((s₃.accounts i).pnl - (s₂.accounts i).pnl) s₃ := by
    refine ⟨by rw [accounts₂, accounts₁]; exact side, ?_, ?_, ⟨ctx, ctx', l₅, pair, settle⟩, rfl⟩
    · rw [accounts₂, accounts₁, sides₂ d, sides₁ d]
      exact epoch
    · exact (accrueMarketTo_sides move).1
  refine ⟨v, w, x, parts, ?_⟩
  rw [awaits'.realizes waiting parts, within.after_move accrue move oi]

/-- The traded market, resolved at 1010 against a live price of 1005. -/
def shiftedMarket : RiskEngine :=
  ((Instruction.resolveMarket .ordinary 1010 1005 150 0).run tradedMarket).final

/-- The same market accrued to both prices. -/
def shiftedLive : RiskEngine :=
  (accrueMarketTo 150 1010 0 (accrueMarketTo 150 1005 0 tradedMarket).final).final

theorem shiftedMarket_settles_as_live : ∃ r' v w x, ∃ s₃ : RiskEngine, ReconcileParts 1 .long shiftedMarket v w x r' ∧
    (w.accounts 1).pnl - (v.accounts 1).pnl = (s₃.accounts 1).pnl - (shiftedLive.accounts 1).pnl := by
  obtain ⟨_, _, resolve⟩ := Outcome.eq_ok
    (o := (Instruction.resolveMarket .ordinary 1010 1005 150 0).run tradedMarket) (by decide +kernel)
  obtain ⟨_, _, reconcile⟩ := Outcome.eq_ok (o := Percolator.reconcileResolved 1 shiftedMarket) (by decide +kernel)
  obtain ⟨_, _, accrue⟩ := Outcome.eq_ok (o := accrueMarketTo 150 1005 0 tradedMarket) (by decide +kernel)
  obtain ⟨_, _, move⟩ := Outcome.eq_ok
    (o := accrueMarketTo 150 1010 0 (accrueMarketTo 150 1005 0 tradedMarket).final) (by decide +kernel)
  obtain ⟨_, _, settle⟩ := Outcome.eq_ok
    (o := settleSideEffectsLive 1 (.newWithAdmission 10 100) shiftedLive) (by decide +kernel)
  obtain ⟨v, w, x, parts, same⟩ := tradedMarket_reachable.resolved_settles_as_live (d := .long) (by decide +kernel)
    (by decide +kernel) resolve (.refl _) (by decide +kernel) reconcile accrue move (by decide +kernel) settle
  exact ⟨_, v, w, x, _, parts, same⟩

end Percolator
