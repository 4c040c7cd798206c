import Mathlib.Data.Rat.Floor
import Percolator.Wide.Settlement
import Percolator.Spec.Position
import Percolator.Laws.Order

/-!
Settlement: the limbs compute the exact floor, and settling more often never
pays.
-/

namespace Percolator

open Effect

/-! ### Exactness -/

/-- A computation on words answers the number `v` when its magnitude fits `i128`,
and the `Overflow` error when it does not. -/
structure Answers (m : Except Wide.Halt Wide.U128) (v : Int) : Prop where
  fits : (v.natAbs : Int) ≤ I128_MAX → ∃ d, m = .ok d ∧ d.toInt = v
  beyond : I128_MAX < (v.natAbs : Int) → m = .error .overflow

theorem Wide.Computes.answers {m : Except Wide.Halt Wide.U128} {v : Int}
    (h : Wide.Computes BitVec.toInt m (if (v.natAbs : Int) ≤ I128_MAX then some v else none)) :
    Answers m v := by
  constructor
  · intro hv
    rw [if_pos hv] at h
    generalize ho : some v = o at h
    cases h with
    | ok a => exact ⟨a, rfl, (Option.some.inj ho).symm⟩
    | overflow => cases ho
  · intro hv
    rw [if_neg (not_le.mpr hv)] at h
    cases h
    rfl

/-- The exact settlement of `abs_basis` between the snapshots and the indices. -/
def exactKfDelta (absBasis : Nat) (kSnap kNow fSnap fNow : Int) (den : Nat) : Int :=
  ⌊(absBasis * ((kNow - kSnap) * FUNDING_DEN + (fNow - fSnap)) / (den * FUNDING_DEN) : ℚ)⌋

theorem exactKfDelta_eq (absBasis : Nat) (kSnap kNow fSnap fNow : Int) (den : Nat) :
    exactKfDelta absBasis kSnap kNow fSnap fNow den =
      kfDelta absBasis (kNow - kSnap) (fNow - fSnap) den := by
  unfold exactKfDelta kfDelta
  rw [← Rat.floor_intCast_div_natCast]
  push_cast
  rfl

/-- The settlement between two indices of `i128`, and between indices that are
sums of two of them, is the exact floor; where that leaves `i128` it is an
`Overflow` error, and never a panic. -/
theorem settlement_exact {absBasis kSnap fSnap den : Wide.U128}
    (hbasis : absBasis.toNat ≤ MAX_POSITION_ABS_Q) (hden : den ≠ 0) :
    (∀ kNow fNow, Answers (Wide.computeKfPnlDelta absBasis kSnap kNow fSnap fNow den)
        (exactKfDelta absBasis.toNat kSnap.toInt kNow.toInt fSnap.toInt fNow.toInt den.toNat)) ∧
      ∀ (kNow fNow : Wide.I256) (k k' f f' : Wide.U128), kNow.value = k.toInt + k'.toInt →
        fNow.value = f.toInt + f'.toInt →
        Answers (Wide.computeKfPnlDeltaWide absBasis kSnap kNow fSnap fNow den)
          (exactKfDelta absBasis.toNat kSnap.toInt kNow.value fSnap.toInt fNow.value den.toNat) := by
  have wide (kNow fNow : Wide.I256) (k k' f f' : Wide.U128) (hk : kNow.value = k.toInt + k'.toInt)
      (hf : fNow.value = f.toInt + f'.toInt) :
      Answers (Wide.computeKfPnlDeltaWide absBasis kSnap kNow fSnap fNow den)
        (exactKfDelta absBasis.toNat kSnap.toInt kNow.value fSnap.toInt fNow.value den.toNat) := by
    have range (v : Wide.U128) : v.toInt.natAbs ≤ 2 ^ 127 := by
      have := v.isLt
      rcases Wide.I256.toInt_cases v with ⟨_, _, _⟩ | ⟨_, _, _⟩ <;> omega
    have pos : 0 < den.toNat := Nat.pos_of_ne_zero fun h => hden (Wide.toNat_eq_zero_iff.mp h)
    have computes := Wide.computeKfPnlDeltaWide_computes absBasis kSnap kNow fSnap fNow hden
    rw [computeKfPnlDeltaWide_eq hbasis pos
      (by have := den.isLt; unfold U128_MAX; omega)
      (by have := range k; have := range k'; have := range kSnap; omega)
      (by have := range f; have := range f'; have := range fSnap; omega)] at computes
    rw [exactKfDelta_eq]
    exact computes.answers
  refine ⟨fun kNow fNow => ?_, wide⟩
  have h := wide (.fromI128 kNow) (.fromI128 fNow) kNow 0 fNow 0 (by simp) (by simp)
  rwa [Wide.I256.fromI128_value, Wide.I256.fromI128_value] at h

theorem settlement_exact_floor : ∃ δ, Wide.computeKfPnlDelta 3 0 (-1) 0 0 2 = .ok δ ∧ δ.toInt = -2 := by
  have answers := (@settlement_exact 3 0 0 2 (by decide)
    (by decide)).1 (-1) 0
  have floor : exactKfDelta (3 : Wide.U128).toNat (0 : Wide.U128).toInt (-1 : Wide.U128).toInt
      (0 : Wide.U128).toInt (0 : Wide.U128).toInt (2 : Wide.U128).toNat = -2 := by
    rw [exactKfDelta_eq]
    decide
  rw [floor] at answers
  exact answers.fits (by decide)

/-! ### Touches -/

variable {s s' last : RiskEngine} {i n : Nat} {d : Side} {δ total : Int}

/-- Account `i`, on side `d` within the epoch of its position, was settled and
realized `δ`. -/
structure SettledWithin (i : Nat) (d : Side) (s : RiskEngine) (δ : Int) (s' : RiskEngine) : Prop where
  side : sideOfI128 (s.accounts i).positionBasisQ = some d
  epoch : (s.accounts i).adlEpochSnap = (s.sides d).adlEpoch
  live : s.marketMode = .live
  run : ∃ ctx ctx' l, AdmissionPair s.params ctx.admitHMinShared ctx.admitHMaxShared ∧
    settleSideEffectsLive i ctx s = .ok ctx' s' l
  realized : δ = (s'.accounts i).pnl - (s.accounts i).pnl

/-- `n` settlements of account `i` that realize `total`, the last of them in the
state `last`. Between two of them the indices of the side move in any way, and the
position stays as it is. -/
inductive TouchPath (i : Nat) (d : Side) : RiskEngine → RiskEngine → Nat → Int → Prop
  | once {s s' : RiskEngine} {δ : Int} (h : SettledWithin i d s δ s') : TouchPath i d s s 1 δ
  | again {s s' t last : RiskEngine} {n : Nat} {δ total : Int} (h : SettledWithin i d s δ s')
      (basis : (s'.accounts i).positionBasisQ = (s.accounts i).positionBasisQ)
      (aBasis : (s'.accounts i).adlABasis = (s.accounts i).adlABasis)
      (same : (s'.accounts i).SamePosition (t.accounts i)) (rest : TouchPath i d t last n total) :
      TouchPath i d s last (n + 1) (δ + total)

/-- The single delta from the snapshots of `i` in `s` to the indices of `last`. -/
def singleDelta (i : Nat) (d : Side) (s last : RiskEngine) : Int :=
  kfDelta (s.accounts i).positionBasisQ.natAbs ((last.sides d).adlCoeff - (s.accounts i).adlKSnap)
    ((last.sides d).fNum - (s.accounts i).fSnap) ((s.accounts i).adlABasis * POS_SCALE)

theorem settleSideEffectsLive_spec {ctx ctx' : InstructionContext} {l : List Event}
    (hok : settleSideEffectsLive i ctx s = .ok ctx' s' l)
    (hside : sideOfI128 (s.accounts i).positionBasisQ = some d) (hlive : s.marketMode = .live)
    (hpair : AdmissionPair s.params ctx.admitHMinShared ctx.admitHMaxShared) :
    0 < (s.accounts i).adlABasis ∧ SettleStep s s' i (ctx.admitHMinShared = 0) := by
  refine wp_sound
    (Q := fun _ s' _ => 0 < (s.accounts i).adlABasis ∧ SettleStep s s' i (ctx.admitHMinShared = 0)) hok ?_
  simp only [settleSideEffectsLive, wp_bind, wp_read, hside, wp_corruptIf, wp_ite, wp_lift, implies_true,
    true_and]
  refine fun hpos => ⟨fun hepoch => wp_ok fun _ _ _ h => ?_, fun hepoch => wp_ok fun _ _ _ h => ?_⟩
  · exact ⟨Nat.pos_of_ne_zero hpos, (settleCurrent_spec h hside hepoch hlive hpair).1⟩
  · exact ⟨Nat.pos_of_ne_zero hpos, (settleStale_spec h hside hepoch hlive hpair).1⟩

/-- One settlement realizes the single delta, and a position that goes on has the
indices for its new snapshots. -/
theorem SettledWithin.single (h : SettledWithin i d s δ s') :
    0 < (s.accounts i).adlABasis ∧ δ = singleDelta i d s s ∧
      ((s'.accounts i).positionBasisQ = (s.accounts i).positionBasisQ →
        (s'.accounts i).adlKSnap = (s.sides d).adlCoeff ∧ (s'.accounts i).fSnap = (s.sides d).fNum) := by
  obtain ⟨ctx, ctx', l, hpair, hok⟩ := h.run
  obtain ⟨hpos, d', δ', a', t', a'', f, hset⟩ := settleSideEffectsLive_spec hok h.side h.live hpair
  obtain rfl : d' = d := Option.some.inj (hset.side.symm.trans h.side)
  have basis_ne : (s.accounts i).positionBasisQ ≠ 0 := fun h0 => by
    have := sideOfI128_eq_none.mpr h0
    rw [h.side] at this
    cases this
  have account : s'.accounts i = a'' := by
    rw [hset.eq]
    simp
  have pnl_eq : a''.pnl = (s.accounts i).pnl + δ' := by
    rw [← hset.pnl.pnl_eq]
    cases hset.position <;> rfl
  refine ⟨hpos, ?_, fun kept => ?_⟩
  · rw [h.realized, account, pnl_eq, add_sub_cancel_left]
    have := hset.delta
    rw [Account.settlement, SideState.indices, if_pos h.epoch] at this
    exact computeKfPnlDeltaWide_some (Nat.mul_pos hpos (by decide)) this
  · rw [account] at kept ⊢
    have epoch' : a'.adlEpochSnap = (s.accounts i).adlEpochSnap := hset.pnl.same.position.2.2.2.2
    cases hset.position with
    | kept _ _ => exact ⟨rfl, rfl⟩
    | dusted _ _ _ _ => exact absurd kept.symm basis_ne
    | stale _ _ _ next _ _ =>
        rw [epoch', h.epoch] at next
        omega

/-- Touching more often never gains, and loses at most one atom a touch. -/
theorem TouchPath.never_pays (h : TouchPath i d s last n total) :
    singleDelta i d s last - (n - 1) ≤ total ∧ total ≤ singleDelta i d s last := by
  induction h with
  | once h =>
      rw [h.single.2.1]
      omega
  | @again s s' t last n δ total h basis aBasis same rest ih =>
      obtain ⟨hpos, rfl, snaps⟩ := h.single
      obtain ⟨k_snap, f_snap⟩ := snaps basis
      obtain ⟨same_basis, same_a, same_k, same_f, -⟩ := same
      have split := kfDelta_add (s.accounts i).positionBasisQ.natAbs ((s.accounts i).adlABasis * POS_SCALE)
        ((s.sides d).adlCoeff - (s.accounts i).adlKSnap) ((last.sides d).adlCoeff - (s.sides d).adlCoeff)
        ((s.sides d).fNum - (s.accounts i).fSnap) ((last.sides d).fNum - (s.sides d).fNum)
        (Nat.mul_pos hpos (by decide))
      rw [add_comm ((s.sides d).adlCoeff - _), sub_add_sub_cancel, add_comm ((s.sides d).fNum - _),
        sub_add_sub_cancel] at split
      have later : singleDelta i d t last =
          kfDelta (s.accounts i).positionBasisQ.natAbs ((last.sides d).adlCoeff - (s.sides d).adlCoeff)
            ((last.sides d).fNum - (s.sides d).fNum) ((s.accounts i).adlABasis * POS_SCALE) := by
        rw [singleDelta, same_basis, basis, same_a, aBasis, same_k, k_snap, same_f, f_snap]
      rw [later] at ih
      unfold singleDelta at *
      push_cast
      omega

/-- The deltas of `n` touches add up to the delta `D` of a single settlement at the
last point, less at most one atom for each touch but one. `D` is what that
settlement answers, and the exact floor where the answer would not fit. -/
theorem TouchPath.splitting_never_pays (h : TouchPath i d s last n total) :
    ∃ D, D = exactKfDelta (s.accounts i).positionBasisQ.natAbs (s.accounts i).adlKSnap
        (last.sides d).adlCoeff (s.accounts i).fSnap (last.sides d).fNum
        ((s.accounts i).adlABasis * POS_SCALE) ∧
      (∀ answer, computeKfPnlDelta (s.accounts i).positionBasisQ.natAbs (s.accounts i).adlKSnap
        (last.sides d).adlCoeff (s.accounts i).fSnap (last.sides d).fNum
        ((s.accounts i).adlABasis * POS_SCALE) = some answer → answer = D) ∧
      D - (n - 1) ≤ total ∧ total ≤ D := by
  have hpos : 0 < (s.accounts i).adlABasis := by
    cases h with
    | once h => exact h.single.1
    | again h _ _ _ _ => exact h.single.1
  refine ⟨singleDelta i d s last, (exactKfDelta_eq ..).symm, fun answer hanswer => ?_, h.never_pays⟩
  exact computeKfPnlDeltaWide_some (Nat.mul_pos hpos (by decide)) hanswer

/-- Account 1 of the moved market, settled once. -/
def settledMarket : RiskEngine :=
  (settleSideEffectsLive 1 (.newWithAdmission 10 100) movedMarket).final

/-- The same market after the price has moved on. -/
def resettledMarket : RiskEngine := performAll settledMarket [.accrueMarketTo 160 1007 0]

theorem movedMarket_splitting_never_pays : ∃ total D, TouchPath 1 .long movedMarket resettledMarket 2 total ∧
    D - ((2 : Nat) - 1) ≤ total ∧ total ≤ D := by
  obtain ⟨c₁, l₁, h₁⟩ := Outcome.eq_ok
    (o := settleSideEffectsLive 1 (.newWithAdmission 10 100) movedMarket) (by decide +kernel)
  obtain ⟨c₂, l₂, h₂⟩ := Outcome.eq_ok
    (o := settleSideEffectsLive 1 (.newWithAdmission 10 100) resettledMarket) (by decide +kernel)
  have path : TouchPath 1 .long movedMarket resettledMarket (1 + 1) _ :=
    .again ⟨by decide +kernel, by decide +kernel, by decide +kernel, ⟨_, _, _, by decide +kernel, h₁⟩, rfl⟩
      (by decide +kernel) (by decide +kernel) (t := resettledMarket)
      ⟨by decide +kernel, by decide +kernel, by decide +kernel, by decide +kernel, by decide +kernel⟩
      (.once ⟨by decide +kernel, by decide +kernel, by decide +kernel, ⟨_, _, _, by decide +kernel, h₂⟩, rfl⟩)
  obtain ⟨D, -, -, bounds⟩ := path.splitting_never_pays
  exact ⟨_, D, path, bounds⟩

end Percolator
