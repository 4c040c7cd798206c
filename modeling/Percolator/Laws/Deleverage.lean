import Percolator.Laws.Settling
import Percolator.Laws.Sides

/-!
ADL: a deficit is taken off the accounts of the opposing side in full and by their
exact shares, and the index it is written to keeps room for every later mark.
-/

namespace Percolator

open Effect Finset

variable {s s' last : RiskEngine} {l : List Event} {i j : Nat} {d liq : Side} {ctx ctx' : InstructionContext}
  {q deficit : Nat} {deltas : List (Nat × Int)}

/-- A state that an operation on a reachable market passes through. -/
def Underway (s : RiskEngine) : Prop :=
  ∃ (s₀ : RiskEngine) (sc : Scope) (l : List Event) (ph : Phase),
    Reachable s₀ ∧ Run (Step sc) ⟨s₀, .idle⟩ l ⟨s, ph⟩

theorem Reachable.underway (h : Reachable s) : Underway s := ⟨s, .none, [], .idle, h, .refl _⟩

theorem Underway.good (h : Underway s) : ∃ ph, Good ⟨s, ph⟩ := by
  obtain ⟨s₀, sc, l, ph, reachable, run⟩ := h
  exact ⟨ph, run.invariant (I := Good) (fun _ _ _ good step => good.step step) reachable.good⟩

/-! ### What ADL writes -/

/-- What ADL leaves alone on a side. -/
structure AdlFrame (v w : SideState) : Prop where
  epoch : w.adlEpoch = v.adlEpoch
  fund : w.fNum = v.fNum
  startK : w.adlEpochStartK = v.adlEpochStartK
  startF : w.fEpochStartNum = v.fEpochStartNum
  stored : w.storedPosCount = v.storedPosCount
  mult_le : w.adlMult ≤ v.adlMult
  mode : w.sideMode = v.sideMode ∨ w.sideMode = .drainOnly

theorem AdlFrame.refl (v : SideState) : AdlFrame v v := ⟨rfl, rfl, rfl, rfl, rfl, le_rfl, .inl rfl⟩

theorem AdlFrame.trans {u v w : SideState} (h : AdlFrame u v) (h' : AdlFrame v w) : AdlFrame u w := by
  refine ⟨h'.epoch.trans h.epoch, h'.fund.trans h.fund, h'.startK.trans h.startK, h'.startF.trans h.startF,
    h'.stored.trans h.stored, h'.mult_le.trans h.mult_le, ?_⟩
  rcases h'.mode with hw | hw
  · exact h.mode.imp hw.trans hw.trans
  · exact .inr hw

/-- The deficit `dRem` was written to K of a side: `k` is its share of one unit of
the open interest, rounded up, and the new index keeps room for one mark. -/
structure DeficitWritten (v : SideState) (dRem k : Nat) : Prop where
  pos : 0 < dRem
  open_pos : 0 < v.oiEffQ
  share : k = ceilDiv (dRem * (v.adlMult * POS_SCALE)) v.oiEffQ
  headroom : ((v.adlCoeff - k).natAbs + v.adlMult * MAX_ORACLE_PRICE : Int) ≤ I128_MAX

theorem adlHeadroom_eq {k newK : Int} {a delta : Nat} (h : adlHeadroom k a delta = some newK) :
    newK = k - delta ∧ (newK.natAbs + a * MAX_ORACLE_PRICE : Int) ≤ I128_MAX := by
  simp only [adlHeadroom, Option.bind_eq_bind, Option.bind_eq_some_iff] at h
  obtain ⟨x, hx, mark, hm, budget, hb, h⟩ := h
  split_ifs at h with hle
  obtain rfl := Option.some.inj h
  obtain ⟨rfl, -⟩ := toI128_eq hx
  refine ⟨rfl, ?_⟩
  have product := checkedMulU256_eq hm
  have := checkedSub_eq hb
  have cast : (a * MAX_ORACLE_PRICE : Int) = (mark : Nat) := by rw [← product]; push_cast; rfl
  rw [cast]
  unfold I128_MAX at *
  omega

/-- The side with `k` taken off its K index. -/
def SideState.burdened (v : SideState) (k : Nat) : SideState := { v with adlCoeff := v.adlCoeff - k }

/-- Step 7 leaves everything, or writes the deficit to K. -/
theorem socializeDeficit_inv {dRem k : Nat}
    (hok : socializeDeficit d (s.sides d).oiEffQ dRem s = .ok k s' l) (hoi : 0 < (s.sides d).oiEffQ) :
    s' = s ∨ DeficitWritten (s.sides d) dRem k ∧ s' = s.setSide d ((s.sides d).burdened k) := by
  set P : Nat → RiskEngine → Prop := fun k s' => s' = s ∨
    DeficitWritten (s.sides d) dRem k ∧ s' = s.setSide d ((s.sides d).burdened k) with hP
  refine wp_sound (Q := fun k s' _ => P k s') hok ?_
  simp only [socializeDeficit, wp_bind, wp_read, wp_ite, wp_pure, wp_orErr, wp_expect, implies_true,
    true_and]
  refine ⟨fun _ => .inl rfl, fun hpos aPs haPs delta hdelta => ?_⟩
  obtain rfl := checkedMulU128_eq haPs
  cases delta with
  | overI128Magnitude => exact wp_pure.mpr (.inl rfl)
  | fits k =>
      dsimp only
      cases h : adlHeadroom (s.sides d).adlCoeff (s.sides d).adlMult k with
      | none => exact wp_pure.mpr (.inl rfl)
      | some newK =>
          obtain ⟨rfl, headroom⟩ := adlHeadroom_eq h
          simp only [wp_bind, wp_writeSide, wp_pure]
          refine .inr ⟨⟨Nat.pos_of_ne_zero hpos, hoi, ?_, headroom⟩, rfl⟩
          unfold wideMulDivCeilU128OrOverI128max at hdelta
          split_ifs at hdelta
          · simpa using hdelta.symm
          · cases hdelta

/-- What a part of ADL that does not write K leaves. -/
structure AdlKept (s s' : RiskEngine) (liq : Side) : Prop where
  eq : s' = { s with sides := s'.sides }
  side : ∀ e, AdlFrame (s.sides e) (s'.sides e)
  coeff : ∀ e, (s'.sides e).adlCoeff = (s.sides e).adlCoeff
  own : (s'.sides liq).sideMode = (s.sides liq).sideMode

/-- Steps 8 to 11 only shrink A, the open interest and the mode of the sides. -/
theorem shrinkOpposing_kept {oi k : Nat} (hok : shrinkOpposing ctx liq oi q k s = .ok ctx' s' l) :
    AdlKept s s' liq := by
  refine wp_sound (Q := fun _ s' _ => AdlKept s s' liq) hok ?_
  have ne : ¬ liq = liq.opposite := fun h => liq.opposite_ne h.symm
  have write {v : SideState} (h : AdlFrame (s.sides liq.opposite) v)
      (coeff : v.adlCoeff = (s.sides liq.opposite).adlCoeff) : AdlKept s (s.setSide liq.opposite v) liq := by
    refine ⟨rfl, fun e => ?_, fun e => ?_, by simp [ne]⟩
    · rcases liq.eq_or_opposite e with rfl | rfl
      · simpa [ne] using AdlFrame.refl (s.sides e)
      · simpa using h
    · rcases liq.eq_or_opposite e with rfl | rfl
      · simp [ne]
      · simpa using coeff
  simp only [shrinkOpposing, wp_bind, wp_read, wp_ite, wp_writeSide, wp_emit, wp_pure, wp_expect,
    wp_orErr, wp_whenever, implies_true, true_and]
  refine ⟨fun _ => write ⟨rfl, rfl, rfl, rfl, rfl, le_rfl, .inl rfl⟩ rfl, ?_⟩
  rintro - ⟨aNew, _⟩ ha
  refine ⟨fun _ c hc => ?_, fun _ => ?_⟩
  · -- A is scaled down
    have scaled : c ≤ (s.sides liq.opposite).adlMult := by
      obtain rfl : c = aNew := by
        unfold U256.tryIntoU128 at hc
        split_ifs at hc
        exact (Option.some.inj hc).symm
      rw [mulDivFloorU256WithRem_eq ha]
      exact Nat.div_le_of_le_mul ((Nat.mul_le_mul_left _ (Nat.sub_le oi q)).trans_eq (Nat.mul_comm _ _))
    refine ⟨fun _ => wp_ok fun _ s₁ l₁ h₁ => ?_, fun _ => ⟨fun _ => ?_, fun _ => ?_⟩⟩
    · obtain ⟨rfl, rfl⟩ := incPhantomDustBoundBy_spec h₁
      simp only [RiskEngine.setSide_setSide, RiskEngine.setSide_same]
      exact ⟨fun _ => write ⟨rfl, rfl, rfl, rfl, rfl, scaled, .inr rfl⟩ rfl,
        fun _ => write ⟨rfl, rfl, rfl, rfl, rfl, scaled, .inl rfl⟩ rfl⟩
    · simp only [RiskEngine.setSide_setSide, RiskEngine.setSide_same]
      exact write ⟨rfl, rfl, rfl, rfl, rfl, scaled, .inr rfl⟩ rfl
    · exact write ⟨rfl, rfl, rfl, rfl, rfl, scaled, .inl rfl⟩ rfl
  · -- both sides are drained for want of precision
    refine ⟨rfl, fun e => ?_, fun e => ?_, by simp [ne]⟩
    · rcases liq.eq_or_opposite e with rfl | rfl
      · simp only [RiskEngine.setSide_sides, if_true, ne, if_false]
        exact ⟨rfl, rfl, rfl, rfl, rfl, le_rfl, .inl rfl⟩
      · simp only [RiskEngine.setSide_sides, liq.opposite_ne, if_true, if_false]
        exact ⟨rfl, rfl, rfl, rfl, rfl, le_rfl, .inl rfl⟩
    · rcases liq.eq_or_opposite e with rfl | rfl
      · simp [ne]
      · simp [liq.opposite_ne]

/-- ADL against the side opposite to `liq` with the deficit `deficit`: only the sides
and insurance move, and K of the opposing side by what was written to it. -/
structure AdlSpread (s s' : RiskEngine) (liq : Side) (deficit : Nat) : Prop where
  eq : s' = { s with sides := s'.sides, insuranceFund := s'.insuranceFund }
  side : ∀ e, AdlFrame (s.sides e) (s'.sides e)
  own : (s'.sides liq).sideMode = (s.sides liq).sideMode
  closed : (s.sides liq.opposite).oiEffQ = 0 → ∀ e, (s'.sides e).sideMode = (s.sides e).sideMode
  own_coeff : (s'.sides liq).adlCoeff = (s.sides liq).adlCoeff
  coeff : (s'.sides liq.opposite).adlCoeff = (s.sides liq.opposite).adlCoeff ∨
    ∃ k, DeficitWritten (s.sides liq.opposite) (deficit - (s.insuranceFund - s'.insuranceFund)) k ∧
      (s'.sides liq.opposite).adlCoeff = (s.sides liq.opposite).adlCoeff - k

theorem enqueueAdl_spread (hok : enqueueAdl ctx liq q deficit s = .ok ctx' s' l) :
    AdlSpread s s' liq deficit := by
  refine wp_sound (Q := fun _ s' _ => AdlSpread s s' liq deficit) hok ?_
  have ne : ¬ liq.opposite = liq := liq.opposite_ne
  have ne' : ¬ liq = liq.opposite := fun h => ne h.symm
  simp only [enqueueAdl, useInsuranceBuffer, wp_bind, wp_read, wp_ite, wp_writeSide, wp_corruptIf,
    wp_lift, wp_pure, wp_update, implies_true, true_and, not_lt]
  simp only [RiskEngine.withInsuranceFund_sides, RiskEngine.setSide_sides, ne, if_false,
    RiskEngine.setSide_insuranceFund, RiskEngine.setSide_params]
  intro _
  -- the state after the close and the insurance
  set pay := min deficit (s.insuranceFund - s.params.insuranceFloor) with hpay
  set s₀ := (s.setSide liq { s.sides liq with oiEffQ := (s.sides liq).oiEffQ - q }).withInsuranceFund
    (s.insuranceFund - pay) with hs₀
  have opp : s₀.sides liq.opposite = s.sides liq.opposite := by simp [hs₀, ne]
  have side (e : Side) : AdlFrame (s.sides e) (s₀.sides e) ∧ (s₀.sides e).adlCoeff = (s.sides e).adlCoeff ∧
      (s₀.sides e).sideMode = (s.sides e).sideMode := by
    rcases liq.eq_or_opposite e with rfl | rfl
    · simp only [hs₀, RiskEngine.withInsuranceFund_sides, RiskEngine.setSide_sides, if_true, and_true]
      exact ⟨rfl, rfl, rfl, rfl, rfl, le_rfl, .inl rfl⟩
    · rw [opp]
      exact ⟨.refl _, rfl, rfl⟩
  have kept {s' : RiskEngine} (h : AdlKept s₀ s' liq) (hoi : (s.sides liq.opposite).oiEffQ ≠ 0) :
      AdlSpread s s' liq deficit := by
    refine ⟨by rw [h.eq]; rfl, fun e => (side e).1.trans (h.side e), h.own.trans (side liq).2.2,
      fun h0 => absurd h0 hoi, (h.coeff liq).trans (side liq).2.1, .inl ?_⟩
    exact (h.coeff _).trans (side _).2.1
  refine ⟨fun h0 => ?_, fun hoi _ => ⟨fun hstored => ?_, fun _ => wp_ok fun k s₁ l₁ h₁ => wp_ok fun c s₂ l₂ h₂ => ?_⟩⟩
  · exact ⟨rfl, fun e => (side e).1, (side liq).2.2, fun _ e => (side e).2.2, (side liq).2.1, .inl (side _).2.1⟩
  · refine kept ⟨rfl, fun e => ?_, fun e => ?_, by simp [ne']⟩ hoi
    · rcases liq.eq_or_opposite e with rfl | rfl
      · simpa [ne'] using AdlFrame.refl (s₀.sides e)
      · simp only [RiskEngine.setSide_sides, if_true, opp]
        exact ⟨rfl, rfl, rfl, rfl, rfl, le_rfl, .inl rfl⟩
    · rcases liq.eq_or_opposite e with rfl | rfl
      · simp [ne']
      · simp [opp]
  · rw [← opp] at h₁
    have kept₂ := shrinkOpposing_kept h₂
    rcases socializeDeficit_inv h₁ (by rw [opp]; omega) with rfl | ⟨written, rfl⟩
    · exact kept kept₂ hoi
    · rw [opp] at written kept₂
      have paid : deficit - pay = deficit - (s.insuranceFund - s₂.insuranceFund) := by
        have : s₂.insuranceFund = s.insuranceFund - pay := by rw [kept₂.eq]; rfl
        omega
      refine ⟨by rw [kept₂.eq]; rfl, fun e => ?_, ?_, fun h0 => absurd h0 hoi, ?_, .inr ⟨k, paid ▸ written, ?_⟩⟩
      · refine AdlFrame.trans ?_ (kept₂.side e)
        rcases liq.eq_or_opposite e with rfl | rfl
        · simpa [ne'] using (side e).1
        · simp only [RiskEngine.setSide_sides, if_true]
          exact ⟨rfl, rfl, rfl, rfl, rfl, le_rfl, .inl rfl⟩
      · rw [kept₂.own]
        simpa [ne'] using (side liq).2.2
      · rw [kept₂.coeff]
        simpa [ne'] using (side liq).2.1
      · rw [kept₂.coeff]
        simp [SideState.burdened]

/-! ### Headroom -/

section Headroom

variable {sc : Scope} {c c' : Conf} {now price : Nat} {rate : Int}

/-- The K index of side `d` after a mark of `deltaP`. -/
def RiskEngine.markStep (s : RiskEngine) (d : Side) (deltaP : Int) : Option Int :=
  match d with
  | .long => scaledAdd (s.sides .long).adlCoeff (s.sides .long).adlMult deltaP
  | .short => scaledSub (s.sides .short).adlCoeff (s.sides .short).adlMult deltaP

/-- Where a mark fails, the step of an open side fails. -/
theorem markIndices_eq_none {deltaP : Int}
    (h : markIndices s (s.liveOn .long) (s.liveOn .short) deltaP = none) :
    ∃ d, (s.sides d).oiEffQ ≠ 0 ∧ s.markStep d deltaP = none := by
  by_contra hn
  push Not at hn
  have step (d : Side) : ∃ k, (if deltaP ≠ 0 ∧ s.liveOn d = true then s.markStep d deltaP
      else some (s.sides d).adlCoeff) = some k := by
    by_cases hd : deltaP ≠ 0 ∧ s.liveOn d = true
    · rw [if_pos hd]
      exact Option.ne_none_iff_exists'.mp (hn d (of_decide_eq_true hd.2))
    · exact ⟨_, if_neg hd⟩
  obtain ⟨kLong, hlong⟩ := step .long
  obtain ⟨kShort, hshort⟩ := step .short
  have : markIndices s (s.liveOn .long) (s.liveOn .short) deltaP = some (kLong, kShort) :=
    Option.bind_eq_some_iff.mpr ⟨kLong, hlong, Option.bind_eq_some_iff.mpr ⟨kShort, hshort, rfl⟩⟩
  rw [this] at h
  cases h

/-- Only accrual moves the price. -/
theorem Step.oraclePrice (step : Step sc c l c') : c'.engine.lastOraclePrice = c.engine.lastOraclePrice ∨
    ∃ now price rate, Accrued c.engine c'.engine now price rate := by
  cases step with
  | noted | booked | charged | forgave | relabeled | funded | clocked | slipped | checked | deleveraged | reset
  | reopened | resolved | captured | wiped => exact .inl rfl
  | accrued rest fresh live fits accrued => exact .inr ⟨_, _, _, accrued⟩
  | settled used reach touched live closing calm scope settled => exact .inl (by rw [settled.eq]; rfl)
  | traded usedA usedB reachA reachB allowedA allowedB touchedA touchedB live pending closing trading
      syncedA syncedB traded =>
      obtain ⟨s₁, s₂, f, g, hA, hB, rfl⟩ := traded.legs
      refine .inl ?_
      show s₂.lastOraclePrice = _
      rw [hB.eq, hA.eq]
      rfl
  | closed allowed used reach touched live pending closing calm closed =>
      obtain ⟨f, hf⟩ := closed.attached
      exact .inl (by rw [hf.eq]; rfl)
  | materialized allowed reach live le materialized => exact .inl (by rw [materialized.eq])
  | freed allowed reach charges clean freed => exact .inl (by rw [RiskEngine.swept_eq, freed.eq]; rfl)
  | reconciled used reach mode reconciled => exact .inl (by rw [reconciled.eq]; rfl)
  | paid used reach allowed mode paid => exact .inl (by rw [paid.eq]; rfl)

/-- How far the price can move in favour of side `d`. -/
def Side.above (d : Side) (price : Int) : Int :=
  match d with
  | .long => MAX_ORACLE_PRICE - price
  | .short => price

/-- The K index of side `d` keeps room for every price in the range of the oracle. -/
structure Room (d : Side) (s : RiskEngine) : Prop where
  price_le : s.lastOraclePrice ≤ MAX_ORACLE_PRICE
  mult : ((s.sides d).adlMult * MAX_ORACLE_PRICE : Int) ≤ I128_MAX
  up : (s.sides d).adlCoeff + (s.sides d).adlMult * d.above s.lastOraclePrice ≤ I128_MAX
  down : -I128_MAX ≤ (s.sides d).adlCoeff - (s.sides d).adlMult * (MAX_ORACLE_PRICE - d.above s.lastOraclePrice)

theorem Side.above_bounds {p : Nat} (d : Side) (h : p ≤ MAX_ORACLE_PRICE) :
    0 ≤ d.above p ∧ 0 ≤ MAX_ORACLE_PRICE - d.above p := by
  cases d <;> simp only [above] <;> omega

/-- Room for one mark is room for every price. -/
theorem Room.of_headroom (price_le : s.lastOraclePrice ≤ MAX_ORACLE_PRICE)
    (headroom : ((s.sides d).adlCoeff.natAbs + (s.sides d).adlMult * MAX_ORACLE_PRICE : Int) ≤ I128_MAX) :
    Room d s := by
  obtain ⟨above, below⟩ := d.above_bounds price_le
  have up := mul_le_mul_of_nonneg_left (a := ((s.sides d).adlMult : Int)) (sub_nonneg.mp below) (Int.natCast_nonneg _)
  have down := mul_le_mul_of_nonneg_left (a := ((s.sides d).adlMult : Int))
    (sub_le_self (MAX_ORACLE_PRICE : Int) above) (Int.natCast_nonneg _)
  refine ⟨price_le, ?_, ?_, ?_⟩ <;> omega

/-- Along a mark the room stays what it was: what the index gains, the price loses. -/
theorem Room.accrued (h : Room d s) (open' : (s.sides d).oiEffQ ≠ 0) (acc : Accrued s s' now price rate) :
    Room d s' := by
  have last : s'.lastOraclePrice = price := by rw [acc.eq]
  have mult : (s'.sides d).adlMult = (s.sides d).adlMult := by rw [acc.side d]
  have coeff : (s'.sides d).adlCoeff =
      (s.sides d).adlCoeff + d.sign * ((s.sides d).adlMult * (price - s.lastOraclePrice)) := by
    rw [acc.side d]
    show (s.sides d).adlCoeff + (s.sides d).marked d _ = _
    rw [SideState.marked, if_pos open']
  have up := h.up
  have down := h.down
  refine ⟨last ▸ acc.price_le, mult ▸ h.mult, ?_, ?_⟩
  · rw [last, mult, coeff]
    cases d <;> simp only [Side.sign, Side.above] at * <;> linarith
  · rw [last, mult, coeff]
    cases d <;> simp only [Side.sign, Side.above] at * <;> linarith

/-- Room only grows when A shrinks. -/
theorem Room.shrink (h : Room d s) (coeff : (s'.sides d).adlCoeff = (s.sides d).adlCoeff)
    (mult : (s'.sides d).adlMult ≤ (s.sides d).adlMult) (price : s'.lastOraclePrice = s.lastOraclePrice) :
    Room d s' := by
  obtain ⟨above, below⟩ := d.above_bounds h.price_le
  have mult : ((s'.sides d).adlMult : Int) ≤ (s.sides d).adlMult := Int.ofNat_le.mpr mult
  have up := mul_le_mul_of_nonneg_right mult above
  have down := mul_le_mul_of_nonneg_right mult below
  have whole := mul_le_mul_of_nonneg_right mult (Int.natCast_nonneg MAX_ORACLE_PRICE)
  refine ⟨price ▸ h.price_le, whole.trans h.mult, ?_, ?_⟩
  · rw [coeff, price]
    exact (add_le_add_right up _).trans h.up
  · rw [coeff, price]
    exact h.down.trans (sub_le_sub_left down _)

/-- With room the mark of side `d` does not fail at any price in range. -/
theorem Room.markStep (h : Room d s) (hp : price ≤ MAX_ORACLE_PRICE) :
    (s.markStep d (price - s.lastOraclePrice)).isSome := by
  obtain ⟨above, below⟩ := d.above_bounds h.price_le
  obtain ⟨above', below'⟩ := d.above_bounds hp
  have mult : (0 : Int) ≤ (s.sides d).adlMult := Int.natCast_nonneg _
  have gain := mul_nonneg mult above
  have loss := mul_nonneg mult below
  have gain' := mul_nonneg mult above'
  have loss' := mul_nonneg mult below'
  obtain ⟨-, whole, up, down⟩ := h
  have min_eq : I128_MIN = -I128_MAX - 1 := by decide
  have max_lt : I128_MAX < 2 ^ 127 := by decide
  rw [Option.isSome_iff_exists]
  cases d with
  | long =>
      simp only [Side.above] at *
      refine ⟨_, scaledAdd_iff.mpr ⟨rfl, ⟨?_, ?_⟩, ⟨?_, ?_⟩, ?_⟩⟩ <;> linarith
  | short =>
      simp only [Side.above] at *
      refine ⟨_, scaledSub_iff.mpr ⟨rfl, ⟨?_, ?_⟩, ⟨?_, ?_⟩, ?_⟩⟩ <;> linarith

/-- A later run: side `d` stays open, its K is written by accruals alone, and its A only shrinks. -/
inductive Marking (d : Side) (s₀ : RiskEngine) : RiskEngine → Prop
  | here : Marking d s₀ s₀
  | accrued {s s' : RiskEngine} {now price : Nat} {rate : Int} {l : List Event} (before : Marking d s₀ s)
      (open' : (s.sides d).oiEffQ ≠ 0) (ok : accrueMarketTo now price rate s = .ok () s' l) : Marking d s₀ s'
  | step {s s' : RiskEngine} {sc : Scope} {ph ph' : Phase} {l : List Event} (before : Marking d s₀ s)
      (open' : (s.sides d).oiEffQ ≠ 0) (step : Step sc ⟨s, ph⟩ l ⟨s', ph'⟩)
      (coeff : (s'.sides d).adlCoeff = (s.sides d).adlCoeff)
      (mult : (s'.sides d).adlMult ≤ (s.sides d).adlMult) : Marking d s₀ s'

theorem Marking.room (h : Marking d s s') (room : Room d s) : Room d s' := by
  induction h with
  | here => exact room
  | accrued before open' ok ih =>
      obtain ⟨-, ⟨-, -, -, rfl⟩ | ⟨-, acc⟩⟩ := accrueMarketTo_spec ok
      · exact ih.shrink rfl le_rfl rfl
      · exact ih.accrued open' acc
  | step before open' step coeff mult ih =>
      rcases step.oraclePrice with same | ⟨_, _, _, acc⟩
      · exact ih.shrink coeff mult same
      · exact ih.accrued open' acc

/-- Once ADL has written a deficit to K of a side, no later accrual fails in the mark of
that side, at whatever price in range, as long as the side stays open, its K moves by
accruals alone and its A only shrinks. -/
theorem Underway.adl_leaves_headroom (h : Underway s)
    (ok : enqueueAdl ctx liq q deficit s = .ok ctx' s' l)
    (wrote : (s'.sides liq.opposite).adlCoeff ≠ (s.sides liq.opposite).adlCoeff)
    (later : Marking liq.opposite s' last) (valid : price ≤ MAX_ORACLE_PRICE) :
    (last.markStep liq.opposite (price - last.lastOraclePrice)).isSome ∧
      (markIndices last (last.liveOn .long) (last.liveOn .short) (price - last.lastOraclePrice) = none →
        last.markStep liq (price - last.lastOraclePrice) = none) := by
  obtain ⟨ph, good⟩ := h.good
  have timely : Timely s := good.timely
  have spread := enqueueAdl_spread ok
  obtain ⟨k, written, coeff⟩ := spread.coeff.resolve_left wrote
  have room : Room liq.opposite s' := by
    refine .of_headroom (by rw [spread.eq]; exact timely.price_le) ?_
    have mult := (spread.side liq.opposite).mult_le
    have headroom := written.headroom
    rw [← coeff] at headroom
    have : ((s'.sides liq.opposite).adlMult * MAX_ORACLE_PRICE : Int) ≤
        (s.sides liq.opposite).adlMult * MAX_ORACLE_PRICE := by gcongr
    omega
  have own := (later.room room).markStep valid
  refine ⟨own, fun failed => ?_⟩
  obtain ⟨e, -, he⟩ := markIndices_eq_none failed
  rcases liq.eq_or_opposite e with rfl | rfl
  · exact he
  · rw [he] at own
    cases own

/-- The traded market after ADL against its long side, with a deficit beyond insurance. -/
def burdenedMarket : RiskEngine := (enqueueAdl (.newWithAdmission 10 100) .short 1000000 500 tradedMarket).final

theorem tradedMarket_adl_leaves_headroom :
    ((accrueMarketTo 150 900000 0 burdenedMarket).final.markStep .long
      (MAX_ORACLE_PRICE - (accrueMarketTo 150 900000 0 burdenedMarket).final.lastOraclePrice)).isSome := by
  obtain ⟨_, l, ok⟩ := Outcome.eq_ok
    (o := enqueueAdl (.newWithAdmission 10 100) .short 1000000 500 tradedMarket) (by decide +kernel)
  obtain ⟨_, l', accrued⟩ := Outcome.eq_ok (o := accrueMarketTo 150 900000 0 burdenedMarket) (by decide +kernel)
  have later : Marking .long burdenedMarket (accrueMarketTo 150 900000 0 burdenedMarket).final :=
    .accrued .here (by decide +kernel) accrued
  exact (tradedMarket_reachable.underway.adl_leaves_headroom ok (by decide +kernel) later le_rfl).1

end Headroom

/-! ### The losses -/

section Losses

variable {ph : Phase} {k : Nat}

/-- The exact effective position of account `i` on side `d`. -/
def RiskEngine.exactPos (s : RiskEngine) (d : Side) (i : Nat) : ℚ :=
  (s.accounts i).positionBasisQ.natAbs * (s.sides d).adlMult / (s.accounts i).adlABasis

theorem mem_currentOn : i ∈ s.currentOn d ↔ s.isUsed i = true ∧
    sideOfI128 (s.accounts i).positionBasisQ = some d ∧ (s.accounts i).adlEpochSnap = (s.sides d).adlEpoch := by
  unfold RiskEngine.currentOn
  rw [mem_filter, RiskEngine.mem_usedSlots]

theorem ceilDiv_bounds (n : Nat) {m : Nat} (hm : 0 < m) : n ≤ ceilDiv n m * m ∧ ceilDiv n m * m < n + m := by
  have floor := Nat.div_add_mod n m
  have rest := Nat.mod_lt n hm
  rw [Nat.mul_comm m] at floor
  unfold ceilDiv
  split_ifs with h
  · omega
  · rw [Nat.add_mul, Nat.one_mul]
    omega

/-- A floor is less than one below the fraction. -/
theorem lt_kfDelta_add_one (absBasis : Nat) (x f : Int) {den : Nat} (hden : 0 < den) :
    (absBasis * (x * FUNDING_DEN + f : Int) / (den * FUNDING_DEN : Nat) : ℚ) < kfDelta absBasis x f den + 1 := by
  have pos : 0 < den * FUNDING_DEN := Nat.mul_pos hden (by decide)
  have floor := Int.lt_ediv_add_one_mul_self (absBasis * (x * FUNDING_DEN + f))
    (b := ((den * FUNDING_DEN : Nat) : Int)) (by omega)
  rw [div_lt_iff₀ (by exact_mod_cast pos)]
  unfold kfDelta
  exact_mod_cast floor

theorem AdlSpread.aligned (h : AdlSpread s s' liq deficit) (good : Good ⟨s, ph⟩)
    (live : s.marketMode = .live) : Aligned s' := by
  have old := good.aligned live
  have accounts : s'.accounts = s.accounts := by rw [h.eq]
  refine ⟨by rw [h.eq]; exact live, fun d => ?_, fun i d used side => ?_⟩
  · rw [(h.side d).stored, old.stored d, h.eq]
    rfl
  · rw [show s'.isUsed = s.isUsed by rw [h.eq]; rfl] at used
    rw [accounts] at side ⊢
    rw [(h.side d).epoch]
    have mode : (s'.sides d).sideMode = .resetPending ↔ (s.sides d).sideMode = .resetPending := by
      by_cases closed : (s.sides liq.opposite).oiEffQ = 0
      · rw [h.closed closed d]
      · rcases liq.eq_or_opposite d with rfl | rfl
        · rw [h.own]
        · have running : (s.sides liq.opposite).sideMode ≠ .resetPending := fun hm =>
            closed (((good.positions live).side _).drained hm)
          rcases (h.side liq.opposite).mode with hm | hm
          · rw [hm]
          · rw [hm]
            exact ⟨(by rintro ⟨⟩), fun hn => absurd hn running⟩
    rw [ne_eq, mode]
    exact old.epoch i d used side

/-- What a current account on the opposing side is due after ADL. -/
theorem AdlSpread.due (h : AdlSpread s s' liq deficit)
    (coeff : (s'.sides liq.opposite).adlCoeff = (s.sides liq.opposite).adlCoeff - k)
    (current : i ∈ s.currentOn liq.opposite)
    (snaps : (s.accounts i).adlKSnap = (s.sides liq.opposite).adlCoeff ∧
      (s.accounts i).fSnap = (s.sides liq.opposite).fNum) :
    s'.due i = kfDelta (s.accounts i).positionBasisQ.natAbs (-k) 0 ((s.accounts i).adlABasis * POS_SCALE) := by
  obtain ⟨used, side, epoch⟩ := mem_currentOn.mp current
  have accounts : s'.accounts = s.accounts := by rw [h.eq]
  have frame := h.side liq.opposite
  rw [RiskEngine.due_some (d := liq.opposite) (by rw [accounts]; exact side), accounts, Account.due,
    SideState.indices, if_pos (by rw [frame.epoch]; exact epoch), coeff, frame.fund, snaps.1, snaps.2]
  congr 1
  · ring
  · ring

/-- The loss of an account is its exact share of what was written, rounded up. -/
theorem AdlSpread.loss (h : AdlSpread s s' liq deficit) (good : Good ⟨s, ph⟩) (live : s.marketMode = .live)
    (coeff : (s'.sides liq.opposite).adlCoeff = (s.sides liq.opposite).adlCoeff - k)
    (current : i ∈ s.currentOn liq.opposite)
    (snaps : (s.accounts i).adlKSnap = (s.sides liq.opposite).adlCoeff ∧
      (s.accounts i).fSnap = (s.sides liq.opposite).fNum) :
    k / ((s.sides liq.opposite).adlMult * POS_SCALE) * s.exactPos liq.opposite i ≤ -(s'.due i : ℚ) ∧
      -(s'.due i : ℚ) < k / ((s.sides liq.opposite).adlMult * POS_SCALE) * s.exactPos liq.opposite i + 1 := by
  obtain ⟨used, side, epoch⟩ := mem_currentOn.mp current
  have aBasis : 0 < (s.accounts i).adlABasis := ((good.positions live).position i _ used side).basis_pos
  have mult : 0 < (s.sides liq.opposite).adlMult := ((good.positions live).side liq.opposite).mult_pos
  have den : 0 < (s.accounts i).adlABasis * POS_SCALE := Nat.mul_pos aBasis (by decide)
  have share : ((s.accounts i).positionBasisQ.natAbs * (-k * FUNDING_DEN + 0 : Int) /
      ((s.accounts i).adlABasis * POS_SCALE * FUNDING_DEN : Nat) : ℚ) =
      -(k / ((s.sides liq.opposite).adlMult * POS_SCALE) * s.exactPos liq.opposite i) := by
    have : ((s.accounts i).adlABasis : ℚ) ≠ 0 := by exact_mod_cast aBasis.ne'
    have : ((s.sides liq.opposite).adlMult : ℚ) ≠ 0 := by exact_mod_cast mult.ne'
    have : (POS_SCALE : ℚ) ≠ 0 := by norm_num [POS_SCALE]
    have : (FUNDING_DEN : ℚ) ≠ 0 := by norm_num [FUNDING_DEN]
    unfold RiskEngine.exactPos
    push_cast
    field_simp
    ring
  have floor := kfDelta_le (s.accounts i).positionBasisQ.natAbs (-k) 0 den
  have ceil := lt_kfDelta_add_one (s.accounts i).positionBasisQ.natAbs (-k) 0 den
  rw [share, ← h.due coeff current snaps] at floor ceil
  constructor <;> linarith

/-- The shares of an open side are within its open interest. -/
theorem Good.exactOi_le (good : Good ⟨s, ph⟩) (live : s.marketMode = .live) (open' : 0 < (s.sides d).oiEffQ) :
    s.exactOi d ≤ (s.sides d).oiEffQ := by
  have pending : ph.pending d = false := by
    cases hp : ph.pending d with
    | false => rfl
    | true => exact absurd ((good.positions live).pending d hp) open'.ne'
  have cover := ((good.positions live).cover d pending).le
  rw [RiskEngine.exactOi_eq_shares]
  have := (Nat.cast_nonneg (ph.closedOn d) : (0 : ℚ) ≤ _)
  dsimp only at cover
  linarith

/-- A deficit written to K is realized in full by the current accounts of the opposing
side when they are settled, in whatever order and before or after a reset, with at most
one unit of the index and one atom for each account on top; and each account bears one
and the same multiple of its exact position, rounded up. -/
theorem Underway.deficit_socialized (h : Underway s) (live : s.marketMode = .live)
    (snaps : ∀ i ∈ s.currentOn liq.opposite, (s.accounts i).adlKSnap = (s.sides liq.opposite).adlCoeff ∧
      (s.accounts i).fSnap = (s.sides liq.opposite).fNum)
    (ok : enqueueAdl ctx liq q deficit s = .ok ctx' s' l)
    (wrote : (s'.sides liq.opposite).adlCoeff ≠ (s.sides liq.opposite).adlCoeff)
    (settling : Settling s' deltas last)
    (all : ∀ i ∈ s.currentOn liq.opposite, i ∈ deltas.map Prod.fst) :
    ((deficit - (s.insuranceFund - s'.insuranceFund) : Nat) : ℚ) * s.exactOi liq.opposite /
        (s.sides liq.opposite).oiEffQ ≤ ∑ i ∈ s.currentOn liq.opposite, -(realized deltas i : ℚ) ∧
      ∑ i ∈ s.currentOn liq.opposite, -(realized deltas i : ℚ) ≤
        (deficit - (s.insuranceFund - s'.insuranceFund) : Nat) +
          s.exactOi liq.opposite / ((s.sides liq.opposite).adlMult * POS_SCALE) + #(s.currentOn liq.opposite) ∧
      ∃ ratio : ℚ, ∀ i ∈ s.currentOn liq.opposite,
        ratio * s.exactPos liq.opposite i ≤ -(realized deltas i : ℚ) ∧
          -(realized deltas i : ℚ) < ratio * s.exactPos liq.opposite i + 1 := by
  obtain ⟨ph, good⟩ := h.good
  have spread := enqueueAdl_spread ok
  obtain ⟨k, written, coeff⟩ := spread.coeff.resolve_left wrote
  have aligned := spread.aligned good live
  have isUsed : s'.isUsed = s.isUsed := by rw [spread.eq]; rfl
  set opp := liq.opposite with hopp
  set dRem := deficit - (s.insuranceFund - s'.insuranceFund) with hdRem
  set ratio : ℚ := k / ((s.sides opp).adlMult * POS_SCALE) with hratio
  have mult : (0 : ℚ) < (s.sides opp).adlMult := by exact_mod_cast ((good.positions live).side opp).mult_pos
  have unit : (0 : ℚ) < POS_SCALE := by norm_num [POS_SCALE]
  have oi : (0 : ℚ) < (s.sides opp).oiEffQ := by exact_mod_cast written.open_pos
  have loss (i : Nat) (hi : i ∈ s.currentOn opp) : ratio * s.exactPos opp i ≤ -(realized deltas i : ℚ) ∧
      -(realized deltas i : ℚ) < ratio * s.exactPos opp i + 1 := by
    rw [settling.realized_eq aligned (by rw [isUsed]; exact (mem_currentOn.mp hi).1) (all i hi)]
    exact spread.loss good live coeff hi (snaps i hi)
  have exact_sum : ∑ i ∈ s.currentOn opp, ratio * s.exactPos opp i = ratio * s.exactOi opp := by
    rw [← mul_sum]
    rfl
  have lower : ratio * s.exactOi opp ≤ ∑ i ∈ s.currentOn opp, -(realized deltas i : ℚ) := by
    rw [← exact_sum]
    exact sum_le_sum fun i hi => (loss i hi).1
  have upper : ∑ i ∈ s.currentOn opp, -(realized deltas i : ℚ) ≤ ratio * s.exactOi opp + #(s.currentOn opp) := by
    calc ∑ i ∈ s.currentOn opp, -(realized deltas i : ℚ)
        ≤ ∑ i ∈ s.currentOn opp, (ratio * s.exactPos opp i + 1) := sum_le_sum fun i hi => (loss i hi).2.le
      _ = ratio * s.exactOi opp + #(s.currentOn opp) := by
          rw [sum_add_distrib, exact_sum, sum_const, nsmul_one]
  -- the ratio is the deficit over the open interest, up to one unit of the index
  have shares_nonneg : 0 ≤ s.exactOi opp := sum_nonneg fun i _ => by positivity
  have shares_le : s.exactOi opp ≤ (s.sides opp).oiEffQ := good.exactOi_le live written.open_pos
  obtain ⟨share_ge, share_lt⟩ := ceilDiv_bounds (dRem * ((s.sides opp).adlMult * POS_SCALE)) written.open_pos
  rw [← written.share] at share_ge share_lt
  have ratio_ge : (dRem : ℚ) / (s.sides opp).oiEffQ ≤ ratio := by
    rw [hratio, div_le_div_iff₀ oi (mul_pos mult unit)]
    exact_mod_cast share_ge
  have ratio_le : ratio ≤ dRem / (s.sides opp).oiEffQ + 1 / ((s.sides opp).adlMult * POS_SCALE) := by
    have ceil : (k : ℚ) * (s.sides opp).oiEffQ ≤ dRem * ((s.sides opp).adlMult * POS_SCALE) + (s.sides opp).oiEffQ := by
      exact_mod_cast share_lt.le
    rw [hratio, div_add_div _ _ oi.ne' (mul_pos mult unit).ne', div_le_div_iff₀ (mul_pos mult unit)
      (mul_pos oi (mul_pos mult unit)), mul_one]
    calc (k : ℚ) * ((s.sides opp).oiEffQ * ((s.sides opp).adlMult * POS_SCALE))
        = k * (s.sides opp).oiEffQ * ((s.sides opp).adlMult * POS_SCALE) := by ring
      _ ≤ _ := mul_le_mul_of_nonneg_right ceil (mul_pos mult unit).le
  refine ⟨?_, ?_, ratio, loss⟩
  · calc (dRem : ℚ) * s.exactOi opp / (s.sides opp).oiEffQ
        = dRem / (s.sides opp).oiEffQ * s.exactOi opp := by ring
      _ ≤ ratio * s.exactOi opp := mul_le_mul_of_nonneg_right ratio_ge shares_nonneg
      _ ≤ _ := lower
  · have spent : (dRem : ℚ) / (s.sides opp).oiEffQ * s.exactOi opp ≤ dRem := by
      rw [div_mul_eq_mul_div, div_le_iff₀ oi]
      exact mul_le_mul_of_nonneg_left shares_le (Nat.cast_nonneg _)
    have := mul_le_mul_of_nonneg_right ratio_le shares_nonneg
    rw [add_mul, one_div_mul_eq_div] at this
    linarith

theorem tradedMarket_deficit_socialized : ∃ deltas last, Settling burdenedMarket deltas last ∧
    deltas.map Prod.fst = [1] ∧
    ((400 : Nat) : ℚ) * tradedMarket.exactOi .long / (tradedMarket.sides .long).oiEffQ ≤
      ∑ i ∈ tradedMarket.currentOn .long, -(realized deltas i : ℚ) := by
  obtain ⟨_, l, ok⟩ := Outcome.eq_ok
    (o := enqueueAdl (.newWithAdmission 10 100) .short 1000000 500 tradedMarket) (by decide +kernel)
  obtain ⟨_, l', settled⟩ := Outcome.eq_ok
    (o := settleSideEffectsLive 1 (.newWithAdmission 10 100) burdenedMarket) (by decide +kernel)
  have settling := Settling.settled (by decide +kernel) (by decide +kernel) settled rfl (.done _)
  have members : tradedMarket.currentOn (Side.opposite .short) = {1} := by decide +kernel
  have snaps : ∀ i ∈ tradedMarket.currentOn (Side.opposite .short),
      (tradedMarket.accounts i).adlKSnap = (tradedMarket.sides (Side.opposite .short)).adlCoeff ∧
        (tradedMarket.accounts i).fSnap = (tradedMarket.sides (Side.opposite .short)).fNum := by
    rw [members]
    decide +kernel
  have live : tradedMarket.marketMode = .live := by decide +kernel
  have wrote : (burdenedMarket.sides (Side.opposite .short)).adlCoeff ≠
      (tradedMarket.sides (Side.opposite .short)).adlCoeff := by
    decide +kernel
  have dRem : 500 - (tradedMarket.insuranceFund - burdenedMarket.insuranceFund) = 400 := by decide +kernel
  have adl : enqueueAdl (.newWithAdmission 10 100) .short 1000000 500 tradedMarket = .ok _ burdenedMarket l := ok
  have bounds := tradedMarket_reachable.underway.deficit_socialized live snaps adl wrote settling
    (by rw [members]; simp)
  rw [dRem] at bounds
  exact ⟨_, _, settling, rfl, bounds.1⟩

end Losses

end Percolator
