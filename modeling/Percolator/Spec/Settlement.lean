import Percolator.Spec.Market

/-!
The arithmetic of a settlement: `compute_kf_pnl_delta` is the floor of one
fraction, and how floors of a path add up.
-/

namespace Percolator

/-- The floor of `abs_basis * (ΔK * FUNDING_DEN + ΔF) / (den * FUNDING_DEN)`. -/
def kfDelta (absBasis : Nat) (kDiff fDiff : Int) (den : Nat) : Int :=
  absBasis * (kDiff * FUNDING_DEN + fDiff) / (den * FUNDING_DEN : Nat)

theorem neg_ediv_eq_ceilDiv (p : Nat) {d : Nat} (hd : 0 < d) :
    (-(p : Int)) / d = -((ceilDiv p d : Nat) : Int) := by
  unfold ceilDiv
  rw [Int.neg_ediv, Int.sign_eq_one_of_pos (by omega)]
  by_cases h : p % d = 0
  · rw [if_pos h, if_pos (Int.natCast_dvd_natCast.mpr (Nat.dvd_of_mod_eq_zero h))]
    simp
  · rw [if_neg h, if_neg fun hd => h (Nat.mod_eq_zero_of_dvd (Int.natCast_dvd_natCast.mp hd))]
    push_cast
    ring

/-- The division of magnitudes is the floor. -/
theorem signedFloorDiv_eq (v : Int) {d : Nat} (hd : 0 < d) :
    signedFloorDiv (decide (v < 0)) v.natAbs d =
      if ((v / d).natAbs : Int) ≤ I128_MAX then some (v / d) else none := by
  have magnitude : (if decide (v < 0) = true then ceilDiv v.natAbs d else v.natAbs / d) =
      (v / d).natAbs := by
    by_cases h : v < 0
    · rw [if_pos (decide_eq_true h)]
      have floor := neg_ediv_eq_ceilDiv v.natAbs hd
      rw [Int.ofNat_natAbs_of_nonpos h.le, neg_neg] at floor
      omega
    · rw [if_neg (by simpa using h)]
      obtain ⟨n, rfl⟩ := Int.eq_ofNat_of_zero_le (not_lt.mp h)
      rw [Int.natAbs_natCast, ← Int.natCast_ediv, Int.natAbs_natCast]
  have sign : (if decide (v < 0) = true then -(((v / d).natAbs : Nat) : Int) else (v / d).natAbs) =
      v / d := by
    by_cases h : v < 0
    · rw [if_pos (decide_eq_true h)]
      have := Int.ediv_neg_of_neg_of_pos h (by omega : (0 : Int) < d)
      omega
    · rw [if_neg (by simpa using h)]
      have := Int.ediv_nonneg (not_lt.mp h) (by omega : (0 : Int) ≤ d)
      omega
  unfold signedFloorDiv
  simp only [magnitude, sign, ne_eq, Nat.pos_iff_ne_zero.mp hd, not_false_eq_true, true_and]

/-- `K_diff * FUNDING_DEN` on values. -/
def scaledKDiff (kDiff : Int) : Option Int := do
  let prod ← Percolator.U256.checkedMul kDiff.natAbs FUNDING_DEN
  let pos ← Percolator.I256.fromU256OrOverflow prod
  return if kDiff < 0 then -pos else pos

theorem computeKfPnlDeltaWide_unfold (absBasis : Nat) (kSnap kNowWide fSnap fNowWide : Int)
    (den : Nat) :
    computeKfPnlDeltaWide absBasis kSnap kNowWide fSnap fNowWide den =
      if absBasis = 0 then some 0
      else (do
        let kDiff ← I256.checkedSub kNowWide kSnap
        let kScaled ← scaledKDiff kDiff
        let fDiff ← I256.checkedSub fNowWide fSnap
        let combined ← I256.checkedAdd kScaled fDiff
        if combined = 0 then some 0
        else if combined = I256_MIN then none
        else do
          let denWide ← U256.checkedMul den FUNDING_DEN
          let p ← U256.checkedMul absBasis combined.natAbs
          signedFloorDiv (decide (combined < 0)) p denWide) := by
  unfold computeKfPnlDeltaWide scaledKDiff
  simp only [bind_assoc, pure_bind]
  rfl

theorem checkedMulU256_eq {a b c : Nat} (h : U256.checkedMul a b = some c) : a * b = c := by
  unfold U256.checkedMul at h
  split at h
  · exact Option.some.inj h
  · cases h

theorem checkedMulU256_some {a b : Nat} (h : a * b ≤ U256_MAX) : U256.checkedMul a b = some (a * b) :=
  if_pos h

theorem toI256_some {v : Int} (hmin : I256_MIN ≤ v) (hmax : v ≤ I256_MAX) : toI256 v = some v :=
  if_pos ⟨hmin, hmax⟩

theorem scaledKDiff_some {kDiff k : Int} (h : scaledKDiff kDiff = some k) : k = kDiff * FUNDING_DEN := by
  simp only [scaledKDiff, Option.bind_eq_bind, Option.bind_eq_some_iff, Option.pure_def,
    Option.some.injEq] at h
  obtain ⟨prod, hp, pos, hpos, rfl⟩ := h
  rw [toI256_eq hpos, ← checkedMulU256_eq hp, Nat.cast_mul]
  by_cases hneg : kDiff < 0
  · rw [if_pos hneg, Int.ofNat_natAbs_of_nonpos hneg.le, neg_mul, neg_neg]
  · rw [if_neg hneg, Int.natAbs_of_nonneg (not_lt.mp hneg)]

theorem scaledKDiff_eq {kDiff : Int} (h : kDiff.natAbs ≤ 3 * 2 ^ 127) :
    scaledKDiff kDiff = some (kDiff * FUNDING_DEN) := by
  have fits : kDiff.natAbs * FUNDING_DEN ≤ 2 ^ 254 := (Nat.mul_le_mul_right _ h).trans (by decide)
  have product : U256.checkedMul kDiff.natAbs FUNDING_DEN = some (kDiff.natAbs * FUNDING_DEN) :=
    checkedMulU256_some (by unfold U256_MAX; omega)
  have signed : I256.fromU256OrOverflow (kDiff.natAbs * FUNDING_DEN) =
      some ((kDiff.natAbs * FUNDING_DEN : Nat) : Int) :=
    toI256_some (by unfold I256_MIN; omega) (by unfold I256_MAX; omega)
  refine Option.bind_eq_some_iff.mpr ⟨_, product, Option.bind_eq_some_iff.mpr ⟨_, signed, ?_⟩⟩
  rw [Option.pure_def, Nat.cast_mul]
  by_cases hneg : kDiff < 0
  · rw [if_pos hneg, Int.ofNat_natAbs_of_nonpos hneg.le, neg_mul, neg_neg]
  · rw [if_neg hneg, Int.natAbs_of_nonneg (not_lt.mp hneg)]

/-- The last division of a settlement, on the magnitude of the difference `c`. -/
theorem settlementFloor_eq {absBasis den : Nat} (hb : absBasis ≠ 0) (hden : 0 < den) (c : Int) :
    signedFloorDiv (decide (c < 0)) (absBasis * c.natAbs) (den * FUNDING_DEN) =
      if ((absBasis * c / (den * FUNDING_DEN : Nat)).natAbs : Int) ≤ I128_MAX then
        some (absBasis * c / (den * FUNDING_DEN : Nat)) else none := by
  have hpos : (0 : Int) < absBasis := by omega
  have sign : decide (c < 0) = decide ((absBasis : Int) * c < 0) := by
    rw [decide_eq_decide]
    constructor
    · exact fun h => mul_neg_of_pos_of_neg hpos h
    · intro h
      by_contra hc
      exact absurd h (not_lt.mpr (mul_nonneg hpos.le (not_lt.mp hc)))
  rw [sign, show absBasis * c.natAbs = ((absBasis : Int) * c).natAbs by
    rw [Int.natAbs_mul, Int.natAbs_natCast]]
  exact signedFloorDiv_eq _ (Nat.mul_pos hden (by decide))

/-- Floors lose at most one where two fractions are added up. -/
theorem ediv_add_bounds (a b : Int) {d : Int} (hd : 0 < d) :
    a / d + b / d ≤ (a + b) / d ∧ (a + b) / d ≤ a / d + b / d + 1 := by
  constructor
  · apply Int.le_ediv_of_mul_le hd
    have ha := Int.ediv_mul_le a hd.ne'
    have hb := Int.ediv_mul_le b hd.ne'
    rw [add_mul]
    omega
  · have ha := Int.lt_ediv_add_one_mul_self a hd
    have hb := Int.lt_ediv_add_one_mul_self b hd
    have : a + b < (a / d + b / d + 2) * d := by
      rw [show (a / d + b / d + 2) * d = (a / d + 1) * d + (b / d + 1) * d by ring]
      omega
    have := Int.ediv_lt_of_lt_mul hd this
    omega

/-- The floors of two moves of the indices against the floor of both together. -/
theorem kfDelta_add (absBasis den : Nat) (k k' f f' : Int) (hden : 0 < den) :
    kfDelta absBasis k f den + kfDelta absBasis k' f' den ≤ kfDelta absBasis (k + k') (f + f') den ∧
      kfDelta absBasis (k + k') (f + f') den ≤
        kfDelta absBasis k f den + kfDelta absBasis k' f' den + 1 := by
  unfold kfDelta
  rw [show (absBasis : Int) * ((k + k') * FUNDING_DEN + (f + f')) =
    absBasis * (k * FUNDING_DEN + f) + absBasis * (k' * FUNDING_DEN + f') by ring]
  exact ediv_add_bounds _ _ (Int.natCast_pos.mpr (Nat.mul_pos hden (by decide)))

/-- A settlement that succeeds is the floor. -/
theorem computeKfPnlDeltaWide_some {absBasis den : Nat} {kSnap kNow fSnap fNow δ : Int}
    (hden : 0 < den) (h : computeKfPnlDeltaWide absBasis kSnap kNow fSnap fNow den = some δ) :
    δ = kfDelta absBasis (kNow - kSnap) (fNow - fSnap) den := by
  rw [computeKfPnlDeltaWide_unfold] at h
  unfold kfDelta
  by_cases hb : absBasis = 0
  · rw [if_pos hb] at h
    rw [hb, Nat.cast_zero, zero_mul, Int.zero_ediv, Option.some.inj h]
  rw [if_neg hb] at h
  simp only [Option.bind_eq_bind, Option.bind_eq_some_iff] at h
  obtain ⟨kDiff, hk, kScaled, hs, fDiff, hf, combined, hc, h⟩ := h
  obtain rfl := toI256_eq hk
  obtain rfl := scaledKDiff_some hs
  obtain rfl := toI256_eq hf
  obtain rfl := toI256_eq hc
  by_cases hz : (kNow - kSnap) * (FUNDING_DEN : Int) + (fNow - fSnap) = 0
  · rw [if_pos hz] at h
    rw [hz, mul_zero, Int.zero_ediv, Option.some.inj h]
  rw [if_neg hz] at h
  split at h
  · cases h
  simp only [Option.bind_eq_some_iff] at h
  obtain ⟨denWide, hd, p, hp, h⟩ := h
  rw [← checkedMulU256_eq hd, ← checkedMulU256_eq hp, settlementFloor_eq hb hden] at h
  split at h
  · exact (Option.some.inj h).symm
  · cases h

/-- With a position in its bound and indices that differ by at most three times
the range of `i128`, no intermediate leaves 256 bits. -/
theorem computeKfPnlDeltaWide_eq {absBasis den : Nat} {kSnap kNow fSnap fNow : Int}
    (hbasis : absBasis ≤ MAX_POSITION_ABS_Q) (hden : 0 < den) (hmax : den ≤ U128_MAX)
    (hk : (kNow - kSnap).natAbs ≤ 3 * 2 ^ 127) (hf : (fNow - fSnap).natAbs ≤ 3 * 2 ^ 127) :
    computeKfPnlDeltaWide absBasis kSnap kNow fSnap fNow den =
      if ((kfDelta absBasis (kNow - kSnap) (fNow - fSnap) den).natAbs : Int) ≤ I128_MAX then
        some (kfDelta absBasis (kNow - kSnap) (fNow - fSnap) den) else none := by
  rw [computeKfPnlDeltaWide_unfold]
  unfold kfDelta
  by_cases hb : absBasis = 0
  · rw [if_pos hb, hb, Nat.cast_zero, zero_mul, Int.zero_ediv, if_pos (by decide)]
  rw [if_neg hb]
  have subK : I256.checkedSub kNow kSnap = some (kNow - kSnap) :=
    toI256_some (by unfold I256_MIN; omega) (by unfold I256_MAX; omega)
  have subF : I256.checkedSub fNow fSnap = some (fNow - fSnap) :=
    toI256_some (by unfold I256_MIN; omega) (by unfold I256_MAX; omega)
  have scaled := scaledKDiff_eq hk
  have combined : I256.checkedAdd ((kNow - kSnap) * FUNDING_DEN) (fNow - fSnap) =
      some ((kNow - kSnap) * FUNDING_DEN + (fNow - fSnap)) :=
    toI256_some (by unfold I256_MIN FUNDING_DEN; omega) (by unfold I256_MAX FUNDING_DEN; omega)
  have range : ((kNow - kSnap) * FUNDING_DEN + (fNow - fSnap)).natAbs ≤ 3 * 2 ^ 127 * (FUNDING_DEN + 1) := by
    unfold FUNDING_DEN
    omega
  have denominator : U256.checkedMul den FUNDING_DEN = some (den * FUNDING_DEN) :=
    checkedMulU256_some (by unfold U256_MAX FUNDING_DEN; unfold U128_MAX at hmax; omega)
  have product : U256.checkedMul absBasis ((kNow - kSnap) * FUNDING_DEN + (fNow - fSnap)).natAbs =
      some (absBasis * ((kNow - kSnap) * FUNDING_DEN + (fNow - fSnap)).natAbs) :=
    checkedMulU256_some ((Nat.mul_le_mul hbasis range).trans (by decide))
  rw [subK, Option.bind_eq_bind, Option.bind_some, scaled, Option.bind_eq_bind, Option.bind_some, subF,
    Option.bind_some, combined, Option.bind_some]
  by_cases hz : (kNow - kSnap) * (FUNDING_DEN : Int) + (fNow - fSnap) = 0
  · rw [if_pos hz, hz, mul_zero, Int.zero_ediv, if_pos (by decide)]
  rw [if_neg hz, if_neg (by unfold I256_MIN; unfold FUNDING_DEN at *; omega), denominator,
    Option.bind_some, product, Option.bind_some]
  exact settlementFloor_eq hb hden _

end Percolator
