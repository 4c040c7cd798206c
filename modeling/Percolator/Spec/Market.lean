import Percolator.Base.Binary
import Percolator.Engine.Resolution
import Percolator.Spec.Adl

/-!
What the market-wide steps do: accrual, the slots taken and given up, and the
change to Resolved mode.
-/

namespace Percolator

open Effect

/-- The sign of a position on a side. -/
def Side.sign : Side → Int
  | .long => 1
  | .short => -1

/-- An index of a side in `i128`. -/
def InI128 (v : Int) : Prop := I128_MIN ≤ v ∧ v ≤ I128_MAX

/-- The index move of side `d` when the price moves by `deltaP`. -/
def SideState.marked (v : SideState) (d : Side) (deltaP : Int) : Int :=
  if v.oiEffQ ≠ 0 then d.sign * (v.adlMult * deltaP) else 0

/-- The index move of side `d` under funding of `total`, which needs both sides. -/
def RiskEngine.funded (s : RiskEngine) (d : Side) (total : Int) : Int :=
  if (s.sides .long).oiEffQ ≠ 0 ∧ (s.sides .short).oiEffQ ≠ 0 then
    d.sign * ((s.sides d).adlMult * total) else 0

/-- The market accrued to `price` at `now`. -/
structure Accrued (s s' : RiskEngine) (now price : Nat) (rate : Int) : Prop where
  slot_le : s.currentSlot ≤ now
  price_pos : 0 < price
  price_le : price ≤ MAX_ORACLE_PRICE
  rate_le : rate.natAbs ≤ s.params.maxAbsFundingE9PerSlot
  eq : s' = { s with
    sides := s'.sides, currentSlot := now, lastMarketSlot := now, lastOraclePrice := price
    fundPxLast := price }
  side : ∀ d, s'.sides d = { s.sides d with
    adlCoeff := (s.sides d).adlCoeff + (s.sides d).marked d (price - s.lastOraclePrice)
    fNum := (s.sides d).fNum -
      s.funded d (s.fundPxLast * rate * (now - s.lastMarketSlot : Nat)) }
  coeff : ∀ d, InI128 (s.sides d).adlCoeff → InI128 (s'.sides d).adlCoeff
  fund : ∀ d, InI128 (s.sides d).fNum → InI128 (s'.sides d).fNum

section Accrual

variable {s s' : RiskEngine} {l : List Event} {now price : Nat} {rate : Int}

theorem toI256_eq {v w : Int} (h : toI256 v = some w) : w = v := by
  unfold toI256 at h
  split_ifs at h
  exact (Option.some.inj h).symm

/-- The products that `checked_mul_i256` answers: its negative ones end at `2^127`. -/
def MulFits (v : Int) : Prop := -2 ^ 127 < v ∧ v ≤ I256_MAX

theorem checkedMulI256_of_fits {a b : Int} (h : MulFits (a * b)) :
    I256.checkedMulI256 a b = some (a * b) := by
  unfold I256.checkedMulI256
  by_cases hz : a = 0 ∨ b = 0
  · rw [if_pos hz]
    rcases hz with rfl | rfl <;> simp
  rw [if_neg hz]
  have large {x y : Int} (hx : x = I256_MIN) (hy : y ≠ 0) : ¬ MulFits (x * y) := by
    rintro ⟨hmin, hmax⟩
    rw [hx] at hmin hmax
    unfold I256_MIN I256_MAX at *
    omega
  rw [if_neg fun ha => large ha (fun hb => hz (.inr hb)) h,
    if_neg fun hb => large hb (fun ha => hz (.inl ha)) (mul_comm a b ▸ h)]
  have magnitude : (a.natAbs * b.natAbs : Nat) = (a * b).natAbs := (Int.natAbs_mul a b).symm
  obtain ⟨hmin, hmax⟩ := h
  unfold I256_MAX at hmax
  have product : U256.checkedMul a.natAbs b.natAbs = some (a.natAbs * b.natAbs) :=
    if_pos (by unfold U256_MAX; omega)
  refine Option.bind_eq_some_iff.mpr ⟨_, product, ?_⟩
  by_cases signs : decide (a < 0) ≠ decide (b < 0)
  · have hprod := mul_of_signs_ne signs
    rw [if_pos signs, if_neg (by omega), if_neg (by omega)]
    refine Option.bind_eq_some_iff.mpr
      ⟨((a.natAbs * b.natAbs : Nat) : Int), if_pos (by unfold I256_MIN I256_MAX; omega), ?_⟩
    rw [← hprod]
    exact if_pos (by unfold I256_MIN I256_MAX; omega)
  · rw [if_neg signs, mul_of_signs_eq signs]
    have hprod := mul_of_signs_eq signs
    exact if_pos (by unfold I256_MIN I256_MAX; omega)

/-- A product is exact, or it is the `MIN` that stands for no product of the
accrual. -/
theorem checkedMulI256_eq {a b c : Int} (h : I256.checkedMulI256 a b = some c) :
    c = a * b ∧ MulFits (a * b) ∨ c = I256_MIN := by
  unfold I256.checkedMulI256 at h
  split_ifs at h with hz ha hb1 hb ha1
  · obtain rfl := Option.some.inj h
    have : a * b = 0 := by rcases hz with rfl | rfl <;> simp
    rw [this]
    exact .inl ⟨rfl, by decide, by decide⟩
  · exact .inr (Option.some.inj h).symm
  · exact .inr (Option.some.inj h).symm
  · simp only [Option.bind_eq_bind, Option.bind_eq_some_iff, U256.checkedMul] at h
    obtain ⟨product, hp, h⟩ := h
    split_ifs at hp h with hfit hmin hover
    · exact .inr (Option.some.inj h).symm
    · obtain ⟨pos, hpos, h⟩ := Option.bind_eq_some_iff.mp h
      obtain rfl := toI256_eq hpos
      obtain rfl := Option.some.inj hp
      have hprod := mul_of_signs_ne ‹_›
      refine .inl ⟨(toI256_eq h).trans hprod.symm, ?_, ?_⟩
      · omega
      · unfold I256_MAX
        omega
  · simp only [Option.bind_eq_bind, Option.bind_eq_some_iff, U256.checkedMul] at h
    obtain ⟨product, hp, h⟩ := h
    split_ifs at hp
    obtain rfl := Option.some.inj hp
    have hprod := mul_of_signs_eq ‹_›
    obtain rfl := toI256_eq h
    refine .inl ⟨hprod.symm, by omega, ?_⟩
    unfold I256.fromU256OrOverflow toI256 at h
    split_ifs at h with hr
    omega

/-- An index moves up by a product where the product can be formed and the result
stays in `i128`. -/
theorem scaledAdd_iff {k delta k' : Int} {a : Nat} :
    scaledAdd k a delta = some k' ↔
      k' = k + a * delta ∧ InI128 k ∧ InI128 k' ∧ -2 ^ 127 < a * delta := by
  constructor
  · intro h
    simp only [scaledAdd, Option.bind_eq_bind, Option.bind_eq_some_iff] at h
    obtain ⟨x, hx, k₀, hk, w, hw, h⟩ := h
    obtain ⟨rfl, hin⟩ := toI128_eq hk
    obtain rfl := toI256_eq hw
    obtain ⟨rfl, hr⟩ := toI128_eq h
    rcases checkedMulI256_eq hx with ⟨rfl, hmin, -⟩ | rfl
    · exact ⟨rfl, hin, hr, hmin⟩
    · unfold I256_MIN I128_MIN I128_MAX at *
      omega
  · rintro ⟨rfl, hk, hk', hmin⟩
    have fits : MulFits (a * delta) := by
      unfold MulFits I256_MAX
      unfold InI128 I128_MIN I128_MAX at *
      omega
    refine Option.bind_eq_some_iff.mpr ⟨_, checkedMulI256_of_fits fits,
      Option.bind_eq_some_iff.mpr ⟨k, if_pos hk, Option.bind_eq_some_iff.mpr ⟨k + a * delta, ?_, if_pos hk'⟩⟩⟩
    unfold InI128 I128_MIN I128_MAX at hk'
    exact if_pos (by unfold I256_MIN I256_MAX; omega)

/-- An index moves down in the same way. -/
theorem scaledSub_iff {k delta k' : Int} {a : Nat} :
    scaledSub k a delta = some k' ↔
      k' = k - a * delta ∧ InI128 k ∧ InI128 k' ∧ -2 ^ 127 < a * delta := by
  constructor
  · intro h
    simp only [scaledSub, Option.bind_eq_bind, Option.bind_eq_some_iff] at h
    obtain ⟨x, hx, k₀, hk, w, hw, h⟩ := h
    obtain ⟨rfl, hin⟩ := toI128_eq hk
    obtain rfl := toI256_eq hw
    obtain ⟨rfl, hr⟩ := toI128_eq h
    rcases checkedMulI256_eq hx with ⟨rfl, hmin, -⟩ | rfl
    · exact ⟨rfl, hin, hr, hmin⟩
    · unfold I256_MIN I128_MIN I128_MAX at *
      omega
  · rintro ⟨rfl, hk, hk', hmin⟩
    have fits : MulFits (a * delta) := by
      unfold MulFits I256_MAX
      unfold InI128 I128_MIN I128_MAX at *
      omega
    refine Option.bind_eq_some_iff.mpr ⟨_, checkedMulI256_of_fits fits,
      Option.bind_eq_some_iff.mpr ⟨k, if_pos hk, Option.bind_eq_some_iff.mpr ⟨k - a * delta, ?_, if_pos hk'⟩⟩⟩
    unfold InI128 I128_MIN I128_MAX at hk'
    exact if_pos (by unfold I256_MIN I256_MAX; omega)

theorem scaledAdd_eq {k delta k' : Int} {a : Nat} (h : scaledAdd k a delta = some k') :
    k' = k + a * delta ∧ InI128 k' :=
  ⟨(scaledAdd_iff.mp h).1, (scaledAdd_iff.mp h).2.2.1⟩

theorem scaledSub_eq {k delta k' : Int} {a : Nat} (h : scaledSub k a delta = some k') :
    k' = k - a * delta ∧ InI128 k' :=
  ⟨(scaledSub_iff.mp h).1, (scaledSub_iff.mp h).2.2.1⟩

/-- A multiple of `MIN` moves an index out of its type. -/
theorem scaled_min {k k' : Int} {a : Nat}
    (h : scaledAdd k a I256_MIN = some k' ∨ scaledSub k a I256_MIN = some k') : a = 0 := by
  have within : InI128 k ∧ InI128 k' ∧ (k' = k + a * I256_MIN ∨ k' = k - a * I256_MIN) := by
    rcases h with h | h
    · obtain ⟨e, hk, hk', -⟩ := scaledAdd_iff.mp h
      exact ⟨hk, hk', .inl e⟩
    · obtain ⟨e, hk, hk', -⟩ := scaledSub_iff.mp h
      exact ⟨hk, hk', .inr e⟩
  unfold InI128 I128_MIN I128_MAX I256_MIN at within
  omega

theorem fundNumTotal_of_fits {px dt : Nat} (h : MulFits (px * rate)) (h' : MulFits (px * rate * dt)) :
    fundNumTotal px rate dt = some (px * rate * dt) :=
  Option.bind_eq_some_iff.mpr ⟨_, checkedMulI256_of_fits h, checkedMulI256_of_fits h'⟩

theorem fundNumTotal_eq {px dt : Nat} {total : Int} (h : fundNumTotal px rate dt = some total) :
    total = px * rate * dt ∧ (dt = 0 ∨ MulFits (px * rate) ∧ MulFits (px * rate * dt)) ∨
      total = I256_MIN := by
  simp only [fundNumTotal, Option.bind_eq_bind, Option.bind_eq_some_iff] at h
  obtain ⟨x, hx, h⟩ := h
  rcases checkedMulI256_eq hx with ⟨rfl, fits⟩ | rfl
  · exact (checkedMulI256_eq h).imp_left fun h => ⟨h.1, .inr ⟨fits, h.2⟩⟩
  · unfold I256.checkedMulI256 at h
    rw [if_pos rfl] at h
    split_ifs at h with hz
    · obtain rfl := Option.some.inj h
      rcases hz with hz | hz
      · exact absurd hz (by decide)
      · exact .inl ⟨by rw [hz, mul_zero], .inl (by omega)⟩
    · exact .inr (Option.some.inj h).symm

theorem markIndices_eq {deltaP kLong kShort : Int}
    (h : markIndices s (decide ((s.sides .long).oiEffQ ≠ 0)) (decide ((s.sides .short).oiEffQ ≠ 0))
      deltaP = some (kLong, kShort)) (d : Side) :
    (match d with | .long => kLong | .short => kShort) =
        (s.sides d).adlCoeff + (s.sides d).marked d deltaP ∧
      (InI128 (s.sides d).adlCoeff → InI128 (match d with | .long => kLong | .short => kShort)) := by
  simp only [markIndices, Option.bind_eq_bind, Option.bind_eq_some_iff, decide_eq_true_eq,
    Option.pure_def, Option.some.injEq, Prod.mk.injEq] at h
  obtain ⟨x, hx, y, hy, h⟩ := h
  obtain ⟨rfl, rfl⟩ := h
  cases d with
  | long =>
      dsimp only
      unfold SideState.marked
      split_ifs at hx with hc
      · obtain ⟨rfl, hr⟩ := scaledAdd_eq hx
        rw [if_pos hc.2]
        exact ⟨by simp [Side.sign], fun _ => hr⟩
      · obtain rfl := Option.some.inj hx
        refine ⟨?_, id⟩
        split_ifs with hoi
        · have : deltaP = 0 := by by_contra h; exact hc ⟨h, hoi⟩
          simp [this]
        · simp
  | short =>
      dsimp only
      unfold SideState.marked
      split_ifs at hy with hc
      · obtain ⟨rfl, hr⟩ := scaledSub_eq hy
        rw [if_pos hc.2]
        exact ⟨by simp [Side.sign, Int.sub_eq_add_neg], fun _ => hr⟩
      · obtain rfl := Option.some.inj hy
        refine ⟨?_, id⟩
        split_ifs with hoi
        · have : deltaP = 0 := by by_contra h; exact hc ⟨h, hoi⟩
          simp [this]
        · simp

theorem fundIndices_eq {dt : Nat} {fLong fShort : Int}
    (h : fundIndices s (decide ((s.sides .long).oiEffQ ≠ 0)) (decide ((s.sides .short).oiEffQ ≠ 0))
      rate dt = some (fLong, fShort)) (d : Side) :
    (match d with | .long => fLong | .short => fShort) =
        (s.sides d).fNum - s.funded d (s.fundPxLast * rate * dt) ∧
      (InI128 (s.sides d).fNum → InI128 (match d with | .long => fLong | .short => fShort)) := by
  unfold fundIndices at h
  unfold RiskEngine.funded
  split_ifs at h with hc
  · simp only [Option.bind_eq_bind, Option.bind_eq_some_iff, Option.pure_def, Option.some.injEq,
      Prod.mk.injEq] at h
    obtain ⟨total, ht, x, hx, y, hy, h⟩ := h
    obtain ⟨rfl, rfl⟩ := h
    simp only [decide_eq_true_eq] at hc
    rw [if_pos ⟨hc.2.2.1, hc.2.2.2.1⟩]
    have exact_total : ((s.sides .long).adlMult : Int) * total =
        (s.sides .long).adlMult * (s.fundPxLast * rate * dt) ∧
        ((s.sides .short).adlMult : Int) * total =
          (s.sides .short).adlMult * (s.fundPxLast * rate * dt) := by
      rcases fundNumTotal_eq ht with ⟨rfl, -⟩ | rfl
      · exact ⟨rfl, rfl⟩
      · rw [scaled_min (.inr hx), scaled_min (.inl hy)]
        simp
    obtain ⟨rfl, hrx⟩ := scaledSub_eq hx
    obtain ⟨rfl, hry⟩ := scaledAdd_eq hy
    cases d with
    | long => exact ⟨by rw [exact_total.1]; simp [Side.sign], fun _ => hrx⟩
    | short => exact ⟨by rw [exact_total.2]; simp [Side.sign], fun _ => hry⟩
  · simp only [Option.some.injEq, Prod.mk.injEq] at h
    obtain ⟨rfl, rfl⟩ := h
    -- without a rate, time or a price the move is zero
    have hz : (if (s.sides .long).oiEffQ ≠ 0 ∧ (s.sides .short).oiEffQ ≠ 0 then
        d.sign * ((s.sides d).adlMult * (s.fundPxLast * rate * dt)) else 0) = 0 := by
      split_ifs with hoi
      · simp only [decide_eq_true_eq] at hc
        have : rate = 0 ∨ dt = 0 ∨ s.fundPxLast = 0 := by
          by_contra hn
          push Not at hn
          exact hc ⟨hn.1, by omega, hoi.1, hoi.2, by omega⟩
        rcases this with h | h | h <;> simp [h]
      · rfl
    rw [hz]
    cases d <;> exact ⟨by simp, id⟩

/-- Accrual moves the slot only, or the indices of both sides. -/
theorem accrueMarketTo_spec (hok : accrueMarketTo now price rate s = .ok () s' l) :
    s.marketMode = .live ∧ (l = [] ∧ s.currentSlot ≤ now ∧ now = s.lastMarketSlot ∧ s' = s.withCurrentSlot now ∨
      l = [.accrued (price - s.lastOraclePrice) s.fundPxLast rate (now - s.lastMarketSlot)] ∧
        Accrued s s' now price rate) := by
  set P : RiskEngine → List Event → Prop := fun s' l =>
    s.marketMode = .live ∧ (l = [] ∧ s.currentSlot ≤ now ∧ now = s.lastMarketSlot ∧ s' = s.withCurrentSlot now ∨
      l = [.accrued (price - s.lastOraclePrice) s.fundPxLast rate (now - s.lastMarketSlot)] ∧
        Accrued s s' now price rate) with hP
  refine wp_sound (Q := fun _ => P) hok ?_
  simp only [accrueMarketTo, wp_bind, wp_read, wp_rejectIf, wp_ite, wp_orErr, wp_update, wp_writeSide,
    wp_emit, implies_true, true_and, not_not, not_lt, not_or]
  refine fun hlive hprice hrate hcur hmarket => ⟨fun h0 => ⟨hlive, .inl ⟨rfl, hcur, by omega, rfl⟩⟩,
    fun _ _ ks hk fs hf => ?_⟩
  obtain ⟨kLong, kShort⟩ := ks
  obtain ⟨fLong, fShort⟩ := fs
  have hk := markIndices_eq hk
  have hf := fundIndices_eq hf
  refine ⟨hlive, .inr ⟨rfl, hcur, by omega, hprice.2, hrate, rfl, fun d => ?_, fun d => ?_, fun d => ?_⟩⟩
  · rw [← (hk d).1, ← (hf d).1]
    cases d <;> rfl
  · cases d
    · exact (hk .long).2
    · exact (hk .short).2
  · cases d
    · exact (hf .long).2
    · exact (hf .short).2

theorem accrueAndAnchor_spec (hok : accrueAndAnchor now price rate s = .ok () s' l) :
    s.marketMode = .live ∧ (l = [] ∧ s.currentSlot ≤ now ∧ now = s.lastMarketSlot ∧ s' = s.withCurrentSlot now ∨
      l = [.accrued (price - s.lastOraclePrice) s.fundPxLast rate (now - s.lastMarketSlot)] ∧
        Accrued s s' now price rate) := by
  set P : RiskEngine → List Event → Prop := fun s' l =>
    s.marketMode = .live ∧ (l = [] ∧ s.currentSlot ≤ now ∧ now = s.lastMarketSlot ∧ s' = s.withCurrentSlot now ∨
      l = [.accrued (price - s.lastOraclePrice) s.fundPxLast rate (now - s.lastMarketSlot)] ∧
        Accrued s s' now price rate) with hP
  refine wp_sound (Q := fun _ => P) hok ?_
  simp only [accrueAndAnchor, wp_bind, wp_update]
  refine wp_ok fun _ s₁ l₁ h₁ => ?_
  obtain ⟨hlive, ⟨rfl, hcur, hnow, rfl⟩ | ⟨rfl, h⟩⟩ := accrueMarketTo_spec h₁
  · exact ⟨hlive, .inl ⟨rfl, hcur, hnow, rfl⟩⟩
  · refine ⟨hlive, .inr ⟨rfl, ?_⟩⟩
    have : s₁.withCurrentSlot now = s₁ := by rw [h.eq]; rfl
    rwa [this]

end Accrual

section Slots

variable {s s' : RiskEngine} {l : List Event} {i : Nat}

/-- The slots other than the free list and the counters. -/
structure SameButSlots (s s' : RiskEngine) (i : Nat) (u : Bool) (a : Account) : Prop where
  eq : s' = { s with
    used := put s.used i u, accounts := put s.accounts i a
    numUsedAccounts := s'.numUsedAccounts, materializedAccountCount := s'.materializedAccountCount
    freeHead := s'.freeHead, nextFree := s'.nextFree, prevFree := s'.prevFree }

/-- The slot `i` was given up. -/
structure Freed (s s' : RiskEngine) (i : Nat) : Prop extends SameButSlots s s' i false emptyAccount where
  used : s.isUsed i = true
  freeable : (s.accounts i).Freeable
  numUsed : s'.numUsedAccounts + 1 = s.numUsedAccounts
  materialized : s'.materializedAccountCount + 1 = s.materializedAccountCount

theorem freeSlot_spec (hok : freeSlot i s = .ok () s' l) : Freed s s' i ∧ l = [] := by
  refine wp_sound (Q := fun _ s' l => Freed s s' i ∧ l = []) hok ?_
  simp only [freeSlot, wp_bind, wp_read, wp_rejectIf, wp_writeAccount, wp_update, wp_orErr,
    implies_true, true_and, and_true, not_not, not_le, Bool.not_eq_false]
  intro _ hused hfree n hn m hm
  exact ⟨⟨rfl⟩, hused, hfree, (checkedSub_eq hn).symm, (checkedSub_eq hm).symm⟩

/-- The slot `i` was taken. -/
structure Materialized (s s' : RiskEngine) (i slot : Nat) : Prop extends
    SameButSlots s s' i true (emptyAccount.withLastFeeSlot slot) where
  unused : s.isUsed i = false
  lt : i < s.maxAccounts
  numUsed : s'.numUsedAccounts = s.numUsedAccounts + 1
  materialized : s'.materializedAccountCount = s.materializedAccountCount + 1
  capacity : s'.materializedAccountCount ≤ MAX_MATERIALIZED_ACCOUNTS
  room : i < s.params.maxAccounts

theorem materializeAt_spec {slot : Nat} (hok : materializeAt i slot s = .ok () s' l) :
    Materialized s s' i slot ∧ l = [] := by
  refine wp_sound (Q := fun _ s' l => Materialized s s' i slot ∧ l = []) hok ?_
  simp only [materializeAt, wp_bind, wp_read, wp_rejectIf, wp_failIf, wp_writeAccount, wp_update,
    wp_orErr, implies_true, true_and, and_true, not_not, not_le, Bool.not_eq_true]
  intro hlt hroom _ count hcount hcap hunused _ _ _
  exact ⟨⟨rfl⟩, hunused, hlt, rfl, (checkedAddU64_eq hcount).1, not_lt.mp hcap, hroom⟩

/-- A market that began: its parameters and its price were checked. -/
theorem initInPlace_spec {p : RiskParams} {slot price : Nat} (hok : initInPlace p slot price s = .ok () s' l) :
    p.Valid s.maxAccounts ∧ 0 < price ∧ price ≤ MAX_ORACLE_PRICE ∧ s' = freshEngine s.maxAccounts p slot price := by
  refine wp_sound (Q := fun _ s' _ => p.Valid s.maxAccounts ∧ 0 < price ∧ price ≤ MAX_ORACLE_PRICE ∧
    s' = freshEngine s.maxAccounts p slot price) hok ?_
  simp only [initInPlace, validateParams, wp_bind, wp_read, wp_failIf, wp_update, implies_true, true_and,
    Bool.not_eq_false, not_or, not_lt]
  intro checked inRange
  exact ⟨RiskParams.check_iff.mp checked, Nat.pos_of_ne_zero inRange.1, inRange.2, trivial⟩

end Slots

end Percolator
