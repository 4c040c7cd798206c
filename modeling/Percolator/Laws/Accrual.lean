import Percolator.Laws.Settlement

/-!
Accrual: an interval may be cut anywhere without a change.
-/

namespace Percolator

open Effect

variable {s s' : RiskEngine} {l : List Event} {now price t : Nat} {rate : Int}

/-! ### The run of an accrual -/

/-- Whether side `d` has open interest. -/
def RiskEngine.liveOn (s : RiskEngine) (d : Side) : Bool := decide ((s.sides d).oiEffQ ≠ 0)

/-- The side with new indices. -/
def SideState.indexed (v : SideState) (k f : Int) : SideState := { v with adlCoeff := k, fNum := f }

/-- The component of side `d` in a pair for the long and the short side. -/
def Side.pick (d : Side) (k : Int × Int) : Int :=
  match d with
  | .long => k.1
  | .short => k.2

/-- The engine with new indices, at `now` and `price`. -/
def RiskEngine.accruedTo (s : RiskEngine) (now price : Nat) (k f : Int × Int) : RiskEngine :=
  { s with
    sides := fun d => (s.sides d).indexed (d.pick k) (d.pick f)
    currentSlot := now, lastMarketSlot := now, lastOraclePrice := price, fundPxLast := price }

theorem RiskEngine.accruedTo_eq {k f : Int × Int} :
    { (s.setSide .long ((s.sides .long).indexed k.1 f.1)).setSide .short ((s.sides .short).indexed k.2 f.2) with
      currentSlot := now, lastMarketSlot := now, lastOraclePrice := price, fundPxLast := price } =
      s.accruedTo now price k f := by
  have hsides : ((s.setSide .long ((s.sides .long).indexed k.1 f.1)).setSide .short
      ((s.sides .short).indexed k.2 f.2)).sides = fun d => (s.sides d).indexed (d.pick k) (d.pick f) := by
    funext d
    cases d <;> rfl
  simp only [hsides]
  rfl

/-- What an accrual checks before it looks at the indices. -/
structure AccrualAllowed (s : RiskEngine) (now price : Nat) (rate : Int) : Prop where
  live : s.marketMode = .live
  price_pos : 0 < price
  price_le : price ≤ MAX_ORACLE_PRICE
  rate_le : rate.natAbs ≤ s.params.maxAbsFundingE9PerSlot
  current_le : s.currentSlot ≤ now
  market_le : s.lastMarketSlot ≤ now

/-- Whether funding at `rate` moves the indices at all. -/
def RiskEngine.fundingActive (s : RiskEngine) (rate : Int) : Prop :=
  rate ≠ 0 ∧ s.liveOn .long = true ∧ s.liveOn .short = true ∧ 0 < s.fundPxLast

instance (s : RiskEngine) (rate : Int) : Decidable (s.fundingActive rate) := by
  unfold RiskEngine.fundingActive; infer_instance

/-- An accrual that moves the indices. -/
structure Moves (s : RiskEngine) (now price : Nat) (rate : Int) (k f : Int × Int) : Prop where
  moved : ¬ (now - s.lastMarketSlot = 0 ∧ s.lastOraclePrice = price)
  envelope : s.fundingActive rate → now - s.lastMarketSlot ≤ s.params.maxAccrualDtSlots
  mark : markIndices s (s.liveOn .long) (s.liveOn .short) (price - s.lastOraclePrice) = some k
  fund : fundIndices s (s.liveOn .long) (s.liveOn .short) rate (now - s.lastMarketSlot) = some f

theorem accrueMarketTo_inv (hok : accrueMarketTo now price rate s = .ok () s' l) :
    AccrualAllowed s now price rate ∧
      (now - s.lastMarketSlot = 0 ∧ s.lastOraclePrice = price ∧ s' = s.withCurrentSlot now ∨
        ∃ k f, Moves s now price rate k f ∧ s' = s.accruedTo now price k f) := by
  set P : RiskEngine → Prop := fun s' => AccrualAllowed s now price rate ∧
    (now - s.lastMarketSlot = 0 ∧ s.lastOraclePrice = price ∧ s' = s.withCurrentSlot now ∨
      ∃ k f, Moves s now price rate k f ∧ s' = s.accruedTo now price k f) with hP
  refine wp_sound (Q := fun _ s' _ => P s') hok ?_
  simp only [accrueMarketTo, wp_bind, wp_read, wp_rejectIf, wp_ite, wp_orErr, wp_update, wp_writeSide,
    wp_emit, implies_true, true_and, not_not, not_lt, not_or]
  intro hlive hprice hrate hcur hmarket
  have allowed : AccrualAllowed s now price rate :=
    ⟨hlive, Nat.pos_of_ne_zero hprice.1, hprice.2, hrate, hcur, hmarket⟩
  refine ⟨fun h0 => ⟨allowed, .inl ⟨h0.1, h0.2, rfl⟩⟩, fun hmoved henv k hk f hf => ⟨allowed, .inr ⟨k, f, ?_⟩⟩⟩
  refine ⟨⟨hmoved, fun hactive => ?_, hk, hf⟩, ?_⟩
  · exact Nat.le_of_not_lt fun hlt => henv ⟨hactive, hlt⟩
  · exact RiskEngine.accruedTo_eq

/-- The checks of an accrual that is allowed do not fault. -/
theorem AccrualAllowed.run {Q : RiskEngine → Prop} (h : AccrualAllowed s now price rate)
    (still : now - s.lastMarketSlot = 0 ∧ s.lastOraclePrice = price → Q (s.withCurrentSlot now))
    (moves : ¬ (now - s.lastMarketSlot = 0 ∧ s.lastOraclePrice = price) →
      ∃ k f, Moves s now price rate k f ∧ Q (s.accruedTo now price k f)) :
    ∃ s' l, accrueMarketTo now price rate s = .ok () s' l ∧ Q s' := by
  obtain ⟨_, s', l, hok, hq⟩ := wp_total (m := accrueMarketTo now price rate) (s := s)
    (Q := fun _ s' _ => Q s') (by
      have hprice := h.price_pos
      simp only [accrueMarketTo, wp_bind, wp_read, wp_rejectIf, wp_ite, wp_orErr, wp_update, wp_writeSide,
        wp_emit]
      refine ⟨fun hn => hn h.live, fun _ => ⟨fun hn => ?_, fun _ => ⟨fun hn => ?_, fun _ => ⟨fun hn => ?_,
        fun _ => ⟨fun hn => ?_, fun _ => ⟨still, fun hmoved => ?_⟩⟩⟩⟩⟩⟩
      · have := h.price_le
        omega
      · exact absurd h.rate_le (not_le.mpr hn)
      · exact absurd h.current_le (not_le.mpr hn)
      · exact absurd h.market_le (not_le.mpr hn)
      · obtain ⟨k, f, hm, hq⟩ := moves hmoved
        refine ⟨fun hn => absurd (hm.envelope hn.1) (not_le.mpr hn.2), fun _ => ⟨fun hn => ?_, fun k' hk => ?_⟩⟩
        · exact absurd (hm.mark.symm.trans hn) (by rintro ⟨⟩)
        · obtain rfl : k = k' := Option.some.inj (hm.mark.symm.trans hk)
          refine ⟨fun hn => absurd (hm.fund.symm.trans hn) (by rintro ⟨⟩), fun f' hf => ?_⟩
          obtain rfl : f = f' := Option.some.inj (hm.fund.symm.trans hf)
          rw [← RiskEngine.accruedTo_eq] at hq
          exact hq)
  exact ⟨s', l, hok, hq⟩

/-! ### Funding -/

/-- A multiple by fewer slots lies between zero and the multiple by more. -/
theorem mul_between (c : Int) {x y : Nat} (h : x ≤ y) :
    0 ≤ c * x ∧ c * x ≤ c * y ∨ c * y ≤ c * x ∧ c * x ≤ 0 := by
  have hx : (0 : Int) ≤ x := Int.natCast_nonneg x
  have hxy : (x : Int) ≤ y := Int.ofNat_le.mpr h
  rcases le_total 0 c with hc | hc
  · exact .inl ⟨mul_nonneg hc hx, mul_le_mul_of_nonneg_left hxy hc⟩
  · exact .inr ⟨mul_le_mul_of_nonpos_left hxy hc, mul_nonpos_of_nonpos_of_nonneg hc hx⟩

/-- The funding of `dt` slots stays within every width on side `d`. -/
structure SideFits (v : SideState) (d : Side) (perSlot : Int) (dt : Nat) : Prop where
  moved : -2 ^ 127 < v.adlMult * (perSlot * dt)
  before : InI128 v.fNum
  after : InI128 (v.fNum - d.sign * (v.adlMult * (perSlot * dt)))

/-- The funding of `dt` slots at `rate` stays within every width. -/
structure FundFits (s : RiskEngine) (rate : Int) (dt : Nat) : Prop where
  perSlot : MulFits (s.fundPxLast * rate)
  total : MulFits (s.fundPxLast * rate * dt)
  side : ∀ d, SideFits (s.sides d) d (s.fundPxLast * rate) dt

theorem fundIndices_idle {dt : Nat} (h : s.fundingActive rate → dt = 0) :
    fundIndices s (s.liveOn .long) (s.liveOn .short) rate dt =
      some ((s.sides .long).fNum, (s.sides .short).fNum) := by
  unfold fundIndices
  exact if_neg fun hc => by
    have := h ⟨hc.1, hc.2.2.1, hc.2.2.2.1, hc.2.2.2.2⟩
    omega

theorem fundIndices_of_fits {dt : Nat} (h : s.fundingActive rate) (hdt : 0 < dt) (fits : FundFits s rate dt) :
    fundIndices s (s.liveOn .long) (s.liveOn .short) rate dt =
      some ((s.sides .long).fNum - (s.sides .long).adlMult * (s.fundPxLast * rate * dt),
        (s.sides .short).fNum + (s.sides .short).adlMult * (s.fundPxLast * rate * dt)) := by
  unfold fundIndices
  rw [if_pos ⟨h.1, hdt, h.2.1, h.2.2.1, h.2.2.2⟩]
  have long := fits.side .long
  have short := fits.side .short
  have hlong := long.after
  have hshort := short.after
  simp only [Side.sign, one_mul, neg_one_mul, sub_neg_eq_add] at hlong hshort
  refine Option.bind_eq_some_iff.mpr ⟨_, fundNumTotal_of_fits fits.perSlot fits.total, ?_⟩
  refine Option.bind_eq_some_iff.mpr ⟨_, scaledSub_iff.mpr ⟨rfl, long.before, hlong, long.moved⟩, ?_⟩
  exact Option.bind_eq_some_iff.mpr ⟨_, scaledAdd_iff.mpr ⟨rfl, short.before, hshort, short.moved⟩, rfl⟩

theorem fundIndices_fits {dt : Nat} {f : Int × Int} (mult : ∀ d, 0 < (s.sides d).adlMult)
    (h : s.fundingActive rate) (hdt : 0 < dt)
    (hf : fundIndices s (s.liveOn .long) (s.liveOn .short) rate dt = some f) : FundFits s rate dt := by
  unfold fundIndices at hf
  rw [if_pos ⟨h.1, hdt, h.2.1, h.2.2.1, h.2.2.2⟩] at hf
  simp only [Option.bind_eq_bind, Option.bind_eq_some_iff] at hf
  obtain ⟨total, ht, x, hx, y, hy, -⟩ := hf
  rcases fundNumTotal_eq ht with ⟨rfl, h0 | ⟨perSlot, fits⟩⟩ | rfl
  · omega
  · obtain ⟨rfl, hbl, hal, hml⟩ := scaledSub_iff.mp hx
    obtain ⟨rfl, hbs, has, hms⟩ := scaledAdd_iff.mp hy
    refine ⟨perSlot, fits, fun d => ?_⟩
    cases d with
    | long => exact ⟨hml, hbl, by simpa [Side.sign] using hal⟩
    | short => exact ⟨hms, hbs, by simpa [Side.sign] using has⟩
  · have := mult .long
    have := scaled_min (.inr hx)
    omega

/-- What fits over an interval fits over its first part. -/
theorem SideFits.first {v : SideState} {d : Side} {perSlot : Int} {x y : Nat} (h : SideFits v d perSlot y)
    (hxy : x ≤ y) : SideFits v d perSlot x := by
  have regroup (z : Nat) : v.adlMult * (perSlot * z) = v.adlMult * perSlot * z := (mul_assoc ..).symm
  have hb := mul_between (v.adlMult * perSlot) hxy
  obtain ⟨moved, before, after⟩ := h
  rw [regroup] at moved after
  unfold InI128 at *
  refine ⟨?_, before, ?_⟩ <;> rw [regroup]
  · omega
  · unfold InI128
    cases d <;> simp only [Side.sign, one_mul, neg_one_mul, sub_neg_eq_add] at * <;> omega

/-- What fits over an interval fits over its second part, from the index that the
first part leaves. -/
theorem SideFits.second {v w : SideState} {d : Side} {perSlot : Int} {x y : Nat}
    (h : SideFits v d perSlot (x + y)) (mult : w.adlMult = v.adlMult)
    (moved : w.fNum = v.fNum - d.sign * (v.adlMult * (perSlot * x))) : SideFits w d perSlot y := by
  have regroup (z : Nat) : v.adlMult * (perSlot * z) = v.adlMult * perSlot * z := (mul_assoc ..).symm
  have hb := mul_between (v.adlMult * perSlot) (Nat.le_add_left y x)
  have hsum : v.adlMult * perSlot * (x + y : Nat) = v.adlMult * perSlot * x + v.adlMult * perSlot * y := by
    push_cast
    ring
  refine ⟨?_, moved ▸ (h.first (Nat.le_add_right x y)).after, ?_⟩
  · have := h.moved
    rw [mult, regroup]
    rw [regroup] at this
    omega
  · have := h.after
    rw [moved, mult, regroup, regroup]
    rw [regroup, hsum] at this
    convert this using 1
    ring

theorem FundFits.first {x y : Nat} (h : FundFits s rate y) (hxy : x ≤ y) : FundFits s rate x := by
  have hb := mul_between (s.fundPxLast * rate) hxy
  refine ⟨h.perSlot, ?_, fun d => (h.side d).first hxy⟩
  have := h.total
  unfold MulFits I256_MAX at *
  omega

theorem FundFits.second {x y : Nat} {p : Nat} {k f : Int × Int} (h : FundFits s rate (x + y))
    (price : p = s.fundPxLast)
    (long : f.1 = (s.sides .long).fNum - (s.sides .long).adlMult * (s.fundPxLast * rate * x))
    (short : f.2 = (s.sides .short).fNum + (s.sides .short).adlMult * (s.fundPxLast * rate * x)) :
    FundFits (s.accruedTo t p k f) rate y := by
  have hpx : (s.accruedTo t p k f).fundPxLast = s.fundPxLast := price
  refine ⟨by rw [hpx]; exact h.perSlot, ?_, fun d => ?_⟩
  · rw [hpx]
    have hb := mul_between (s.fundPxLast * rate) (Nat.le_add_left y x)
    have := h.total
    unfold MulFits I256_MAX at *
    omega
  · rw [hpx]
    cases d with
    | long => exact (h.side .long).second rfl (long.trans (by simp [Side.sign]))
    | short => exact (h.side .short).second rfl (short.trans (by simp [Side.sign]))

/-! ### Splitting an interval -/

theorem accruedTo_accruedTo {p : Nat} {k k' f f' : Int × Int} :
    (s.accruedTo t p k f).accruedTo now price k' f' = s.accruedTo now price k' f' := rfl

/-- A mark depends on the K indices and the multipliers only. -/
theorem markIndices_accruedTo {p : Nat} {f : Int × Int} {deltaP : Int} {longLive shortLive : Bool} :
    markIndices (s.accruedTo t p ((s.sides .long).adlCoeff, (s.sides .short).adlCoeff) f) longLive shortLive
      deltaP = markIndices s longLive shortLive deltaP := rfl

theorem markIndices_zero {longLive shortLive : Bool} :
    markIndices s longLive shortLive 0 = some ((s.sides .long).adlCoeff, (s.sides .short).adlCoeff) := by
  simp [markIndices]

/-- Cutting an interval at `t`, with the old price up to there, changes nothing: both
pieces succeed, and they end in the state the whole ends in. -/
theorem Reachable.accrual_splits (h : Reachable s) (hok : accrueMarketTo now price rate s = .ok () s' l)
    (after : s.currentSlot ≤ t) (before : t ≤ now) :
    ∃ s₁ l₁ l₂, accrueMarketTo t s.lastOraclePrice rate s = .ok () s₁ l₁ ∧
      accrueMarketTo now price rate s₁ = .ok () s' l₂ := by
  obtain ⟨allowed, whole⟩ := accrueMarketTo_inv hok
  have timely : Timely s := h.good.timely
  have sampled : s.fundPxLast = s.lastOraclePrice := timely.sampled
  have market_le := timely.market_le allowed.live
  have mult (d : Side) : 0 < (s.sides d).adlMult := ((h.good.positions allowed.live).side d).mult_pos
  have first : AccrualAllowed s t s.lastOraclePrice rate :=
    ⟨allowed.live, timely.price_pos, timely.price_le, allowed.rate_le, after, market_le.trans after⟩
  have still_first (hslot : t - s.lastMarketSlot = 0) :
      ∃ l₁, accrueMarketTo t s.lastOraclePrice rate s = .ok () (s.withCurrentSlot t) l₁ := by
    obtain ⟨_, l₁, hok₁, rfl⟩ := first.run (Q := (· = s.withCurrentSlot t)) (fun _ => rfl)
      fun hn => absurd ⟨hslot, rfl⟩ hn
    exact ⟨l₁, hok₁⟩
  rcases whole with ⟨slot, same, rfl⟩ | ⟨k, f, whole, rfl⟩
  · -- no time has passed, and the price is the old one
    obtain ⟨l₁, hok₁⟩ := still_first (by omega)
    have second : AccrualAllowed (s.withCurrentSlot t) now price rate :=
      ⟨allowed.live, allowed.price_pos, allowed.price_le, allowed.rate_le, before, allowed.market_le⟩
    obtain ⟨_, l₂, hok₂, rfl⟩ := second.run (Q := (· = s.withCurrentSlot now)) (fun _ => rfl)
      fun hn => absurd ⟨slot, same⟩ hn
    exact ⟨_, l₁, l₂, hok₁, hok₂⟩
  by_cases hslot : t - s.lastMarketSlot = 0
  · -- the first piece is empty
    obtain ⟨l₁, hok₁⟩ := still_first hslot
    have second : AccrualAllowed (s.withCurrentSlot t) now price rate :=
      ⟨allowed.live, allowed.price_pos, allowed.price_le, allowed.rate_le, before, allowed.market_le⟩
    obtain ⟨_, l₂, hok₂, rfl⟩ := second.run (Q := (· = s.accruedTo now price k f))
      (fun hn => absurd hn whole.moved) fun _ => ⟨k, f, ⟨whole.moved, whole.envelope, whole.mark, whole.fund⟩, rfl⟩
    exact ⟨_, l₁, l₂, hok₁, hok₂⟩
  -- both indices of the first piece
  obtain ⟨x, y, hx, hy, hxy⟩ : ∃ x y, x = t - s.lastMarketSlot ∧ y = now - t ∧ now - s.lastMarketSlot = x + y :=
    ⟨_, _, rfl, rfl, by omega⟩
  have fund := whole.fund
  have envelope := whole.envelope
  rw [hxy] at fund envelope
  obtain ⟨g, first_fund, second_fund, rest⟩ : ∃ g,
      fundIndices s (s.liveOn .long) (s.liveOn .short) rate x = some g ∧
      (∀ k₀, fundIndices (s.accruedTo t s.lastOraclePrice k₀ g) (s.liveOn .long) (s.liveOn .short) rate y =
        some f) ∧ (y = 0 → g = f) := by
    by_cases hactive : s.fundingActive rate
    · have fits := fundIndices_fits mult hactive (by omega) fund
      rw [fundIndices_of_fits hactive (by omega) fits] at fund
      obtain rfl := Option.some.inj fund
      refine ⟨_, fundIndices_of_fits hactive (by omega) (fits.first (Nat.le_add_right x y)), fun k₀ => ?_, ?_⟩
      · rcases Nat.eq_zero_or_pos y with rfl | hpos
        · exact fundIndices_idle fun _ => rfl
        · have hactive' := hactive
          rw [RiskEngine.fundingActive, sampled] at hactive'
          refine (fundIndices_of_fits (s := s.accruedTo t s.lastOraclePrice k₀ _) hactive' hpos
            (fits.second sampled.symm rfl rfl)).trans ?_
          simp only [RiskEngine.accruedTo, SideState.indexed, Side.pick, sampled, Option.some.injEq,
            Prod.mk.injEq]
          push_cast
          constructor <;> ring
      · rintro rfl
        rfl
    · have idle : fundIndices s (s.liveOn .long) (s.liveOn .short) rate (x + y) = _ :=
        fundIndices_idle fun hc => absurd hc hactive
      rw [idle] at fund
      refine ⟨_, fundIndices_idle fun hc => absurd hc hactive, fun k₀ => ?_, fun _ => Option.some.inj fund⟩
      obtain rfl := Option.some.inj fund
      refine fundIndices_idle (s := s.accruedTo t s.lastOraclePrice k₀ _) fun hc => absurd ?_ hactive
      rw [RiskEngine.fundingActive, sampled]
      exact hc
  have mark : markIndices s (s.liveOn .long) (s.liveOn .short) 0 = _ := markIndices_zero
  obtain ⟨_, l₁, hok₁, rfl⟩ := first.run
    (Q := (· = s.accruedTo t s.lastOraclePrice ((s.sides .long).adlCoeff, (s.sides .short).adlCoeff) g))
    (fun hn => absurd hn.1 hslot) fun hn => ⟨_, _, ⟨hn, fun ha => by have := envelope ha; omega, by
      rw [sub_self]; exact mark, hx ▸ first_fund⟩, rfl⟩
  have second : AccrualAllowed (s.accruedTo t s.lastOraclePrice
      ((s.sides .long).adlCoeff, (s.sides .short).adlCoeff) g) now price rate :=
    ⟨allowed.live, allowed.price_pos, allowed.price_le, allowed.rate_le, before, before⟩
  have finish (hn : now - t = 0 ∧ s.lastOraclePrice = price) :
      (s.accruedTo t s.lastOraclePrice ((s.sides .long).adlCoeff, (s.sides .short).adlCoeff) g).withCurrentSlot
        now = s.accruedTo now price k f := by
    obtain rfl : now = t := by omega
    obtain rfl := hn.2
    obtain rfl := rest (by omega)
    have old := whole.mark
    rw [sub_self, mark] at old
    obtain rfl := Option.some.inj old
    rfl
  have active_iff : (s.accruedTo t s.lastOraclePrice
      ((s.sides .long).adlCoeff, (s.sides .short).adlCoeff) g).fundingActive rate ↔ s.fundingActive rate := by
    rw [RiskEngine.fundingActive, RiskEngine.fundingActive, sampled]
    rfl
  obtain ⟨_, l₂, hok₂, rfl⟩ := second.run (Q := (· = s.accruedTo now price k f)) finish
    fun hn => ⟨k, f, ⟨hn, fun ha => le_trans (by show now - t ≤ x + y; omega) (envelope (active_iff.mp ha)),
      whole.mark, hy ▸ second_fund _⟩, accruedTo_accruedTo⟩
  exact ⟨_, l₁, l₂, hok₁, hok₂⟩

/-- The sample parameters with funding switched on. -/
def fundedParams : RiskParams := { sampleParams with maxAbsFundingE9PerSlot := 1000 }

/-- The trade of the sample market, in a market with funding. -/
def fundedMarket : RiskEngine :=
  performAll (freshEngine 4 fundedParams 100 1000)
    [.deposit 1 100000 101, .deposit 2 100000 101,
      .executeTrade 1 2 1000 101 50000000 1000 0 10 100]

theorem fundedMarket_reachable : Reachable fundedMarket := by
  have initial : Initial (freshEngine 4 fundedParams 100 1000) :=
    ⟨freshEngine 4 fundedParams 100 1000, fundedParams, 100, 1000, [], rfl⟩
  exact Reachable.performAll ⟨_, _, initial, .refl _⟩ _

theorem fundedMarket_accrual_splits : ∃ s₁ l₁ l₂,
    accrueMarketTo 130 fundedMarket.lastOraclePrice 700 fundedMarket = .ok () s₁ l₁ ∧
      accrueMarketTo 150 1010 700 s₁ = .ok () (accrueMarketTo 150 1010 700 fundedMarket).final l₂ := by
  obtain ⟨_, l, hok⟩ := Outcome.eq_ok (o := accrueMarketTo 150 1010 700 fundedMarket) (by decide +kernel)
  exact fundedMarket_reachable.accrual_splits hok (by decide +kernel) (by decide +kernel)

end Percolator
