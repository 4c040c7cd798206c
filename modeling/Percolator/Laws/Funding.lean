import Percolator.Laws.Accrual

/-!
The lifetime of funding: the F index of a side moves by what the slots under
funding allow, so that within the lifetime of the parameters it never overflows.
-/

namespace Percolator

open Effect

variable {s s' s₀ : RiskEngine} {sc : Scope} {c c' : Conf} {l : List Event} {now price n : Nat} {rate : Int}
  {d : Side}

/-! ### The step of one side -/

/-- The F index of side `d` after funding at `rate` over `dt` slots. -/
def RiskEngine.fundStep (s : RiskEngine) (d : Side) (rate : Int) (dt : Nat) : Option Int := do
  let total ← fundNumTotal s.fundPxLast rate dt
  match d with
  | .long => scaledSub (s.sides .long).fNum (s.sides .long).adlMult total
  | .short => scaledAdd (s.sides .short).fNum (s.sides .short).adlMult total

/-- Funding moves both sides by their own steps, or none. -/
theorem fundIndices_eq_steps {dt : Nat} :
    fundIndices s (s.liveOn .long) (s.liveOn .short) rate dt =
      if s.fundingActive rate ∧ 0 < dt then (do
        let fLong ← s.fundStep .long rate dt
        let fShort ← s.fundStep .short rate dt
        return (fLong, fShort))
      else some ((s.sides .long).fNum, (s.sides .short).fNum) := by
  by_cases h : s.fundingActive rate ∧ 0 < dt
  · rw [if_pos h]
    unfold fundIndices RiskEngine.fundStep
    rw [if_pos ⟨h.1.1, h.2, h.1.2.1, h.1.2.2.1, h.1.2.2.2⟩]
    cases fundNumTotal s.fundPxLast rate dt <;> rfl
  · rw [if_neg h]
    unfold fundIndices
    exact if_neg fun hc => h ⟨⟨hc.1, hc.2.2.1, hc.2.2.2.1, hc.2.2.2.2⟩, hc.2.1⟩

/-- Where funding fails, the step of a side fails. -/
theorem fundIndices_eq_none {dt : Nat} (h : fundIndices s (s.liveOn .long) (s.liveOn .short) rate dt = none) :
    ∃ d, s.fundStep d rate dt = none := by
  rw [fundIndices_eq_steps] at h
  split_ifs at h
  cases hlong : s.fundStep .long rate dt with
  | none => exact ⟨.long, hlong⟩
  | some fLong =>
      cases hshort : s.fundStep .short rate dt with
      | none => exact ⟨.short, hshort⟩
      | some fShort => simp [hlong, hshort] at h

theorem fundStep_of_fits {dt : Nat} (perSlot : MulFits (s.fundPxLast * rate))
    (total : MulFits (s.fundPxLast * rate * dt)) (fits : SideFits (s.sides d) d (s.fundPxLast * rate) dt) :
    (s.fundStep d rate dt).isSome := by
  have after := fits.after
  rw [RiskEngine.fundStep, fundNumTotal_of_fits perSlot total]
  cases d with
  | long =>
      rw [Side.sign, one_mul] at after
      rw [Option.isSome_iff_exists]
      exact ⟨_, scaledSub_iff.mpr ⟨rfl, fits.before, after, fits.moved⟩⟩
  | short =>
      rw [Side.sign, neg_one_mul, sub_neg_eq_add] at after
      rw [Option.isSome_iff_exists]
      exact ⟨_, scaledAdd_iff.mpr ⟨rfl, fits.before, after, fits.moved⟩⟩

/-! ### Slots under funding -/

/-- The slots over which an accrual applies funding where both sides are open. -/
def Event.fundingSlots : Event → Nat
  | .accrued _ fundPx rate dt => if rate ≠ 0 ∧ 0 < fundPx then dt else 0
  | _ => 0

/-- The slots over which an operation that begins in `s` and emits `l` applied funding. -/
def RiskEngine.fundedSlots (s : RiskEngine) (l : List Event) : Nat :=
  if (s.sides .long).oiEffQ ≠ 0 ∧ (s.sides .short).oiEffQ ≠ 0 then (l.map Event.fundingSlots).sum else 0

/-- `Funded s n s'`: a history leads from `s` to `s'`, and funding was applied over `n` slots of it. -/
inductive Funded : RiskEngine → Nat → RiskEngine → Prop
  | refl (s : RiskEngine) : Funded s 0 s
  | committed {s s₁ s₂ : RiskEngine} {n : Nat} {ins : Instruction} {l : List Event} (before : Funded s n s₁)
      (ok : ins.run s₁ = .ok () s₂ l) : Funded s (n + s₁.fundedSlots l) s₂
  | rolledBack {s s₁ s₂ : RiskEngine} {n : Nat} {ins : Instruction} {f : Fault} (before : Funded s n s₁)
      (fault : ins.run s₁ = .fault f s₂) : Funded s n s₁

/-- Every history has its slots under funding. -/
theorem History.funded {ls : List (Instruction × List Event)} (h : History s ls s') : ∃ n, Funded s n s' := by
  induction h with
  | refl => exact ⟨0, .refl _⟩
  | tail _ last ih =>
      obtain ⟨n, hn⟩ := ih
      cases last with
      | committed ok => exact ⟨_, hn.committed ok⟩
      | rolledBack fault => exact ⟨n, hn.rolledBack fault⟩

theorem Funded.reachable (h : Funded s n s') (hs : Reachable s) : Reachable s' := by
  induction h with
  | refl => exact hs
  | committed _ ok ih => exact ih.performed (.committed ok)
  | rolledBack _ _ ih => exact ih

/-! ### What a step does to F -/

/-- What a step can do to the F index of side `d`. -/
inductive FundMove (c : Conf) (l : List Event) (c' : Conf) (d : Side) : Prop
  | kept (same : (c'.engine.sides d).fNum = (c.engine.sides d).fNum)
  | cleared (zero : (c'.engine.sides d).fNum = 0)
  | accrued {now price : Nat} {rate : Int} (fresh : c.phase.touched = []) (live : c.engine.marketMode = .live)
      (accrued : Accrued c.engine c'.engine now price rate)
      (event : l = [.accrued (price - c.engine.lastOraclePrice) c.engine.fundPxLast rate
        (now - c.engine.lastMarketSlot)])

theorem SideState.finalized_fund (v : SideState) (pending : Bool) :
    (v.finalized pending).fNum = v.fNum ∨ (v.finalized pending).fNum = 0 := by
  unfold finalized reopened
  split_ifs
  all_goals first | exact .inl rfl | exact .inr rfl

theorem Absorbed.fund {v w : SideState} {q : Nat} (h : Absorbed d v q w l) : w.fNum = v.fNum := by
  cases h <;> rfl

theorem Step.fundMove (step : Step sc c l c') (d : Side) : FundMove c l c' d := by
  have finalized {s : RiskEngine} {ph ph' : Phase} {f : Side → SideState} {marks : Side → Bool}
      (same : ∀ d, (f d).fNum = (s.sides d).fNum) :
      FundMove ⟨s, ph⟩ l ⟨s.withSides fun d => (f d).finalized (marks d), ph'⟩ d := by
    rcases (f d).finalized_fund (marks d) with h | h
    · exact .kept (h.trans (same d))
    · exact .cleared h
  cases step with
  | noted | booked | charged | forgave | relabeled | funded | clocked | slipped | checked | captured | wiped =>
      exact .kept rfl
  | accrued rest fresh live fits accrued => exact .accrued fresh live accrued rfl
  | settled used reach touched live closing calm scope settled => exact .kept (by rw [settled.eq]; rfl)
  | traded usedA usedB reachA reachB allowedA allowedB touchedA touchedB live pending closing trading
      syncedA syncedB traded =>
      obtain ⟨s₁, s₂, f, g, hA, hB, rfl⟩ := traded.legs
      exact .kept (by show (s₂.sides d).fNum = _; rw [hB.eq, hA.eq]; rfl)
  | closed allowed used reach touched live pending closing calm closed =>
      obtain ⟨f, hf⟩ := closed.attached
      exact .kept (by rw [hf.eq]; rfl)
  | @deleveraged s ph i e q v l f marks used live pending closing pos fund absorbed marked =>
      refine .kept ?_
      show (if d = e.opposite then v else _).fNum = _
      split_ifs with he
      · rw [he, absorbed.fund]
      · rfl
  | reset live closing scheduled drained => exact finalized fun _ => rfl
  | reopened =>
      refine .kept ?_
      show (SideState.reopened _).fNum = _
      unfold SideState.reopened
      split_ifs <;> rfl
  | materialized allowed reach live le materialized => exact .kept (by rw [materialized.eq])
  | freed allowed reach charges clean freed =>
      refine .kept ?_
      rw [RiskEngine.swept_eq, freed.eq]
      rfl
  | resolved price live now kDelta rest mode le drained =>
      rcases ((_ : RiskEngine).sides d).finalized_fund true with h | h
      · exact .kept h
      · exact .cleared h
  | reconciled used reach mode reconciled => exact .kept (by rw [reconciled.eq]; rfl)
  | paid used reach allowed mode paid => exact .kept (by rw [paid.eq]; rfl)

/-! ### Open interest before an accrual -/

/-- Neither side has open interest. -/
def RiskEngine.Closed (s : RiskEngine) : Prop := ∀ d, (s.sides d).oiEffQ = 0

/-- Until an instruction touches an account, it does not open a closed market. -/
theorem Step.stays_closed (step : Step sc c l c') (fresh : c'.phase.touched = []) :
    c.phase.touched = [] ∧ (c.engine.Closed → c'.engine.Closed) := by
  cases step with
  | noted => cases fresh
  | booked | charged | forgave | relabeled | funded | clocked | slipped | checked | captured | wiped =>
      exact ⟨fresh, id⟩
  | accrued rest fresh' live fits accrued => exact ⟨fresh, fun zero d => by rw [accrued.side d]; exact zero d⟩
  | settled used reach touched =>
      rw [show Phase.touched _ = [] from fresh] at touched
      cases touched
  | traded usedA usedB reachA reachB allowedA allowedB touchedA =>
      rw [show Phase.touched _ = [] from fresh] at touchedA
      cases touchedA
  | closed allowed used reach touched =>
      rw [show Phase.touched _ = [] from fresh] at touched
      cases touched
  | @deleveraged s ph i e q v l f marks used live pending closing pos fund absorbed marked =>
      refine ⟨fresh, fun zero d => ?_⟩
      have left : v.oiEffQ = 0 := Nat.eq_zero_of_le_zero ((zero e.opposite) ▸ absorbed.oi_le)
      show (if d = e.opposite then v else _).oiEffQ = 0
      split_ifs
      · exact left
      · exact left
  | reset live closing scheduled drained =>
      refine ⟨fresh, fun zero d => ?_⟩
      refine (SideState.finalized_oi _ _).trans ?_
      rcases scheduled.kept_or_cleared with kept | cleared
      · exact (kept d).trans (zero d)
      · exact (cleared d).1
  | reopened => exact ⟨fresh, fun zero d => (SideState.reopened_oi _).trans (zero d)⟩
  | materialized allowed reach live le materialized => exact ⟨fresh, by rw [materialized.eq]; exact id⟩
  | freed allowed reach charges clean freed =>
      refine ⟨fresh, ?_⟩
      rw [RiskEngine.swept_eq, freed.eq]
      exact id
  | resolved price live now kDelta rest mode le drained =>
      exact ⟨fresh, fun _ d => (SideState.finalized_oi _ _).trans rfl⟩
  | reconciled used reach mode reconciled => exact ⟨fresh, by rw [reconciled.eq]; exact id⟩
  | paid used reach allowed mode paid => exact ⟨fresh, by rw [paid.eq]; exact id⟩

/-- The parameters of a market do not change. -/
theorem Step.params (step : Step sc c l c') : c'.engine.params = c.engine.params := by
  cases step with
  | noted | booked | charged | forgave | relabeled | funded | clocked | slipped | checked | deleveraged | reset
  | reopened | resolved | captured | wiped => rfl
  | accrued rest fresh live fits accrued => rw [accrued.eq]
  | settled used reach touched live closing calm scope settled => rw [settled.eq]; rfl
  | traded usedA usedB reachA reachB allowedA allowedB touchedA touchedB live pending closing trading
      syncedA syncedB traded =>
      obtain ⟨s₁, s₂, f, g, hA, hB, rfl⟩ := traded.legs
      rw [RiskEngine.withSides_params, hB.eq, RiskEngine.reseat_params, hA.eq, RiskEngine.reseat_params]
  | closed allowed used reach touched live pending closing calm closed =>
      obtain ⟨f, hf⟩ := closed.attached
      rw [hf.eq]; rfl
  | materialized allowed reach live le materialized => rw [materialized.eq]
  | freed allowed reach charges clean freed => rw [RiskEngine.swept_eq, freed.eq]; rfl
  | reconciled used reach mode reconciled => rw [reconciled.eq]; rfl
  | paid used reach allowed mode paid => rw [paid.eq]; rfl

/-! ### The index of a run -/

/-- The most by which a slot under funding moves the index of a side. -/
def RiskParams.fundingPerSlot (p : RiskParams) : Nat := ADL_ONE * MAX_ORACLE_PRICE * p.maxAbsFundingE9PerSlot

/-- The products of an accrual of `dt` slots at an allowed rate. -/
theorem Good.funding_le {ph : Phase} (dt : Nat) (h : Good ⟨s, ph⟩) (live : s.marketMode = .live)
    (hrate : rate.natAbs ≤ s.params.maxAbsFundingE9PerSlot) :
    ((s.sides d).adlMult * (s.fundPxLast * rate * dt)).natAbs ≤ s.params.fundingPerSlot * dt := by
  have timely : Timely s := h.timely
  have hpx : s.fundPxLast ≤ MAX_ORACLE_PRICE := timely.sampled.trans_le timely.price_le
  have hmult : (s.sides d).adlMult ≤ ADL_ONE := ((h.positions live).side d).mult_le
  calc ((s.sides d).adlMult * (s.fundPxLast * rate * dt)).natAbs
      = (s.sides d).adlMult * (s.fundPxLast * rate.natAbs * dt) := by simp [Int.natAbs_mul]
    _ ≤ ADL_ONE * (MAX_ORACLE_PRICE * s.params.maxAbsFundingE9PerSlot * dt) := by gcongr
    _ = s.params.fundingPerSlot * dt := by unfold RiskParams.fundingPerSlot; ring

theorem Good.funded_le {ph : Phase} (h : Good ⟨s, ph⟩) (live : s.marketMode = .live)
    (acc : Accrued s s' now price rate) :
    (s'.sides d).fNum.natAbs ≤ (s.sides d).fNum.natAbs + s.params.fundingPerSlot *
      s.fundedSlots [.accrued (price - s.lastOraclePrice) s.fundPxLast rate (now - s.lastMarketSlot)] := by
  rw [acc.side d]
  show ((s.sides d).fNum - s.funded d _).natAbs ≤ _
  have bound := h.funding_le (d := d) (now - s.lastMarketSlot) live acc.rate_le
  unfold RiskEngine.funded RiskEngine.fundedSlots
  by_cases hoi : (s.sides .long).oiEffQ ≠ 0 ∧ (s.sides .short).oiEffQ ≠ 0
  · rw [if_pos hoi, if_pos hoi, List.map_singleton, List.sum_singleton, Event.fundingSlots]
    by_cases hactive : rate ≠ 0 ∧ 0 < s.fundPxLast
    · rw [if_pos hactive]
      refine (Int.natAbs_sub_le _ _).trans (Nat.add_le_add_left ?_ _)
      cases d <;> simpa [Side.sign, Int.natAbs_mul] using bound
    · have idle : (s.fundPxLast : Int) * rate = 0 := by
        by_contra hne
        exact hactive ⟨right_ne_zero_of_mul hne, Nat.pos_of_ne_zero fun h0 => hne (by simp [h0])⟩
      rw [if_neg hactive, idle]
      simp
  · rw [if_neg hoi, if_neg hoi]
    simp

theorem RiskEngine.closed_or_open (hb : (s.sides .long).oiEffQ = (s.sides .short).oiEffQ) :
    s.Closed ∨ ((s.sides .long).oiEffQ ≠ 0 ∧ (s.sides .short).oiEffQ ≠ 0) := by
  by_cases h : (s.sides .long).oiEffQ = 0
  · exact .inl fun d => by cases d <;> omega
  · exact .inr ⟨h, by omega⟩

/-- An operation moves the F index of a side by what its slots under funding allow. -/
theorem Good.committed_fund {ins : Instruction} (h : Good ⟨s, .idle⟩) (ok : ins.run s = .ok () s' l) :
    s'.params = s.params ∧
      (s'.sides d).fNum.natAbs ≤ (s.sides d).fNum.natAbs + s.params.fundingPerSlot * s.fundedSlots l := by
  obtain ⟨ph, course, rest⟩ := h.committed ok
  -- until the accrual, a market that is closed stays closed
  set I : Conf → Prop := fun c => Good c ∧ c.engine.params = s.params ∧
    (c.phase.touched = [] → s.Closed → c.engine.Closed) with hI
  have keep : ∀ c l c', I c → Step ins.scope c l c' → I c' := by
    rintro c l c' ⟨good, params, closed⟩ step
    refine ⟨good.step step, step.params.trans params, fun fresh hs => ?_⟩
    obtain ⟨fresh₀, stays⟩ := step.stays_closed fresh
    exact stays (closed fresh₀ hs)
  have start : I ⟨s, .idle⟩ := ⟨h, rfl, fun _ => id⟩
  have weight (l : List Event) : (l.map fun e => s.params.fundingPerSlot * s.fundedSlots [e]).sum =
      s.params.fundingPerSlot * s.fundedSlots l := by
    rw [List.sum_map_mul_left]
    unfold RiskEngine.fundedSlots
    split_ifs <;> simp
  have grow : ∀ c l c', I c → Step ins.scope c l c' → (c'.engine.sides d).fNum.natAbs ≤
      (c.engine.sides d).fNum.natAbs + (l.map fun e => s.params.fundingPerSlot * s.fundedSlots [e]).sum := by
    rintro c l c' ⟨good, params, closed⟩ step
    cases step.fundMove d with
    | kept same => rw [same]; exact Nat.le_add_right _ _
    | cleared zero => rw [zero]; exact Nat.zero_le _
    | accrued fresh live accrued event =>
        refine (good.funded_le live accrued).trans (Nat.add_le_add_left ?_ _)
        rw [weight, ← event, params]
        refine Nat.mul_le_mul_left _ ?_
        rcases RiskEngine.closed_or_open h.balanced with hs | hs
        · unfold RiskEngine.fundedSlots
          rw [if_neg fun ho => ho.1 (closed fresh hs .long)]
          exact Nat.zero_le _
        · unfold RiskEngine.fundedSlots
          rw [if_pos hs]
          split_ifs
          · exact le_rfl
          · exact Nat.zero_le _
  exact ⟨(course.run.invariant keep start).2.1, weight l ▸ course.run.growth keep grow start⟩

/-- From F = 0 on, the index is what the slots under funding allow. -/
theorem Funded.fund_le (h : Funded s₀ n s) (hs : Reachable s₀) (zero : (s₀.sides d).fNum = 0) :
    s.params = s₀.params ∧ (s.sides d).fNum.natAbs ≤ s₀.params.fundingPerSlot * n := by
  induction h with
  | refl => exact ⟨rfl, by simp [zero]⟩
  | committed before ok ih =>
      obtain ⟨params, bound⟩ := ih
      obtain ⟨params', bound'⟩ := (before.reachable hs).good.committed_fund (d := d) ok
      refine ⟨params'.trans params, bound'.trans ?_⟩
      rw [mul_add, params]
      exact Nat.add_le_add_right bound _
  | rolledBack before fault ih => exact ih

/-- The slots over which an accrual at `now` applies funding. -/
def RiskEngine.slotsDue (s : RiskEngine) (now : Nat) (rate : Int) : Nat :=
  if s.fundingActive rate then now - s.lastMarketSlot else 0

theorem Good.lifetime_le {ph : Phase} {m : Nat} (h : Good ⟨s, ph⟩) (hm : m ≤ s.params.minFundingLifetimeSlots) :
    s.params.fundingPerSlot * m ≤ 2 ^ 127 - 1 := by
  have valid : s.params.Valid s.maxAccounts := h.timely.params
  have promised : s.params.fundingPerSlot * s.params.minFundingLifetimeSlots ≤ 2 ^ 127 - 1 := by
    have cast : ((s.params.fundingPerSlot * s.params.minFundingLifetimeSlots : Nat) : Int) ≤ I128_MAX := by
      unfold RiskParams.fundingPerSlot
      push_cast
      exact valid.lifetime
    unfold I128_MAX at cast
    omega
  exact (Nat.mul_le_mul_left _ hm).trans promised

/-- Within the funding lifetime that the parameters promise, counted from a state in
which the F index of the side is zero, an accrual cannot fail in the funding of that
side: the products of the total and the new index stay within their types, and where
funding fails, it is the other side that does. -/
theorem Reachable.funding_lifetime (h : Reachable s₀) (zero : (s₀.sides d).fNum = 0) (span : Funded s₀ n s)
    (allowed : AccrualAllowed s now price rate)
    (lifetime : n + s.slotsDue now rate ≤ s.params.minFundingLifetimeSlots)
    (active : s.fundingActive rate) (slots : 0 < now - s.lastMarketSlot) :
    fundNumTotal s.fundPxLast rate (now - s.lastMarketSlot) =
        some (s.fundPxLast * rate * (now - s.lastMarketSlot : Nat)) ∧
      (s.fundStep d rate (now - s.lastMarketSlot)).isSome ∧
      (fundIndices s (s.liveOn .long) (s.liveOn .short) rate (now - s.lastMarketSlot) = none →
        s.fundStep d.opposite rate (now - s.lastMarketSlot) = none) := by
  obtain ⟨params, bound⟩ := span.fund_le h zero
  have good := (span.reachable h).good
  rw [RiskEngine.slotsDue, if_pos active] at lifetime
  have within := good.lifetime_le lifetime
  have moved := good.funding_le (d := d) (now - s.lastMarketSlot) allowed.live allowed.rate_le
  rw [← params] at bound
  generalize now - s.lastMarketSlot = dt at *
  rw [mul_add] at within
  -- the parts of the product are no larger than the product
  have mult : 0 < (s.sides d).adlMult := ((good.positions allowed.live).side d).mult_pos
  have total_le : (s.fundPxLast * rate * dt).natAbs ≤ ((s.sides d).adlMult * (s.fundPxLast * rate * dt)).natAbs := by
    rw [Int.natAbs_mul (s.sides d).adlMult, Int.natAbs_natCast]
    exact Nat.le_mul_of_pos_left _ mult
  have perSlot_le : (s.fundPxLast * rate).natAbs ≤ (s.fundPxLast * rate * dt).natAbs := by
    rw [Int.natAbs_mul _ (dt : Int), Int.natAbs_natCast]
    exact Nat.le_mul_of_pos_right _ slots
  have perSlot : MulFits (s.fundPxLast * rate) := by
    unfold MulFits I256_MAX
    omega
  have total : MulFits (s.fundPxLast * rate * dt) := by
    unfold MulFits I256_MAX
    omega
  have own : (s.fundStep d rate dt).isSome := by
    refine fundStep_of_fits perSlot total ⟨by omega, ?_, ?_⟩
    · unfold InI128 I128_MIN I128_MAX
      omega
    · unfold InI128 I128_MIN I128_MAX
      cases d <;> simp only [Side.sign, one_mul, neg_one_mul, sub_neg_eq_add] <;> omega
  refine ⟨fundNumTotal_of_fits perSlot total, own, fun failed => ?_⟩
  obtain ⟨e, he⟩ := fundIndices_eq_none failed
  rcases d.eq_or_opposite e with rfl | rfl
  · rw [he] at own
    cases own
  · exact he

/-- The funded market after 49 slots under funding. -/
def chargedMarket : RiskEngine := ((Instruction.accrueMarketTo 150 1010 700).run fundedMarket).final

theorem fundedMarket_funded : Funded fundedMarket 49 chargedMarket := by
  obtain ⟨_, l, hok⟩ := Outcome.eq_ok (o := (Instruction.accrueMarketTo 150 1010 700).run fundedMarket)
    (by decide +kernel)
  have events : l = [.accrued 10 1000 700 49] := by
    have := congrArg Outcome.events hok
    exact this.symm.trans (by decide +kernel)
  have slots : 0 + fundedMarket.fundedSlots l = 49 := by
    rw [events]
    decide +kernel
  exact slots ▸ (Funded.refl fundedMarket).committed hok

theorem fundedMarket_funding_lifetime : (chargedMarket.fundStep .short (-900) 50).isSome := by
  have allowed : AccrualAllowed chargedMarket 200 990 (-900) := by
    constructor <;> decide +kernel
  have within : 49 + chargedMarket.slotsDue 200 (-900) ≤ chargedMarket.params.minFundingLifetimeSlots := by
    decide +kernel
  have active : chargedMarket.fundingActive (-900) := by decide +kernel
  have step : 200 - chargedMarket.lastMarketSlot = 50 := by decide +kernel
  have zero : (fundedMarket.sides .short).fNum = 0 := by decide +kernel
  have lifetime := fundedMarket_reachable.funding_lifetime zero fundedMarket_funded allowed within active
  rw [step] at lifetime
  exact (lifetime (by decide)).2.1

end Percolator
