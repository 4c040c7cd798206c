import Mathlib.Algebra.BigOperators.Field
import Mathlib.Tactic.Ring
import Percolator.Invariant.Positions

/-!
The steps that move whole sides keep the positions as well: ADL, the resets at the
end of an instruction, accrual, and the slots taken and given up.
-/

namespace Percolator

variable {s s' : RiskEngine} {ph : Phase} {i : Nat} {l : List Event} {sc : Scope} {c c' : Conf}
  {d : Side} {v w : SideState} {q : Nat}

/-! ### ADL -/

/-- The shares in a side follow its multiplier. -/
theorem RiskEngine.shares_scaled (haccounts : s'.accounts = s.accounts)
    (hslots : s'.usedSlots = s.usedSlots) (hepoch : (s'.sides d).adlEpoch = (s.sides d).adlEpoch)
    (hpos : 0 < (s.sides d).adlMult) :
    s'.shares d = s.shares d * (s'.sides d).adlMult / (s.sides d).adlMult := by
  have hA : ((s.sides d).adlMult : ℚ) ≠ 0 := by exact_mod_cast hpos.ne'
  unfold RiskEngine.shares tally
  rw [haccounts, hslots, Finset.sum_mul, Finset.sum_div]
  refine Finset.sum_congr rfl fun j _ => ?_
  unfold Account.share
  rw [hepoch]
  split_ifs
  · field_simp
  · simp

/-- The dust bound of ADL is no less than what scaling A can lose. -/
theorem le_globalADustBound {stored oi aOld : Nat} (ha : 0 < aOld) (hoi : oi ≤ MAX_OI_SIDE_Q) :
    (oi : ℚ) / aOld ≤ globalADustBound stored oi aOld := by
  have hA : (0 : ℚ) < aOld := by exact_mod_cast ha
  rw [div_le_iff₀ hA]
  norm_cast
  unfold globalADustBound
  rcases Nat.le_total (stored + ceilDiv (oi + stored) aOld) U128_MAX with h | h
  · rw [Nat.min_eq_left h, Nat.add_mul]
    have hdiv := Nat.div_add_mod (oi + stored) aOld
    have hlt := Nat.mod_lt (oi + stored) ha
    rw [Nat.mul_comm] at hdiv
    unfold ceilDiv
    split_ifs with h0
    · omega
    · rw [Nat.add_mul]; omega
  · rw [Nat.min_eq_right h]
    have : oi ≤ U128_MAX * 1 := by simp only [MAX_OI_SIDE_Q, U128_MAX] at *; omega
    exact this.trans (Nat.mul_le_mul_left _ ha)

theorem Absorbed.adlEpoch (h : Absorbed d v q w l) : w.adlEpoch = v.adlEpoch := by
  cases h <;> rfl

theorem Absorbed.oiEffQ (h : Absorbed d v q w l) (h0 : w.oiEffQ ≠ 0) : w.oiEffQ = v.oiEffQ - q := by
  cases h with
  | vacant | shrunk => rfl
  | drained => exact absurd rfl h0

theorem Absorbed.oi_le (h : Absorbed d v q w l) : w.oiEffQ ≤ v.oiEffQ := by
  cases h with
  | vacant | shrunk => exact Nat.sub_le _ _
  | drained => exact Nat.zero_le _

/-- ADL neither begins nor ends a reset. -/
theorem Absorbed.sideMode (h : Absorbed d v q w l) (hv : SideOk v) :
    w.sideMode = v.sideMode ∨ v.sideMode ≠ .resetPending ∧ w.sideMode ≠ .resetPending := by
  cases h with
  | vacant | drained => exact .inl rfl
  | shrunk k aNew bound mode range lt scaled pos dust mode_eq =>
      refine .inr ?_
      have hmode : v.sideMode ≠ .resetPending := fun hm => by have := hv.drained hm; omega
      refine ⟨hmode, ?_⟩
      show mode ≠ .resetPending
      rw [mode_eq]
      split_ifs
      · rintro ⟨⟩
      · exact hmode

theorem Absorbed.coeff {k : Nat} (range : -I128_MAX ≤ v.adlCoeff - k ∨ k = 0) (hv : InI128 v.adlCoeff) :
    InI128 (v.adlCoeff - k) := by
  obtain ⟨h1, h2⟩ := hv
  unfold InI128
  simp only [I128_MIN, I128_MAX] at *
  omega

theorem Absorbed.sideOk (h : Absorbed d v q w l) (hv : SideOk v) : SideOk w := by
  have hle := h.oi_le.trans hv.oi_le
  have hmode := h.sideMode hv
  cases h with
  | vacant h0 =>
      exact ⟨hv.mult_pos, hv.mult_le, hv.coeff, hv.fund, hv.startK, hv.startF, hv.epoch_le, hle,
        fun hm => by have := hv.drained hm; show v.oiEffQ - q = 0; omega,
        hv.dustless, hv.stale⟩
  | drained k range =>
      exact ⟨hv.mult_pos, hv.mult_le, Absorbed.coeff range hv.coeff, hv.fund, hv.startK, hv.startF, hv.epoch_le, hle,
        fun _ => rfl, hv.dustless, hv.stale⟩
  | shrunk k aNew bound mode range lt scaled pos dust mode_eq =>
      have hopen : v.sideMode ≠ .resetPending := fun hm => by have := hv.drained hm; omega
      have hopen' : mode ≠ .resetPending := by
        rcases hmode with h | ⟨-, h⟩
        · exact fun hm => hopen (h ▸ hm)
        · exact h
      have hA : aNew ≤ v.adlMult := by
        rw [scaled]
        exact Nat.div_le_of_le_mul (by rw [Nat.mul_comm]; exact Nat.mul_le_mul_right _ (Nat.sub_le _ _))
      refine ⟨pos, hA.trans hv.mult_le, Absorbed.coeff range hv.coeff, hv.fund, hv.startK, hv.startF, hv.epoch_le, hle,
        fun hm => absurd hm hopen', fun hm => absurd hm hopen', ?_⟩
      have := hv.stale
      rw [if_neg hopen] at this
      show v.staleAccountCount = if mode = .resetPending then v.storedPosCount else 0
      rw [if_neg hopen', this]

/-- The scaled shares stay below the open interest left, and fall short of it by no
more than the old dust and what the floor of A loses. -/
theorem Covers.shrunk {oi post aOld aNew dust bound : Nat} {S : ℚ} (h : Covers oi dust S 0) (hS : 0 ≤ S)
    (ha : 0 < aOld) (hoi : 0 < oi) (hpost : post ≤ oi) (hA : aNew = aOld * post / oi)
    (hbound : (oi : ℚ) / aOld ≤ bound) : Covers post (dust + bound) (S * aNew / aOld) 0 := by
  have haq : (0 : ℚ) < aOld := by exact_mod_cast ha
  have hoiq : (0 : ℚ) < oi := by exact_mod_cast hoi
  have hpostq : (post : ℚ) ≤ oi := by exact_mod_cast hpost
  have hle := h.le
  have hge := h.ge
  rw [Nat.cast_zero, add_zero] at hle hge
  -- the floor of A, from both sides
  have hdiv := Nat.div_add_mod (aOld * post) oi
  have hmod := Nat.mod_lt (aOld * post) hoi
  rw [← hA] at hdiv
  have hup : (oi : ℚ) * aNew ≤ aOld * post := by
    exact_mod_cast (by omega : oi * aNew ≤ aOld * post)
  have hlow : (aOld : ℚ) * post ≤ oi * aNew + oi := by
    exact_mod_cast (by omega : aOld * post ≤ oi * aNew + oi)
  rw [div_le_iff₀ haq] at hbound
  refine ⟨?_, ?_⟩
  · rw [Nat.cast_zero, add_zero, div_le_iff₀ haq]
    refine le_of_mul_le_mul_right ?_ hoiq
    calc S * aNew * oi = S * (oi * aNew) := by ring
      _ ≤ oi * (aOld * post) := mul_le_mul hle hup (by positivity) hoiq.le
      _ = post * aOld * oi := by ring
  · -- `OI' - S' ≤ (OI - S) * OI' / OI + S / A`
    have h1 : (oi - S) * (aOld * post) ≤ dust * (aOld * oi) :=
      mul_le_mul (by linarith) (mul_le_mul_of_nonneg_left hpostq haq.le) (by positivity)
        (Nat.cast_nonneg _)
    have h2 : S * (aOld * post) ≤ S * (oi * aNew) + oi * oi :=
      calc S * (aOld * post) ≤ S * (oi * aNew + oi) := mul_le_mul_of_nonneg_left hlow hS
        _ = S * (oi * aNew) + S * oi := by ring
        _ ≤ S * (oi * aNew) + oi * oi := by
            gcongr
    have h3 : post * aOld ≤ S * aNew + dust * aOld + oi := by
      refine le_of_mul_le_mul_right ?_ hoiq
      calc post * aOld * oi = S * (aOld * post) + (oi - S) * (aOld * post) := by ring
        _ ≤ S * (oi * aNew) + oi * oi + dust * (aOld * oi) := add_le_add h2 h1
        _ = (S * aNew + dust * aOld + oi) * oi := by ring
    rw [Nat.cast_zero, add_zero, Nat.cast_add]
    refine le_of_mul_le_mul_right (h3.trans ?_) haq
    have h4 : (S * aNew / aOld + (dust + bound)) * aOld = S * aNew + dust * aOld + bound * aOld := by
      field_simp
      ring
    rw [h4]
    linarith

theorem Absorbed.covers {S : ℚ} (h : Absorbed d v q w l) (hv : SideOk v) (h0 : w.oiEffQ ≠ 0)
    (hcov : Covers v.oiEffQ v.phantomDustBoundQ S 0) (hS : 0 ≤ S) (hvac : v.storedPosCount = 0 → S = 0) :
    Covers w.oiEffQ w.phantomDustBoundQ (S * w.adlMult / v.adlMult) 0 := by
  cases h with
  | vacant hstored =>
      have hge := hcov.ge
      rw [hvac hstored] at hge ⊢
      have : ((v.oiEffQ - q : Nat) : ℚ) ≤ v.oiEffQ := by exact_mod_cast Nat.sub_le _ _
      refine ⟨by simp, ?_⟩
      simp only [SideState.withOi_oiEffQ, SideState.withOi_phantomDustBoundQ, zero_mul, zero_div]
      linarith
  | drained => exact absurd rfl h0
  | shrunk k aNew bound mode range lt scaled pos dust mode_eq =>
      exact hcov.shrunk hS hv.mult_pos (by omega) (Nat.sub_le _ _) scaled
        (dust ▸ le_globalADustBound hv.mult_pos hv.oi_le)

theorem Positions.deleveraged {f : Nat} {marks : Side → Bool} (h : Positions s ph) (books : Books s)
    (balanced : (s.sides .long).oiEffQ = (s.sides .short).oiEffQ) (pending : ∀ d, ph.pending d = false)
    (closing : ph.closing = some (i, d, q)) (absorbed : Absorbed d.opposite (s.sides d.opposite) q v l)
    (marked : ∀ e, marks e = decide (v.oiEffQ = 0)) :
    Positions ((s.withInsuranceFund f).absorb d v)
      { ph with closing := none, dirty := true, pending := marks } := by
  have hopp := h.side d.opposite
  have hbal : (s.sides d).oiEffQ = (s.sides d.opposite).oiEffQ := by
    cases d
    · exact balanced
    · exact balanced.symm
  have hsides : ∀ e, ((s.withInsuranceFund f).absorb d v).sides e =
      if e = d.opposite then v else (s.sides e).withOi v.oiEffQ := fun _ => rfl
  have hseated : Seated ((s.withInsuranceFund f).absorb d v) := by
    have hfunded : Seated (s.withInsuranceFund f) :=
      h.seated.put (i := i) (.refl _) (put_eta _ _).symm rfl rfl
    refine hfunded.withSides (fun e => ?_) (fun e => ?_) fun e => ?_
    · rcases d.eq_or_opposite e with rfl | rfl
      · rw [if_neg e.opposite_ne.symm]
        have hv := h.side e
        exact ⟨hv.mult_pos, hv.mult_le, hv.coeff, hv.fund, hv.startK, hv.startF, hv.epoch_le,
          absorbed.oi_le.trans hopp.oi_le, fun hm => by
            have h1 := hv.drained hm
            have h2 := absorbed.oi_le
            show v.oiEffQ = 0
            omega, hv.dustless, hv.stale⟩
      · rw [if_pos rfl]; exact absorbed.sideOk hopp
    · rcases d.eq_or_opposite e with rfl | rfl
      · rw [if_neg e.opposite_ne.symm]; exact .inl rfl
      · rw [if_pos rfl]; exact absorbed.sideMode hopp
    · rcases d.eq_or_opposite e with rfl | rfl
      · rw [if_neg e.opposite_ne.symm]; rfl
      · rw [if_pos rfl]; exact absorbed.adlEpoch
  have hoi : ∀ e, (((s.withInsuranceFund f).absorb d v).sides e).oiEffQ = v.oiEffQ := fun e => by
    rw [hsides]; split_ifs <;> rfl
  refine hseated.positions ⟨fun e he => ?_, fun e he => ?_, (by rintro ⟨⟩)⟩
  · have h0 : v.oiEffQ ≠ 0 := by simpa [marked] using he
    have hcl : Phase.closedOn { ph with closing := none, dirty := true, pending := marks } e = 0 := rfl
    rw [hcl, hoi]
    rcases d.eq_or_opposite e with rfl | rfl
    · -- the liquidated side loses what was closed
      have hcov := h.cover e (pending e)
      have hcle : ph.closedOn e = q := by unfold Phase.closedOn; rw [closing]; exact if_pos rfl
      have hse := hsides e
      rw [if_neg e.opposite_ne.symm] at hse
      have hshares : ((s.withInsuranceFund f).absorb e v).shares e = s.shares e :=
        RiskEngine.shares_same rfl rfl (by rw [hse]; rfl) (by rw [hse]; rfl)
      rw [hshares, hse]
      have hle := hcov.le
      have hge := hcov.ge
      rw [hcle] at hle hge
      have hnn := RiskEngine.shares_nonneg (s := s) (d := e)
      have hq : q ≤ (s.sides e).oiEffQ := by
        have : (q : ℚ) ≤ (s.sides e).oiEffQ := by linarith
        exact_mod_cast this
      rw [absorbed.oiEffQ h0, ← hbal]
      refine ⟨?_, ?_⟩
      · push_cast [hq]; linarith
      · show _ ≤ _ + _ + ((s.sides e).phantomDustBoundQ : ℚ)
        push_cast [hq]
        linarith
    · have hcov := h.cover d.opposite (pending _)
      have hcle : ph.closedOn d.opposite = 0 := by
        unfold Phase.closedOn; rw [closing]; exact if_neg d.opposite_ne.symm
      rw [hcle] at hcov
      have hse := hsides d.opposite
      rw [if_pos rfl] at hse
      have hshares : ((s.withInsuranceFund f).absorb d v).shares d.opposite =
          s.shares d.opposite * (((s.withInsuranceFund f).absorb d v).sides d.opposite).adlMult /
            (s.sides d.opposite).adlMult :=
        RiskEngine.shares_scaled rfl rfl (by rw [hse]; exact absorbed.adlEpoch) hopp.mult_pos
      rw [hshares, hse]
      exact absorbed.covers hopp h0 hcov RiskEngine.shares_nonneg fun hs => books.shares_zero hs
  · rw [hoi]; simpa [marked] using he

/-! ### Resets -/

theorem SideState.reopened_eq (v : SideState) :
    v.reopened = { v with sideMode := v.reopened.sideMode } := by
  unfold SideState.reopened; split_ifs <;> rfl

theorem SideOk.reopened (hv : SideOk v) : SideOk v.reopened := by
  unfold SideState.reopened
  split_ifs with h
  · obtain ⟨hmode, hoi, hstale, hstored⟩ := h
    exact ⟨hv.mult_pos, hv.mult_le, hv.coeff, hv.fund, hv.startK, hv.startF, hv.epoch_le, hv.oi_le, (by rintro ⟨⟩), (by rintro ⟨⟩),
      hstale⟩
  · exact hv

theorem inI128_zero : InI128 0 := ⟨by decide, by decide⟩

theorem SideOk.reset (hv : SideOk v) (h0 : v.oiEffQ = 0) (hlt : v.adlEpoch < U64_MAX) : SideOk v.drained :=
  ⟨(by decide : 0 < ADL_ONE), le_rfl, inI128_zero, inI128_zero, hv.coeff, hv.fund, hlt, hv.oi_le,
    fun _ => h0, fun _ => rfl, rfl⟩

theorem SideOk.withOi {n : Nat} (hv : SideOk v) (h : n = v.oiEffQ ∨ n = 0) : SideOk (v.withOi n) := by
  refine ⟨hv.mult_pos, hv.mult_le, hv.coeff, hv.fund, hv.startK, hv.startF, hv.epoch_le, ?_, fun hm => ?_,
    hv.dustless, hv.stale⟩
  · rcases h with rfl | rfl
    · exact hv.oi_le
    · exact Nat.zero_le _
  · rcases h with rfl | rfl
    · exact hv.drained hm
    · rfl

/-- Reopening a side strands no position, for none is left. -/
theorem PositionOk.reopened {a : Account} (h : PositionOk v a) (hn : v.storedPosCount ≠ 0) :
    PositionOk v.reopened a := by
  unfold SideState.reopened
  rw [if_neg fun hr => hn hr.2.2.2]
  exact h

theorem PositionOk.drained {a : Account} (h : PositionOk v a) (hm : v.sideMode ≠ .resetPending) :
    PositionOk v.drained a := by
  refine ⟨h.bound, h.basis_pos, h.basis_le, h.kSnap, h.fSnap, .inr ⟨rfl, ?_⟩⟩
  rcases h.epoch with ⟨-, he⟩ | ⟨he, -⟩
  · show a.adlEpochSnap + 1 = v.adlEpoch + 1
    omega
  · exact absurd he hm

/-- A side with an account on it has stored positions. -/
theorem Books.stored_ne_zero (h : Books s) (used : s.isUsed i = true)
    (hs : sideOfI128 (s.accounts i).positionBasisQ = some d) : (s.sides d).storedPosCount ≠ 0 :=
  fun h0 => h.no_position h0 used hs

theorem Seated.reopened (h : Seated s) (books : Books s) :
    Seated (s.withSides fun d => (s.sides d).reopened) where
  side := fun d => (h.side d).reopened
  position := fun j d hj hs =>
    (h.position j d hj hs).reopened (books.stored_ne_zero hj hs)

theorem RiskEngine.shares_reopened :
    (s.withSides fun d => (s.sides d).reopened).shares d = s.shares d := by
  refine RiskEngine.shares_same rfl rfl ?_ ?_
  all_goals rw [RiskEngine.withSides_sides, SideState.reopened_eq]

theorem Quiet.reopened (h : Quiet v) : Quiet v.reopened := by
  unfold SideState.reopened
  split_ifs
  · exact ⟨(by rintro ⟨⟩), (by rintro ⟨⟩), h.vacant⟩
  · exact h

/-- A side that had its chance to open again and still waits has stale accounts. -/
theorem SideOk.quiet (hv : SideOk v) (h : v.sideMode = .drainOnly → 0 < v.oiEffQ)
    (hvac : v.storedPosCount = 0 → v.oiEffQ = 0 ∧ v.phantomDustBoundQ = 0) : Quiet v.reopened := by
  unfold SideState.reopened
  split_ifs with hr
  · exact ⟨(by rintro ⟨⟩), (by rintro ⟨⟩), hvac⟩
  · refine ⟨fun hm => Nat.pos_of_ne_zero fun h0 => hr ⟨hm, hv.drained hm, h0, ?_⟩, h, hvac⟩
    have := hv.stale
    rw [if_pos hm] at this
    omega

theorem Positions.reopened (h : Positions s ph) (books : Books s) :
    Positions (s.withSides fun d => (s.sides d).reopened) ph := by
  refine (h.seated.reopened books).positions ⟨fun d hd => ?_, fun d hd => ?_, fun hd d => ?_⟩
  · rw [RiskEngine.shares_reopened, RiskEngine.withSides_sides, SideState.reopened_eq]
    exact h.cover d hd
  · rw [RiskEngine.withSides_sides, SideState.reopened_eq]
    exact h.pending d hd
  · exact (h.quiet hd d).reopened

/-- Nobody has a share in a side that waits for its reset. -/
theorem Seated.shares_waiting (h : Seated s) (hm : (s.sides d).sideMode = .resetPending) :
    s.shares d = 0 := by
  refine tally_eq_zero fun j hj => if_neg fun hc => ?_
  rcases (h.position j d (RiskEngine.mem_usedSlots.mp hj) hc.1).epoch with ⟨hm', -⟩ | ⟨-, he⟩
  · exact hm' hm
  · have := hc.2
    omega

theorem Positions.scheduled {oi : Side → Nat} {marks : Side → Bool} (h : Positions s ph)
    (hs : Scheduled s ph.pending oi marks) :
    Positions (s.withSides fun d => (s.sides d).withOi (oi d)) { ph with dirty := true, pending := marks } := by
  have hoi : ∀ d, oi d = (s.sides d).oiEffQ ∨ oi d = 0 := fun d => by
    rcases hs.kept_or_cleared with hk | hk
    · exact .inl (hk d)
    · exact .inr (hk d).1
  refine (h.seated.withSides (fun d => (h.side d).withOi (hoi d)) (fun d => .inl rfl) fun d => rfl).positions
    ⟨fun d hd => ?_, fun d hd => ?_, (by rintro ⟨⟩)⟩
  · have hp : ph.pending d = false := by
      by_contra hp
      exact absurd ((hs.mono d (by simpa using hp)).symm.trans hd) (by rintro ⟨⟩)
    have hkept : oi d = (s.sides d).oiEffQ := by
      rcases hs.kept_or_cleared with hk | hk
      · exact hk d
      · exact absurd ((hk d).2.symm.trans hd) (by rintro ⟨⟩)
    have hcov := h.cover d hp
    have hshares : RiskEngine.shares (s.withSides fun d => (s.sides d).withOi (oi d)) d = s.shares d :=
      RiskEngine.shares_same rfl rfl rfl rfl
    show Covers (oi d) _ _ _
    rw [hkept, hshares]
    exact hcov
  · show oi d = 0
    rcases hs.new d hd with hp | h0
    · rcases hoi d with hk | hk
      · exact hk.trans (h.pending d hp)
      · exact hk
    · exact h0

/-- Both sides after the resets that were scheduled began. -/
theorem Positions.drained (h : Positions s ph) (closing : ph.closing = none)
    (hlt : ∀ d, (s.sides d).Drains (ph.pending d) → (s.sides d).adlEpoch < U64_MAX) :
    Positions (s.withSides fun d =>
        if (s.sides d).Drains (ph.pending d) then (s.sides d).drained else s.sides d)
      { ph with dirty := true, pending := fun _ => false } := by
  set f : Side → SideState := fun d =>
    if (s.sides d).Drains (ph.pending d) then (s.sides d).drained else s.sides d with hf
  have hseated : Seated (s.withSides f) := by
    refine ⟨fun d => ?_, fun j d hj hs => ?_⟩
    · show SideOk (f d)
      rw [hf]
      dsimp only
      split_ifs with hd
      · exact (h.side d).reset (h.pending d hd.1) (hlt d hd)
      · exact h.side d
    · have hpos := h.position j d hj hs
      show PositionOk (f d) _
      rw [hf]
      dsimp only
      split_ifs with hd
      · exact hpos.drained hd.2
      · exact hpos
  have hcl : ∀ d, ph.closedOn d = 0 := fun d => by unfold Phase.closedOn; rw [closing]
  refine hseated.positions ⟨fun d _ => ?_, fun d hd => absurd hd Bool.false_ne_true, (by rintro ⟨⟩)⟩
  show Covers _ _ _ (ph.closedOn d)
  by_cases hp : ph.pending d = true
  · -- scheduled: the side waits for its reset now
    have hm : ((s.withSides f).sides d).sideMode = .resetPending := by
      show (f d).sideMode = _
      rw [hf]
      dsimp only
      split_ifs with hd
      · rfl
      · by_contra hm; exact hd ⟨hp, hm⟩
    rw [hseated.shares_waiting hm, (hseated.side d).drained hm, hcl]
    exact ⟨by simp, by simp⟩
  · have hfd : f d = s.sides d := if_neg fun hd => hp hd.1
    have hshares : (s.withSides f).shares d = s.shares d :=
      RiskEngine.shares_same rfl rfl (by rw [RiskEngine.withSides_sides, hfd])
        (by rw [RiskEngine.withSides_sides, hfd])
    rw [hshares, RiskEngine.withSides_sides, hfd]
    exact h.cover d (by simpa using hp)

/-- The end of an instruction leaves the sides quiet. -/
theorem Positions.reset {oi : Side → Nat} {marks : Side → Bool} (h : Positions s ph) (books : Books s)
    (closing : ph.closing = none) (hs : Scheduled s ph.pending oi marks)
    (hlt : ∀ d, (s.sides d).Drains (marks d) → (s.sides d).adlEpoch < U64_MAX) :
    Positions (s.withSides fun d => ((s.sides d).withOi (oi d)).finalized (marks d))
      { ph with dirty := false, pending := fun _ => false } := by
  have h₁ := h.scheduled hs
  have h₂ := h₁.drained closing hlt
  set s₁ := s.withSides fun d => (s.sides d).withOi (oi d) with hs₁
  set s₂ := s₁.withSides fun d => if (s₁.sides d).Drains (marks d) then (s₁.sides d).drained else s₁.sides d
    with hs₂
  have books₁ : Books s₁ := books.withSides fun _ => rfl
  have books₂ : Books s₂ := books₁.withSides fun d => by split_ifs <;> rfl
  have h₃ := h₂.reopened books₂
  refine ⟨h₃.side, h₃.position, h₃.cover, h₃.pending, fun _ d => ?_⟩
  refine (h₂.side d).quiet (fun hm => ?_) fun h0 => ?_
  · rw [hs₂, RiskEngine.withSides_sides] at hm ⊢
    split_ifs at hm ⊢ with hd
    · cases hm
    · refine Nat.pos_of_ne_zero fun h0 => hd ⟨?_, by rw [hm]; rintro ⟨⟩⟩
      exact hs.draining d hm h0
  · rw [hs₂, RiskEngine.withSides_sides] at h0 ⊢
    split_ifs at h0 ⊢ with hd
    · exact ⟨(hs.vacant d h0).1, rfl⟩
    · refine ⟨(hs.vacant d h0).1, ?_⟩
      rcases (hs.vacant d h0).2 with hz | hmark
      · exact hz
      · -- marked, so it was waiting already
        have hm : (s₁.sides d).sideMode = .resetPending := by
          by_contra hm; exact hd ⟨hmark, hm⟩
        exact (h₁.side d).dustless hm

/-! ### Accrual and slots -/

theorem Positions.accrued {now price : Nat} {rate : Int} (h : Positions s ph)
    (ha : Accrued s s' now price rate) : Positions s' ph := by
  have heq := ha.eq
  have hused : s'.isUsed = s.isUsed := by rw [heq]; rfl
  have haccounts : s'.accounts = s.accounts := by rw [heq]
  have hslots : s'.usedSlots = s.usedSlots := by rw [heq]; rfl
  have hside : ∀ d, s'.sides d = { s.sides d with
      adlCoeff := (s'.sides d).adlCoeff, fNum := (s'.sides d).fNum } := fun d => by rw [ha.side d]
  have hseated : Seated s' := by
    refine ⟨fun d => ?_, fun j d hj hs => ?_⟩
    · have hv := h.side d
      have hcoeff := ha.coeff d hv.coeff
      have hfund := ha.fund d hv.fund
      rw [hside d]
      exact ⟨hv.mult_pos, hv.mult_le, hcoeff, hfund, hv.startK, hv.startF, hv.epoch_le, hv.oi_le, hv.drained, hv.dustless,
        hv.stale⟩
    · rw [hused] at hj
      rw [haccounts] at hs ⊢
      rw [hside d]
      exact (h.position j d hj hs).congr (.refl _) rfl rfl
  refine hseated.positions ⟨fun d hd => ?_, fun d hd => ?_, fun hd d => ?_⟩
  · rw [RiskEngine.shares_same haccounts hslots (by rw [hside d]) (by rw [hside d]), hside d]
    exact h.cover d hd
  · rw [hside d]; exact h.pending d hd
  · rw [hside d]; exact ⟨(h.quiet hd d).waiting, (h.quiet hd d).draining, (h.quiet hd d).vacant⟩

theorem SameButSlots.sides_eq {u : Bool} {a : Account} (h : SameButSlots s s' i u a) :
    s'.sides = s.sides := by rw [h.eq]

/-- A slot without a position comes or goes. -/
theorem Positions.slots {u : Bool} {a : Account} (h : Positions s ph) (hi : i < s.maxAccounts)
    (hs : SameButSlots s s' i u a) (hflat : a.positionBasisQ = 0) (hshares : ∀ d, s'.shares d = s.shares d) :
    Positions s' ph := by
  have hsides := hs.sides_eq
  refine Seated.positions ⟨by rw [hsides]; exact h.side, fun j d hj hd => ?_⟩
    ⟨by simp only [hsides, hshares]; exact h.cover, by rw [hsides]; exact h.pending,
      by rw [hsides]; exact h.quiet⟩
  rw [hs.accounts_eq] at hd ⊢
  rw [hs.isUsed hi] at hj
  rw [hsides]
  by_cases hji : j = i
  · subst hji
    rw [put_same, hflat] at hd
    cases hd
  · rw [put_other _ _ hji] at hd ⊢
    rw [if_neg hji] at hj
    exact h.position j d hj hd

theorem Account.share_of_flat {a : Account} (h : a.positionBasisQ = 0) : a.share d v = 0 :=
  if_neg fun hc => by rw [h] at hc; cases hc.1

theorem Positions.freed (h : Positions s ph) (hf : Freed s s' i) : Positions s' ph :=
  h.slots (isUsed_lt hf.used) hf.toSameButSlots rfl fun d => by
    have hsides := hf.toSameButSlots.sides_eq
    unfold RiskEngine.shares
    rw [hsides]
    exact hf.tally (Account.share_of_flat hf.freeable.2.2.1)

theorem Positions.materialized {slot : Nat} (h : Positions s ph) (hm : Materialized s s' i slot) :
    Positions s' ph :=
  h.slots hm.lt hm.toSameButSlots rfl fun d => by
    have hsides := hm.toSameButSlots.sides_eq
    unfold RiskEngine.shares
    rw [hsides]
    exact hm.tally (Account.share_of_flat rfl)

/-! ### Every step -/

theorem Positions.rebook {a : Account} {t : Totals} (h : Positions s ph) (used : s.isUsed i = true)
    (hp : (s.accounts i).SamePosition a) : Positions (s.rebook i a t) ph :=
  h.put used hp rfl rfl rfl rfl ⟨rfl, rfl, rfl⟩

theorem Positions.settled {instant : Prop} {δ : Int} {a' a'' : Account} {t' : Totals} {f : Side → Seats}
    (h : Positions s ph) (used : s.isUsed i = true) (hs : Settled s s' i d instant δ a' t' a'' f) :
    Positions s' { ph with dirty := true } := by
  have h₁ := h.rebook (t := t') used hs.pnl.same.position
  obtain ⟨p1, -⟩ := hs.pnl.same.position
  rw [hs.eq]
  refine h₁.resettled (d := d) (i := i) used ?_ ?_
  · rw [RiskEngine.rebook_accounts, put_same, p1]; exact hs.side
  · rw [RiskEngine.rebook_accounts, put_same]
    have hpos := hs.position
    cases hpos with
    | kept epoch pos => exact .kept epoch pos
    | dusted n epoch zero stored => exact .dusted n epoch zero stored
    | stale n m mode epoch stored stale => exact .stale n m mode epoch stored stale

/-- Every step keeps the positions of a Live market. -/
theorem Good.positions_step (h : Good c) (step : Step sc c l c') (live' : c'.engine.marketMode = .live) :
    Positions c'.engine c'.phase := by
  cases step with
  | noted i => exact (h.positions live').same rfl rfl rfl rfl ⟨rfl, rfl, rfl⟩
  | booked used reach entry => exact (h.positions live').rebook used entry.exact.position
  | charged used reach allowed charge => exact (h.positions live').rebook used charge.exact.position
  | forgave used reach calm forgiven => exact (h.positions live').rebook used forgiven.exact.position
  | @relabeled s ph i a used reach same slot =>
      have hsame : (s.accounts i).SamePosition a := by rw [same]; exact .refl _
      exact (h.positions live').put used hsame rfl rfl rfl rfl ⟨rfl, rfl, rfl⟩
  | funded move => exact (h.positions live').same rfl rfl rfl rfl ⟨rfl, rfl, rfl⟩
  | clocked slot crank market clock => exact (h.positions live').same rfl rfl rfl rfl ⟨rfl, rfl, rfl⟩
  | accrued rest fresh live fits accrued => exact (h.positions live).accrued accrued
  | settled used reach touched live closing calm scope settled =>
      exact (h.positions live).settled used settled
  | slipped legs used reach allowed live leg same scope range pnl =>
      exact (h.positions live).put used pnl.same.position rfl rfl rfl rfl ⟨rfl, rfl, rfl⟩
  | traded usedA usedB reachA reachB allowedA allowedB touchedA touchedB live pending closing trading
      syncedA syncedB traded =>
      exact (h.positions live).traded h.balanced usedA usedB pending closing traded
  | checked owed sound => exact (h.positions live').same rfl rfl rfl rfl ⟨rfl, rfl, rfl⟩
  | closed allowed used reach touched live pending closing calm closed =>
      exact (h.positions live).closed used pending closing closed
  | deleveraged marks used live pending closing pos fund absorbed marked =>
      exact (h.positions live).deleveraged h.books h.balanced pending closing absorbed marked
  | reset live closing scheduled drained => 
      exact (h.positions live).reset h.books closing scheduled fun d hd => (drained d hd).2
  | reopened => exact (h.positions live').reopened h.books
  | materialized allowed reach live le materialized => exact (h.positions live).materialized materialized
  | freed allowed reach charges clean freed =>
      dsimp only at live' ⊢
      rw [RiskEngine.swept_eq] at live' ⊢
      have hp := (h.positions (by rw [freed.eq] at live'; exact live')).freed freed
      exact hp.same rfl rfl rfl rfl ⟨rfl, rfl, rfl⟩
  | resolved price live now kDelta allowed rest mode le drained => cases live'
  | wiped used reach mode => exact absurd (live'.symm.trans mode) (by rintro ⟨⟩)
  | reconciled used reach mode reconciled =>
      rw [reconciled.eq] at live'; exact absurd (live'.symm.trans mode) (by rintro ⟨⟩)
  | captured mode ready first pos => exact absurd (live'.symm.trans mode) (by rintro ⟨⟩)
  | paid used reach allowed mode paid =>
      rw [paid.eq] at live'; exact absurd (live'.symm.trans mode) (by rintro ⟨⟩)

end Percolator
