import Percolator.Invariant.Shares

/-!
Every step within a Live market keeps its positions: their epochs, the counters
of the sides, and the cover of the open interest by exact shares and dust.
-/

namespace Percolator

variable {s s' : RiskEngine} {ph ph' : Phase} {i : Nat} {a a' : Account} {t' : Totals} {l : List Event}
  {sc : Scope} {c c' : Conf} {d : Side} {v w : SideState}

/-! ### Sides and positions without the cover -/

theorem Positions.seated (h : Positions s ph) : Seated s := ⟨h.side, h.position⟩

theorem Seated.bound (h : Seated s) (used : s.isUsed i = true) :
    (s.accounts i).positionBasisQ.natAbs ≤ MAX_POSITION_ABS_Q := by
  cases hs : sideOfI128 (s.accounts i).positionBasisQ with
  | none => rw [sideOfI128_eq_none.mp hs]; exact Nat.zero_le _
  | some d => exact (h.position i d used hs).bound

/-- The effective position of an account is the floor of its share. -/
theorem Seated.effective (h : Seated s) (used : s.isUsed i = true) {e : Int}
    (he : effectivePosQ s i = some e) :
    e = (match sideOfI128 (s.accounts i).positionBasisQ with
      | none => 0
      | some d => d.sign * (s.accounts i).floorShare d (s.sides d)) :=
  effectivePosQ_component he (h.bound used) fun d hd =>
    ⟨(h.side d).mult_le, (h.position i d used hd).basis_pos⟩

theorem Seated.component (h : Seated s) (used : s.isUsed i = true) {e : Int}
    (he : effectivePosQ s i = some e) (d : Side) :
    oiComponent d e = (s.accounts i).floorShare d (s.sides d) := by
  rw [h.effective used he]
  cases hs : sideOfI128 (s.accounts i).positionBasisQ with
  | none =>
      rw [Account.floorShare, if_neg (by rw [hs]; rintro ⟨⟨⟩, -⟩)]
      cases d <;> rfl
  | some c =>
      simp only [oiComponent_eq]
      split_ifs with hc
      · rw [hc]
      · rw [Account.floorShare, if_neg fun h => hc (by rw [hs] at h; exact Option.some.inj h.1)]

/-- An account with an effective position has a current position on its side. -/
theorem Seated.open_side (h : Seated s) (used : s.isUsed i = true) {e : Int}
    (he : effectivePosQ s i = some e) (hd : sideOfI128 e = some d) :
    sideOfI128 (s.accounts i).positionBasisQ = some d ∧
      (s.accounts i).adlEpochSnap = (s.sides d).adlEpoch ∧ (s.sides d).sideMode ≠ .resetPending := by
  have hc := h.component used he d
  have hpos : 0 < oiComponent d e := by
    have := sideOfI128_eq_some.mp hd
    cases d <;> simp only [oiComponent] at * <;> omega
  rw [hc, Account.floorShare] at hpos
  split_ifs at hpos with hcond
  · refine ⟨hcond.1, hcond.2, fun hmode => ?_⟩
    rcases (h.position i d used hcond.1).epoch with ⟨hm, -⟩ | ⟨-, hepoch⟩
    · exact hm hmode
    · have := hcond.2; omega
  · exact absurd hpos (lt_irrefl 0)

theorem PositionOk.congr (h : PositionOk v a) (hp : a.SamePosition a') (hm : w.sideMode = v.sideMode)
    (he : w.adlEpoch = v.adlEpoch) : PositionOk w a' := by
  obtain ⟨h1, h2, h3, h4, h5⟩ := hp
  exact ⟨h1 ▸ h.bound, h2 ▸ h.basis_pos, h2 ▸ h.basis_le, h3 ▸ h.kSnap, h4 ▸ h.fSnap,
    by rw [h5, hm, he]; exact h.epoch⟩

/-- A step that leaves the positions and the sides alone. -/
theorem Seated.put (h : Seated s) (hp : (s.accounts i).SamePosition a')
    (haccounts : s'.accounts = put s.accounts i a') (hsides : s'.sides = s.sides)
    (hused : s'.isUsed = s.isUsed) : Seated s' where
  side := by rw [hsides]; exact h.side
  position := fun j d hj hs => by
    rw [hused] at hj
    rw [haccounts] at hs ⊢
    rw [hsides]
    by_cases hji : j = i
    · subst hji
      rw [put_same] at hs ⊢
      exact (h.position j d hj (hp.1 ▸ hs)).congr hp rfl rfl
    · rw [put_other _ _ hji] at hs ⊢
      exact h.position j d hj hs

/-- A step that moves the sides without their epochs and modes. -/
theorem Seated.withSides {f : Side → SideState} (h : Seated s) (side : ∀ d, SideOk (f d))
    (hm : ∀ d, (f d).sideMode = (s.sides d).sideMode ∨ (s.sides d).sideMode ≠ .resetPending ∧
      (f d).sideMode ≠ .resetPending)
    (he : ∀ d, (f d).adlEpoch = (s.sides d).adlEpoch) : Seated (s.withSides f) where
  side := side
  position := fun j d hj hs => by
    have hpos := h.position j d hj hs
    rcases hm d with hm | ⟨hm, hm'⟩
    · exact hpos.congr (.refl _) hm (he d)
    · refine ⟨hpos.bound, hpos.basis_pos, hpos.basis_le, hpos.kSnap, hpos.fSnap, .inl ⟨hm', ?_⟩⟩
      rcases hpos.epoch with ⟨-, h⟩ | ⟨h, -⟩
      · exact h.trans (he d).symm
      · exact absurd h hm

/-- The cover of every side whose reset is not scheduled. -/
structure Covered (s : RiskEngine) (ph : Phase) : Prop where
  cover : ∀ d, ph.pending d = false →
    Covers (s.sides d).oiEffQ (s.sides d).phantomDustBoundQ (s.shares d) (ph.closedOn d)
  pending : ∀ d, ph.pending d = true → (s.sides d).oiEffQ = 0
  quiet : ph.dirty = false → ∀ d, Quiet (s.sides d)

theorem Positions.covered (h : Positions s ph) : Covered s ph := ⟨h.cover, h.pending, h.quiet⟩

theorem Seated.positions (h : Seated s) (hc : Covered s ph) : Positions s ph :=
  ⟨h.side, h.position, hc.cover, hc.pending, hc.quiet⟩

/-- A step that leaves the positions and the sides alone. -/
theorem Positions.put (h : Positions s ph) (used : s.isUsed i = true)
    (hp : (s.accounts i).SamePosition a') (haccounts : s'.accounts = Percolator.put s.accounts i a')
    (hsides : s'.sides = s.sides) (hslots : s'.usedSlots = s.usedSlots) (hused : s'.isUsed = s.isUsed)
    (hph : ph'.pending = ph.pending ∧ ph'.closing = ph.closing ∧ ph'.dirty = ph.dirty) :
    Positions s' ph' := by
  refine (h.seated.put hp haccounts hsides hused).positions ⟨fun d hd => ?_, fun d hd => ?_, fun hd => ?_⟩
  · rw [hph.1] at hd
    have hshares := RiskEngine.shares_put (d := d) used haccounts hslots (by rw [hsides]) (by rw [hsides])
    rw [Account.share_congr hp rfl rfl] at hshares
    have hcl : ph'.closedOn d = ph.closedOn d := by unfold Phase.closedOn; rw [hph.2.1]
    rw [hsides, hcl, add_right_cancel hshares]
    exact h.cover d hd
  · rw [hsides]; exact h.pending d (hph.1 ▸ hd)
  · rw [hsides]; exact h.quiet (hph.2.2 ▸ hd)

/-- A step that leaves the accounts and the sides alone. -/
theorem Positions.same (h : Positions s ph) (haccounts : s'.accounts = s.accounts)
    (hsides : s'.sides = s.sides) (hslots : s'.usedSlots = s.usedSlots) (hused : s'.isUsed = s.isUsed)
    (hph : ph'.pending = ph.pending ∧ ph'.closing = ph.closing ∧ ph'.dirty = ph.dirty) :
    Positions s' ph' := by
  refine ⟨by rw [hsides]; exact h.side, by rw [hsides, haccounts, hused]; exact h.position,
    fun d hd => ?_, fun d hd => ?_, fun hd => ?_⟩
  · rw [hph.1] at hd
    have hcl : ph'.closedOn d = ph.closedOn d := by unfold Phase.closedOn; rw [hph.2.1]
    rw [hcl, RiskEngine.shares_same haccounts hslots (by rw [hsides]) (by rw [hsides]), hsides]
    exact h.cover d hd
  · rw [hsides]; exact h.pending d (hph.1 ▸ hd)
  · rw [hsides]; exact h.quiet (hph.2.2 ▸ hd)

/-! ### Attaching -/

theorem Account.attachedTo_side {sides : Side → SideState} {q : Int} :
    sideOfI128 (a.attachedTo sides q).positionBasisQ = sideOfI128 q := by
  unfold attachedTo
  cases h : sideOfI128 q with
  | none => rfl
  | some d => exact h

/-- A position attached now has an exact share: itself. -/
theorem Account.attachedTo_share {sides : Side → SideState} {q : Int} (hm : 0 < (sides d).adlMult) :
    (a.attachedTo sides q).share d (sides d) = oiComponent d q := by
  unfold share
  rw [attachedTo_side]
  by_cases h : sideOfI128 q = some d
  · have hq := sideOfI128_eq_some.mp h
    have hA : ((sides d).adlMult : ℚ) ≠ 0 := by exact_mod_cast hm.ne'
    have hc : oiComponent d q = q.natAbs := by cases d <;> simp only [oiComponent] at * <;> omega
    unfold attachedTo
    rw [h]
    simp only [attachSnaps_adlEpochSnap, attachSnaps_positionBasisQ, withPositionBasisQ_positionBasisQ,
      attachSnaps_adlABasis, and_self, if_true, hc]
    field_simp
  · rw [if_neg fun hc => h hc.1]
    have hc : oiComponent d q = 0 := by
      have h : ¬ _ := fun hc => h (sideOfI128_eq_some.mpr hc)
      cases d <;> simp only [oiComponent] at * <;> omega
    rw [hc, Nat.cast_zero]

theorem Attached.sides_eq {q : Int} {f : Side → Seats} (h : Attached s s' i q f) (e : Side) :
    s'.sides e = (s.sides e).withSeats (f e) := by rw [h.eq]; rfl

theorem Attached.shares {q : Int} {f : Side → Seats} (h : Attached s s' i q f) (used : s.isUsed i = true)
    (hm : 0 < (s.sides d).adlMult) :
    s'.shares d + (s.accounts i).share d (s.sides d) = s.shares d + oiComponent d q := by
  have hs := h.sides_eq d
  rw [RiskEngine.shares_put (i := i) used (by rw [h.eq]; rfl) (by rw [h.eq]; rfl) (by rw [hs]; rfl)
    (by rw [hs]; rfl), Account.attachedTo_share hm]

/-- Other counters on a side. -/
theorem SideOk.withSeats {f : Seats} (hv : SideOk v)
    (stale : f.stale = if v.sideMode = .resetPending then f.stored else 0)
    (dustless : v.sideMode = .resetPending → f.dust = 0) : SideOk (v.withSeats f) :=
  ⟨hv.mult_pos, hv.mult_le, hv.coeff, hv.fund, hv.startK, hv.startF, hv.epoch_le, hv.oi_le, hv.drained,
    dustless, stale⟩

/-- Attaching keeps sides and positions well formed when neither the old nor the
new position is on a side that waits for its reset. -/
theorem Seated.attached {q : Int} {f : Side → Seats} (h : Seated s) (ha : Attached s s' i q f)
    (hold : ∀ d, sideOfI128 (s.accounts i).positionBasisQ = some d → (s.sides d).sideMode ≠ .resetPending)
    (hnew : ∀ d, sideOfI128 q = some d → (s.sides d).sideMode ≠ .resetPending) : Seated s' where
  side := fun e => by
    have hv := h.side e
    rw [ha.sides_eq e]
    have hstored := ha.stored e
    have hstale := hv.stale
    refine hv.withSeats ?_ fun hmode => ?_
    · rw [ha.stale e]
      split_ifs at hstale ⊢ with hmode
      · rw [Account.on, Account.on, Account.attachedTo_side, if_neg fun hc => hold e hc hmode,
          if_neg fun hc => hnew e hc hmode] at hstored
        omega
      · exact hstale
    · rw [ha.dust e, hv.dustless hmode, Account.orphaned, if_neg fun hc => hold e hc.1 hmode]
  position := fun j e hj hs => by
    rw [ha.sides_eq e]
    rw [ha.eq] at hj hs ⊢
    simp only [RiskEngine.reseat_isUsed] at hj
    by_cases hji : j = i
    · subst hji
      simp only [RiskEngine.reseat_accounts, put_same, Account.attachedTo_side] at hs ⊢
      have hv := h.side e
      unfold Account.attachedTo
      rw [hs]
      exact ⟨ha.bound, hv.mult_pos, hv.mult_le, hv.coeff, hv.fund, .inl ⟨hnew e hs, rfl⟩⟩
    · simp only [RiskEngine.reseat_accounts, put_other _ _ hji] at hs ⊢
      exact (h.position j e hj hs).congr (.refl _) rfl rfl

/-! ### Settling -/

theorem Account.flat_seated {d : Side} : sideOfI128 a.flat.positionBasisQ ≠ some d := by rintro ⟨⟩

/-- The account that a settlement leaves keeps its share, or has none and loses
less than the dust it adds. -/
theorem Resettled.cover {f : Side → Seats} (h : Resettled s d a a' f)
    (hside : sideOfI128 a.positionBasisQ = some d) (e : Side) :
    a'.share e (s.sides e) ≤ a.share e (s.sides e) ∧
      a.share e (s.sides e) + (s.sides e).phantomDustBoundQ ≤ a'.share e (s.sides e) + (f e).dust := by
  cases h with
  | kept epoch pos =>
      have : (a.withSnaps (s.sides d).adlCoeff (s.sides d).fNum (s.sides d).adlEpoch).share e (s.sides e) =
          a.share e (s.sides e) := by
        unfold Account.share
        simp only [Account.withSnaps_positionBasisQ, Account.withSnaps_adlEpochSnap,
          Account.withSnaps_adlABasis, epoch]
      rw [this]
      exact ⟨le_rfl, le_rfl⟩
  | dusted n epoch zero stored =>
      rw [Account.share_flat]
      refine ⟨Account.share_nonneg, ?_⟩
      by_cases he : e = d
      · subst he
        have hle := Account.share_le (d := e) (v := s.sides e) (a := a)
        have hfloor : a.floorShare e (s.sides e) = 0 := by
          unfold Account.floorShare; split_ifs <;> [exact zero; rfl]
        have horphan : a.orphaned e (s.sides e) ≤ 1 := by unfold Account.orphaned; split_ifs <;> omega
        have : (a.orphaned e (s.sides e) : ℚ) ≤ 1 := by exact_mod_cast horphan
        rw [hfloor] at hle
        simp only [if_true, Nat.cast_add, Nat.cast_one, Nat.cast_zero] at hle ⊢
        linarith
      · have : a.share e (s.sides e) = 0 :=
          if_neg fun hc => he (Option.some.inj (hc.1.symm.trans hside))
        simp only [this, he, if_false]
        exact le_rfl
  | stale n m mode epoch stored stale =>
      have : a.share e (s.sides e) = 0 := by
        refine if_neg fun hc => ?_
        obtain rfl : e = d := Option.some.inj (hc.1.symm.trans hside)
        have := hc.2
        omega
      rw [Account.share_flat, this]
      refine ⟨le_rfl, ?_⟩
      by_cases he : e = d
      · subst he; simp only [if_true]; exact le_rfl
      · simp only [he, if_false]; exact le_rfl

theorem Resettled.seatedSide {f : Side → Seats} (h : Resettled s d a a' f) (hs : Seated s)
    (hside : sideOfI128 a.positionBasisQ = some d) (hpos : PositionOk (s.sides d) a) (e : Side) :
    SideOk ((s.sides e).withSeats (f e)) := by
  have hv := hs.side e
  have hstale := hv.stale
  have hsame : SideOk ((s.sides e).withSeats (s.sides e).seats) := hv
  cases h with
  | kept epoch pos => exact hsame
  | dusted n epoch zero stored =>
      by_cases he : e = d
      · subst he
        have hmode : (s.sides e).sideMode ≠ .resetPending := fun hm => by
          rcases hpos.epoch with ⟨hm', -⟩ | ⟨-, hepoch⟩
          · exact hm' hm
          · omega
        simp only [if_true, if_neg hmode] at hstale ⊢
        exact hv.withSeats (by rw [if_neg hmode]; exact hstale) fun hm => absurd hm hmode
      · simp only [he, if_false]; exact hsame
  | stale n m mode epoch stored stale =>
      by_cases he : e = d
      · subst he
        simp only [if_true, if_pos mode] at hstale ⊢
        exact hv.withSeats (by rw [if_pos mode]; dsimp only; omega) hv.dustless
      · simp only [he, if_false]; exact hsame

theorem Resettled.positionOk {f : Side → Seats} (h : Resettled s d a a' f) (hv : SideOk (s.sides d))
    (hpos : PositionOk (s.sides d) a) (hd : sideOfI128 a'.positionBasisQ = some d) :
    PositionOk (s.sides d) a' := by
  cases h with
  | kept epoch pos =>
      refine ⟨hpos.bound, hpos.basis_pos, hpos.basis_le, hv.coeff, hv.fund, ?_⟩
      have := hpos.epoch
      rwa [epoch] at this
  | dusted n epoch zero stored => cases hd
  | stale n m mode epoch stored stale => cases hd

theorem Resettled.side_eq {f : Side → Seats} (h : Resettled s d a a' f)
    (hside : sideOfI128 a.positionBasisQ = some d) {e : Side}
    (he : sideOfI128 a'.positionBasisQ = some e) : e = d := by
  cases h with
  | kept epoch pos => exact Option.some.inj (he.symm.trans hside)
  | dusted n epoch zero stored => cases he
  | stale n m mode epoch stored stale => cases he

theorem Positions.resettled {f : Side → Seats} (h : Positions s ph) (used : s.isUsed i = true)
    (hside : sideOfI128 (s.accounts i).positionBasisQ = some d)
    (hr : Resettled s d (s.accounts i) a' f) :
    Positions (s.reseat i a' f) { ph with dirty := true } := by
  have hpos := h.position i d used hside
  refine ⟨fun e => hr.seatedSide h.seated hside hpos e, fun j e hj hs => ?_, fun e he => ?_, h.pending,
    (by rintro ⟨⟩)⟩
  · have hj : s.isUsed j = true := hj
    by_cases hji : j = i
    · subst hji
      simp only [RiskEngine.reseat_accounts, put_same] at hs ⊢
      obtain rfl := hr.side_eq hside hs
      exact (hr.positionOk (h.side e) hpos hs).congr (.refl _) rfl rfl
    · simp only [RiskEngine.reseat_accounts, put_other _ _ hji] at hs ⊢
      exact (h.position j e hj hs).congr (.refl _) rfl rfl
  · have hcov := h.cover e he
    have hcl : Phase.closedOn { ph with dirty := true } e = ph.closedOn e := rfl
    have hshares : (s.reseat i a' f).shares e + (s.accounts i).share e (s.sides e) =
        s.shares e + a'.share e (s.sides e) := RiskEngine.shares_put used rfl rfl rfl rfl
    obtain ⟨h1, h2⟩ := hr.cover hside e
    have hle := hcov.le
    have hge := hcov.ge
    rw [hcl]
    refine ⟨?_, ?_⟩
    · show _ ≤ ((s.sides e).oiEffQ : ℚ)
      linarith
    · show ((s.sides e).oiEffQ : ℚ) ≤ _ + _ + ((f e).dust : ℚ)
      linarith

/-! ### Trading and closing -/

theorem Seated.old_side_open (h : Seated s) (used : s.isUsed i = true) {e : Int}
    (he : effectivePosQ s i = some e) (hne : e ≠ 0) {c : Side}
    (hc : sideOfI128 (s.accounts i).positionBasisQ = some c) :
    sideOfI128 e = some c ∧ (s.sides c).sideMode ≠ .resetPending := by
  cases hs : sideOfI128 e with
  | none => exact absurd (sideOfI128_eq_none.mp hs) hne
  | some d =>
      obtain ⟨h1, -, h3⟩ := h.open_side used he hs
      obtain rfl := Option.some.inj (h1.symm.trans hc)
      exact ⟨rfl, h3⟩

/-- What a position is on a side, as a natural number. -/
theorem oiComponent_of_side {e : Int} (h : sideOfI128 e = some d) (c : Side) :
    oiComponent c e = if c = d then e.natAbs else 0 := by
  have := sideOfI128_eq_some.mp h
  cases c <;> cases d <;> simp only [oiComponent] at * <;> simp <;> omega

theorem Closing.component {q : Nat} {old new : Int} (h : Closing s s' i d q old new) (c : Side) :
    oiComponent c old = oiComponent c new + if c = d then q else 0 := by
  have hsplit := h.split
  rw [oiComponent_of_side h.side]
  rcases h.same_side with rfl | hn
  · have : oiComponent c 0 = 0 := by cases c <;> rfl
    rw [this]
    split_ifs <;> omega
  · rw [oiComponent_of_side hn]
    split_ifs <;> omega

theorem Positions.closed {q : Nat} {old new : Int} (h : Positions s ph) (used : s.isUsed i = true)
    (pending : ∀ d, ph.pending d = false) (closing : ph.closing = none)
    (hc : Closing s s' i d q old new) :
    Positions s' { ph with dirty := true, closing := some (i, d, q) } := by
  obtain ⟨f, hf⟩ := hc.attached
  obtain ⟨hside, hepoch, hmode⟩ := h.seated.open_side used hc.eff hc.side
  have hseated : Seated s' := by
    refine h.seated.attached hf (fun e he => ?_) fun e he => ?_
    · obtain rfl := Option.some.inj (he.symm.trans hside); exact hmode
    · rcases hc.same_side with rfl | hn
      · cases he
      · obtain rfl := Option.some.inj (he.symm.trans hn); exact hmode
  refine hseated.positions ⟨fun e _ => ?_, fun e he => ?_, (by rintro ⟨⟩)⟩
  · have hcov := h.cover e (pending e)
    have hshares := hf.shares (d := e) used (h.side e).mult_pos
    have hcomp := hc.component e
    rw [h.seated.component used hc.eff e] at hcomp
    have hfl := Account.floorShare_le (d := e) (v := s.sides e) (a := s.accounts i)
    have hsh := Account.share_le (d := e) (v := s.sides e) (a := s.accounts i)
    have hcl : ph.closedOn e = 0 := by unfold Phase.closedOn; rw [closing]
    have hcl' : Phase.closedOn { ph with dirty := true, closing := some (i, d, q) } e =
        if e = d then q else 0 := by
      unfold Phase.closedOn; simp only [eq_comm]
    have hle := hcov.le
    have hge := hcov.ge
    have hdust := hf.dust e
    have hoi : (s'.sides e).oiEffQ = (s.sides e).oiEffQ := by rw [hf.sides_eq e]; rfl
    have hdust' : (s'.sides e).phantomDustBoundQ = (f e).dust := by rw [hf.sides_eq e]; rfl
    rw [hcl] at hle hge
    rw [hcl', hoi, hdust', hdust]
    have hcomp : ((s.accounts i).floorShare e (s.sides e) : ℚ) =
        oiComponent e new + ((if e = d then q else 0 : Nat) : ℚ) := by exact_mod_cast hcomp
    refine ⟨?_, ?_⟩
    · push_cast at *; linarith
    · push_cast at *; linarith
  · exact absurd ((pending e).symm.trans he) (by rintro ⟨⟩)

/-- The open interest of a side covers all effective positions on it. -/
theorem Positions.floors_le (h : Positions s ph) (d : Side) (hp : ph.pending d = false) :
    tally s.usedSlots s.accounts (Account.floorShare d (s.sides d)) + ph.closedOn d ≤ (s.sides d).oiEffQ := by
  have hle := (h.cover d hp).le
  have hfl := RiskEngine.floorShares_le (s := s) (d := d)
  have : ((tally s.usedSlots s.accounts (Account.floorShare d (s.sides d)) + ph.closedOn d : Nat) : ℚ) ≤
      ((s.sides d).oiEffQ : ℚ) := by push_cast; linarith
  exact_mod_cast this

section Traded

variable {j : Nat} {q oldA oldB : Int} {after : Side → Nat}

/-- A trade goes through only when no side waits for its reset. -/
theorem Positions.open_of_traded (h : Positions s ph)
    (balanced : (s.sides .long).oiEffQ = (s.sides .short).oiEffQ) (usedA : s.isUsed i = true)
    (usedB : s.isUsed j = true) (pending : ∀ d, ph.pending d = false)
    (ht : Traded s s' i j q oldA oldB after) (d : Side) : (s.sides d).sideMode ≠ .resetPending := by
  intro hmode
  have h0 : ∀ e, (s.sides e).oiEffQ = 0 := by
    have hd := (h.side d).drained hmode
    intro e
    cases d <;> cases e <;> omega
  have hflat : ∀ {k : Nat} {e : Int}, s.isUsed k = true → effectivePosQ s k = some e → e = 0 := by
    intro k e hk he
    have hz : ∀ c, oiComponent c e = 0 := by
      intro c
      have := h.floors_le c (pending c)
      have := le_tally (f := Account.floorShare c (s.sides c)) (t := s.accounts)
        (RiskEngine.mem_usedSlots.mpr hk)
      rw [h.seated.component hk he c]
      have := h0 c
      omega
    have := oiComponent_sub e
    rw [hz, hz] at this
    simpa using this.symm
  obtain rfl := hflat usedA ht.effA
  obtain rfl := hflat usedB ht.effB
  have hafter := ht.after_eq d
  have hblock := ht.unblocked d (by rw [hmode]; rintro ⟨⟩)
  have hq := ht.pos
  rw [h0 d] at hafter hblock
  cases d <;> simp only [oiComponent] at hafter <;> omega

theorem Positions.traded (h : Positions s ph)
    (balanced : (s.sides .long).oiEffQ = (s.sides .short).oiEffQ) (usedA : s.isUsed i = true)
    (usedB : s.isUsed j = true) (pending : ∀ d, ph.pending d = false) (closing : ph.closing = none)
    (ht : Traded s s' i j q oldA oldB after) : Positions s' { ph with dirty := true } := by
  have hopen := h.open_of_traded balanced usedA usedB pending ht
  obtain ⟨s₁, s₂, f, g, hA, hB, rfl⟩ := ht.legs
  have hs₁ : Seated s₁ := h.seated.attached hA (fun e _ => hopen e) fun e _ => hopen e
  have hopen₁ : ∀ e, (s₁.sides e).sideMode ≠ .resetPending := fun e => by
    rw [hA.sides_eq e]; exact hopen e
  have hs₂ : Seated s₂ := hs₁.attached hB (fun e _ => hopen₁ e) fun e _ => hopen₁ e
  have hopen₂ : ∀ e, (s₂.sides e).sideMode ≠ .resetPending := fun e => by
    rw [hB.sides_eq e]; exact hopen₁ e
  have hused₁ : s₁.isUsed j = true := by rw [hA.eq]; exact usedB
  have hacc₁ : s₁.accounts j = s.accounts j := by
    rw [hA.eq]; exact put_other _ _ (Ne.symm ht.ne)
  have hseated : Seated (s₂.withSides fun d => (s₂.sides d).withOi (after d)) := by
    refine hs₂.withSides (fun e => ?_) (fun e => .inl rfl) fun e => rfl
    have hv := hs₂.side e
    exact ⟨hv.mult_pos, hv.mult_le, hv.coeff, hv.fund, hv.startK, hv.startF, hv.epoch_le, ht.after_le e,
      fun hm => absurd hm (hopen₂ e), fun hm => absurd hm (hopen₂ e), hv.stale⟩
  refine hseated.positions ⟨fun e _ => ?_, fun e he => absurd ((pending e).symm.trans he) (by rintro ⟨⟩), (by rintro ⟨⟩)⟩
  have hcov := h.cover e (pending e)
  have hcl : ph.closedOn e = 0 := by unfold Phase.closedOn; rw [closing]
  have hcl' : Phase.closedOn { ph with dirty := true } e = 0 := hcl
  have hshA := hA.shares (d := e) usedA (h.side e).mult_pos
  have hshB := hB.shares (d := e) hused₁ (hs₁.side e).mult_pos
  have hshare : (s₁.accounts j).share e (s₁.sides e) = (s.accounts j).share e (s.sides e) := by
    rw [hacc₁, hA.sides_eq e]; exact Account.share_congr (.refl _) rfl rfl
  have horphan : (s₁.accounts j).orphaned e (s₁.sides e) = (s.accounts j).orphaned e (s.sides e) := by
    rw [hacc₁, hA.sides_eq e]; rfl
  have hsame : RiskEngine.shares (s₂.withSides fun d => (s₂.sides d).withOi (after d)) e = s₂.shares e :=
    RiskEngine.shares_same rfl rfl rfl rfl
  have hdust : (s₂.sides e).phantomDustBoundQ = (s.sides e).phantomDustBoundQ +
      (s.accounts i).orphaned e (s.sides e) + (s.accounts j).orphaned e (s.sides e) := by
    have h₁ : (s₁.sides e).phantomDustBoundQ = (f e).dust := by rw [hA.sides_eq e]; rfl
    have h₂ : (s₂.sides e).phantomDustBoundQ = (g e).dust := by rw [hB.sides_eq e]; rfl
    rw [h₂, hB.dust e, horphan, h₁, hA.dust e]
  have hafter := ht.after_eq e
  rw [h.seated.component usedA ht.effA e, h.seated.component usedB ht.effB e] at hafter
  have hafter : (after e : ℚ) + (s.accounts i).floorShare e (s.sides e) +
      (s.accounts j).floorShare e (s.sides e) = (s.sides e).oiEffQ + oiComponent e (oldA + q) +
      oiComponent e (oldB - q) := by exact_mod_cast hafter
  have hflA := Account.floorShare_le (d := e) (v := s.sides e) (a := s.accounts i)
  have hlA := Account.share_le (d := e) (v := s.sides e) (a := s.accounts i)
  have hflB := Account.floorShare_le (d := e) (v := s.sides e) (a := s.accounts j)
  have hlB := Account.share_le (d := e) (v := s.sides e) (a := s.accounts j)
  have hle := hcov.le
  have hge := hcov.ge
  rw [hshare] at hshB
  rw [hcl, Nat.cast_zero] at hle hge
  rw [hcl', hsame]
  refine ⟨?_, ?_⟩
  · show _ ≤ (after e : ℚ)
    push_cast
    linarith
  · show (after e : ℚ) ≤ _ + _ + ((s₂.sides e).phantomDustBoundQ : ℚ)
    rw [hdust]
    push_cast
    linarith

end Traded

end Percolator
