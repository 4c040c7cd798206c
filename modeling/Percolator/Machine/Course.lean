import Percolator.Invariant.Terminal

/-!
The course of an instruction: the run of steps that leads to the state it is in.

`Course` is such a run with the invariant at its end, and its lemmas carry it over
the calls that every instruction is made of. `Between` is a Live instruction
between two of its parts, with its context; `Done` is one with nothing left to do.
-/

namespace Percolator

open Effect

/-- A run of steps from `c` by the events `l` has led to the state `s` in phase `ph`. -/
structure Course (sc : Scope) (c : Conf) (l : List Event) (s : RiskEngine) (ph : Phase) : Prop where
  run : Run (Step sc) c l ⟨s, ph⟩
  good : Good ⟨s, ph⟩

/-- The course has come to rest. -/
def Done (sc : Scope) (c : Conf) (l : List Event) (s : RiskEngine) : Prop :=
  ∃ ph, Course sc c l s ph ∧ ph.AtRest

theorem Phase.idle_atRest : Phase.idle.AtRest := ⟨rfl, fun _ => rfl, rfl, rfl, rfl⟩

section Course

variable {sc : Scope} {c : Conf} {l l' : List Event} {s s' : RiskEngine} {ph ph' : Phase} {i : Nat}
  {α : Type} {Q : α → RiskEngine → List Event → Prop} {U : Unit → RiskEngine → List Event → Prop}

/-- A call that faults plainly is accounted for by its normal ends. -/
theorem wp_plain {m : Act α} (ok : ∀ a s' l', m s = .ok a s' l' → Q a s' (l ++ l')) :
    wp m Q (fun p => Fault.Sound (.plain p)) s l := wp_call ok fun _ _ _ => trivial

theorem Course.start (sc : Scope) (h : Good ⟨s, ph⟩) : Course sc ⟨s, ph⟩ [] s ph := ⟨.refl _, h⟩

theorem Course.step (h : Course sc c l s ph) (st : Step sc ⟨s, ph⟩ l' ⟨s', ph'⟩) :
    Course sc c (l ++ l') s' ph' :=
  ⟨h.run.tail st, h.good.step st⟩

/-- A step without events. -/
theorem Course.quiet (h : Course sc c l s ph) (st : Step sc ⟨s, ph⟩ [] ⟨s', ph'⟩) :
    Course sc c l s' ph' := by
  simpa using h.step st

theorem Course.booked (h : Course sc c l s ph) (used : s.isUsed i = true) (reach : sc.reach i)
    (hb : Booked Entry i s s' l') : Course sc c (l ++ l') s' ph := by
  rcases hb with ⟨rfl, rfl⟩ | ⟨a', t', rfl, entry⟩
  · simpa using h
  · exact h.step (.booked used reach entry)

theorem Course.charged (h : Course sc c l s ph) (used : s.isUsed i = true) (reach : sc.reach i)
    (allowed : sc.charges i ∨ ∃ d q, ph.closing = some (i, d, q)) (hb : Booked Charged i s s' l') :
    Course sc c (l ++ l') s' ph := by
  rcases hb with ⟨rfl, rfl⟩ | ⟨a', t', rfl, charge, rfl⟩
  · simpa using h
  · exact h.step (.charged used reach allowed charge)

theorem Course.forgave (h : Course sc c l s ph) (used : s.isUsed i = true) (reach : sc.reach i)
    (calm : ph.trading = []) (hb : Booked Forgiven i s s' l') : Course sc c (l ++ l') s' ph := by
  rcases hb with ⟨rfl, rfl⟩ | ⟨a', t', rfl, forgiven⟩
  · simpa using h
  · exact h.step (.forgave used reach calm forgiven)

/-- The postconditions are checks. -/
theorem assertPublicPostconditions_same (hok : assertPublicPostconditions s = .ok () s' l) : s' = s := by
  refine wp_sound (Q := fun _ s' _ => s' = s) hok ?_
  simp only [assertPublicPostconditions, wp_bind, wp_read, wp_corruptIf, implies_true, true_and]

/-- The conservation check and the balance of the open interest cannot fail. -/
theorem Course.postconditions (h : Course sc c l s ph) (hU : U () s l) :
    wp assertPublicPostconditions U Fault.Sound s l := by
  have hbacked := h.good.books.backed
  have hvault := h.good.books.vault_le
  have hbalanced := h.good.balanced
  dsimp only at hbacked hvault hbalanced
  have hcons : checkConservation s = true := by
    simp only [checkConservation, Bool.and_eq_true, decide_eq_true_eq]
    refine ⟨?_, hbacked⟩
    simp only [MAX_VAULT_TVL, U128_MAX] at *
    omega
  simp only [assertPublicPostconditions, wp_bind, wp_read, wp_corruptIf]
  exact ⟨fun hc => absurd hcons (by rw [hc]; rintro ⟨⟩), fun _ => ⟨fun hne => absurd hbalanced hne, fun _ => hU⟩⟩

/-- The invariant sees of a phase at rest that it is at rest. -/
theorem Good.rest (h : Good ⟨s, ph⟩) (rest : ph.AtRest) : Good ⟨s, .idle⟩ := by
  refine ⟨h.books, h.timely, h.balanced, h.reserves, fun live => ?_, h.terminal⟩
  exact (h.positions live).same rfl rfl rfl rfl ⟨funext fun d => (rest.pending d).symm, rest.closing.symm,
    rest.clean.symm⟩

theorem Done.good (h : Done sc c l s) : Good ⟨s, .idle⟩ := by
  obtain ⟨ph, hc, rest⟩ := h
  exact hc.good.rest rest

/-- The fee credits that the books keep in range. -/
theorem Course.fee (h : Course sc c l s ph) (used : s.isUsed i = true) :
    -I128_MAX ≤ (s.accounts i).feeCredits := (h.good.books.fee i used).1

theorem Course.backing (h : Course sc c l s ph) : 0 ≤ s.backing := by
  have := h.good.books.backed
  dsimp only at this
  unfold RiskEngine.backing
  omega

end Course

/-- What an instruction leaves as it is once the market has accrued: the parameters, the mode, the
clocks and the price. -/
def RiskEngine.setting (s : RiskEngine) : RiskParams × MarketMode × Nat × Nat × Nat :=
  (s.params, s.marketMode, s.currentSlot, s.lastMarketSlot, s.lastOraclePrice)

/-- A Live instruction with context `ctx` between two of its parts. -/
structure Between (sc : Scope) (c : Conf) (ctx : InstructionContext) (l : List Event) (s : RiskEngine)
    (ph : Phase) : Prop extends Course sc c l s ph where
  live : s.marketMode = .live
  pending : ph.pending = ctx.pendingReset
  closing : ph.closing = none
  trading : ph.trading = []
  owed : ph.owed = 0
  members : ∀ i ∈ ctx.touchedAccounts, s.isUsed i = true ∧ sc.reach i ∧ i ∈ ph.touched
  pair : AdmissionPair s.params ctx.admitHMinShared ctx.admitHMaxShared
  instant : ctx.admitHMinShared = 0 → sc.instant

/-- What a touch of account `i` leaves: it is settled, and nobody else moved. -/
structure TouchedBy (s s' : RiskEngine) (i : Nat) : Prop where
  synced : (s'.accounts i).Synced s'.sides
  whole : (s'.accounts i).Whole s'.sides
  others : ∀ j, j ≠ i → s'.accounts j = s.accounts j
  indices : ∀ d, (s'.sides d).indices = (s.sides d).indices
  epoch : ∀ d, (s'.sides d).adlEpoch = (s.sides d).adlEpoch
  mult : ∀ d, (s'.sides d).adlMult = (s.sides d).adlMult
  used : s'.isUsed = s.isUsed

end Percolator
