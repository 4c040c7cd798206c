/-!
Effects: deterministic runs over a state that may fault and that emit events.

An `Effect ε ω σ α` reads and writes a state `σ`, returns an `α` or faults with
an `ε`, and emits a list of events `ω`. A fault keeps the state it was raised
in, so that a caller who rolls back and a caller who does not can both be
described. `wp` is the weakest precondition of an effect with a postcondition
for normal ends and one for faults; its rules rewrite a program piece by piece
into a proposition about the state it starts from.
-/

namespace Percolator

/-- How a run ends: a value, the final state and the events, or a fault. -/
inductive Outcome (ε ω σ α : Type) where
  | ok (value : α) (state : σ) (events : List ω)
  | fault (error : ε) (state : σ)

/-- Whether a run ended normally. -/
def Outcome.ended {ε ω σ α : Type} : Outcome ε ω σ α → Bool
  | .ok _ _ _ => true
  | .fault _ _ => false

/-- The state in which a run ended. -/
def Outcome.final {ε ω σ α : Type} : Outcome ε ω σ α → σ
  | .ok _ s _ => s
  | .fault _ s => s

/-- The events of a run that ended normally. -/
def Outcome.events {ε ω σ α : Type} : Outcome ε ω σ α → List ω
  | .ok _ _ l => l
  | .fault _ _ => []

theorem Outcome.eq_ok {ε ω σ α : Type} {o : Outcome ε ω σ α} (h : o.ended = true) :
    ∃ a l, o = .ok a o.final l := by
  cases o with
  | ok a s l => exact ⟨a, l, rfl⟩
  | fault e s => cases h

/-- The value of a normal end. -/
def Outcome.value {ε ω σ α : Type} : Outcome ε ω σ α → Option α
  | .ok a _ _ => some a
  | .fault _ _ => none

theorem Outcome.eq_ok_of_value {ε ω σ α : Type} {o : Outcome ε ω σ α} {a : α} (h : o.value = some a) :
    ∃ l, o = .ok a o.final l := by
  cases o with
  | ok b s l =>
      obtain rfl : b = a := Option.some.inj h
      exact ⟨l, rfl⟩
  | fault e s => cases h

/-- The fault of a run that did not end normally. -/
def Outcome.failure {ε ω σ α : Type} : Outcome ε ω σ α → Option ε
  | .ok _ _ _ => none
  | .fault e _ => some e

theorem Outcome.eq_fault_of_failure {ε ω σ α : Type} {o : Outcome ε ω σ α} {e : ε} (h : o.failure = some e) :
    o = .fault e o.final := by
  cases o with
  | ok a s l => cases h
  | fault e' s =>
      obtain rfl : e' = e := Option.some.inj h
      rfl

/-- A run from a state. -/
def Effect (ε ω σ α : Type) : Type := σ → Outcome ε ω σ α

namespace Effect

variable {ε ε' ω σ α β : Type}

/-- The run that returns at once. -/
def ret (a : α) : Effect ε ω σ α := fun s => .ok a s []

/-- Sequencing: events are appended, and a fault ends the run. -/
def seq (m : Effect ε ω σ α) (f : α → Effect ε ω σ β) : Effect ε ω σ β := fun s =>
  match m s with
  | .ok a s₁ l₁ =>
      match f a s₁ with
      | .ok b s₂ l₂ => .ok b s₂ (l₁ ++ l₂)
      | .fault e s₂ => .fault e s₂
  | .fault e s₁ => .fault e s₁

instance : Monad (Effect ε ω σ) where
  pure := ret
  bind := seq

/-- A sequence of three is the same from either end. -/
theorem seq_assoc {γ : Type} (m : Effect ε ω σ α) (f : α → Effect ε ω σ β) (g : β → Effect ε ω σ γ) :
    m >>= f >>= g = m >>= fun a => f a >>= g := by
  funext s
  simp only [bind, seq]
  cases m s with
  | fault e s₁ => rfl
  | ok a s₁ l₁ =>
      dsimp only
      cases f a s₁ with
      | fault e s₂ => rfl
      | ok b s₂ l₂ =>
          dsimp only
          cases g b s₂ with
          | fault e s₃ => rfl
          | ok c s₃ l₃ => simp only [List.append_assoc]

theorem ret_seq (a : α) (f : α → Effect ε ω σ β) : pure a >>= f = f a := by
  funext s
  simp only [bind, pure, seq, ret]
  cases f a s with
  | fault e s₁ => rfl
  | ok b s₁ l₁ => rfl

/-- The current state. -/
def read : Effect ε ω σ σ := fun s => .ok s s []

/-- Replace the state. -/
def update (f : σ → σ) : Effect ε ω σ Unit := fun s => .ok () (f s) []

/-- Emit one event. -/
def emit (w : ω) : Effect ε ω σ Unit := fun s => .ok () s [w]

/-- Fault. -/
def fail (e : ε) : Effect ε ω σ α := fun s => .fault e s

/-- Fault with `e` when `c` holds. -/
def failIf (c : Prop) [Decidable c] (e : ε) : Effect ε ω σ Unit :=
  if c then fail e else pure ()

/-- The value of `o`, or the fault `e`. -/
def demand (o : Option α) (e : ε) : Effect ε ω σ α :=
  match o with
  | some a => pure a
  | none => fail e

/-- Run `m` only when `c` holds. -/
def whenever (c : Prop) [Decidable c] (m : Effect ε ω σ Unit) : Effect ε ω σ Unit :=
  if c then m else pure ()

/-- Run `f` on each member of a list, in order. -/
def forEach (f : α → Effect ε ω σ Unit) : List α → Effect ε ω σ Unit
  | [] => pure ()
  | a :: as => do
      f a
      forEach f as

/-- Rename the faults of a run. -/
def mapFault (g : ε → ε') (m : Effect ε ω σ α) : Effect ε' ω σ α := fun s =>
  match m s with
  | .ok a s' l => .ok a s' l
  | .fault e s' => .fault (g e) s'

/-! ### Weakest preconditions -/

/-- An outcome after the events `l` ends in `Q` or faults in `E`. -/
def Ends (o : Outcome ε ω σ α) (Q : α → σ → List ω → Prop) (E : ε → σ → Prop)
    (l : List ω) : Prop :=
  match o with
  | .ok a s' l' => Q a s' (l ++ l')
  | .fault e s' => E e s'

/-- `wp m Q E s l`: run from `s` with the events `l` already emitted, `m` ends
in `Q` or faults in `E`. -/
def wp (m : Effect ε ω σ α) (Q : α → σ → List ω → Prop) (E : ε → σ → Prop) (s : σ)
    (l : List ω) : Prop :=
  Ends (m s) Q E l

section Rules

variable {Q Q' : α → σ → List ω → Prop} {R : β → σ → List ω → Prop} {U : Unit → σ → List ω → Prop}
  {E E' : ε → σ → Prop} {s s' : σ} {l l' : List ω} {m : Effect ε ω σ α}

/-- What a weakest precondition says about a run that ended normally. -/
theorem wp_sound {a : α} (h : m s = .ok a s' l') (w : wp m Q (fun _ _ => True) s []) :
    Q a s' l' := by
  simpa [wp, Ends, h] using w

/-- What a weakest precondition says about a run that faulted. -/
theorem wp_sound_fault {e : ε} (h : m s = .fault e s') (w : wp m Q E s l) : E e s' := by
  simpa [wp, Ends, h] using w

/-- A call is its two ends. -/
theorem wp_call (ok : ∀ a s' l', m s = .ok a s' l' → Q a s' (l ++ l'))
    (fault : ∀ e s', m s = .fault e s' → E e s') : wp m Q E s l := by
  unfold wp Ends
  cases h : m s with
  | ok a s' l' => exact ok a s' l' h
  | fault e s' => exact fault e s' h

/-- A call whose faults need no account. -/
theorem wp_ok (ok : ∀ a s' l', m s = .ok a s' l' → Q a s' (l ++ l')) :
    wp m Q (fun _ _ => True) s l :=
  wp_call ok fun _ _ _ => trivial

/-- A call whose faults are accounted for is its normal ends. -/
theorem wp_split (faults : wp m (fun _ _ _ => True) E s l)
    (ok : ∀ a s' l', m s = .ok a s' l' → Q a s' (l ++ l')) : wp m Q E s l :=
  wp_call ok fun _ _ h => wp_sound_fault h faults

/-- A run that cannot fault ends normally. -/
theorem wp_total (h : wp m Q (fun _ _ => False) s []) : ∃ a s' l, m s = .ok a s' l ∧ Q a s' l := by
  unfold wp Ends at h
  cases hm : m s with
  | ok a s' l' => rw [hm] at h; exact ⟨a, s', l', rfl, h⟩
  | fault e s' => rw [hm] at h; exact h.elim

/-- What a weakest precondition says about a call after other events. -/
theorem wp_at {a : α} (w : wp m Q E s l) (h : m s = .ok a s' l') : Q a s' (l ++ l') := by
  simpa [wp, Ends, h] using w

/-- A sequence ends normally when both its parts do. -/
theorem bind_eq_ok {f : α → Effect ε ω σ β} {b : β} :
    (m >>= f) s = .ok b s' l ↔
      ∃ a s₁ l₁ l₂, m s = .ok a s₁ l₁ ∧ f a s₁ = .ok b s' l₂ ∧ l = l₁ ++ l₂ := by
  show seq m f s = _ ↔ _
  unfold seq
  cases m s with
  | fault e s₁ => simp
  | ok a s₁ l₁ =>
      dsimp only
      cases h : f a s₁ with
      | fault e s₂ =>
          simp only [reduceCtorEq, false_iff]
          rintro ⟨a, s₁, l₁, l₂, hm, hf, -⟩
          obtain ⟨rfl, rfl, rfl⟩ := Outcome.ok.inj hm
          rw [h] at hf
          cases hf
      | ok c s₂ l₂ =>
          constructor
          · intro hok
            obtain ⟨rfl, rfl, rfl⟩ := Outcome.ok.inj hok
            exact ⟨a, s₁, l₁, l₂, rfl, h, rfl⟩
          · rintro ⟨a, s₁, l₁, l₂, hm, hf, rfl⟩
            obtain ⟨rfl, rfl, rfl⟩ := Outcome.ok.inj hm
            rw [h] at hf
            obtain ⟨rfl, rfl, rfl⟩ := Outcome.ok.inj hf
            rfl

theorem mapFault_eq_ok {g : ε → ε'} {a : α} :
    mapFault g m s = .ok a s' l ↔ m s = .ok a s' l := by
  unfold mapFault
  cases m s with
  | ok a s' l => simp
  | fault e s' => simp

/-- A run that cannot end normally faults. -/
theorem wp_faults (h : wp m (fun _ _ _ => False) E s []) : ∃ e s', m s = .fault e s' ∧ E e s' := by
  unfold wp Ends at h
  cases hm : m s with
  | ok a s' l' => rw [hm] at h; exact h.elim
  | fault e s' => rw [hm] at h; exact ⟨e, s', rfl, h⟩

theorem wp_mono (w : wp m Q E s l) (hQ : ∀ a s l, Q a s l → Q' a s l)
    (hE : ∀ e s, E e s → E' e s) : wp m Q' E' s l := by
  unfold wp Ends at *
  cases h : m s with
  | ok a s' l' => simp only [h] at w ⊢; exact hQ _ _ _ w
  | fault e s' => simp only [h] at w ⊢; exact hE _ _ w

/-- Two facts about one run. -/
theorem wp_and (w : wp m Q E s l) (w' : wp m Q' E' s l) :
    wp m (fun a s l => Q a s l ∧ Q' a s l) (fun e s => E e s ∧ E' e s) s l := by
  unfold wp Ends at *
  cases h : m s with
  | ok a s' l' => simp only [h] at w w' ⊢; exact ⟨w, w'⟩
  | fault e s' => simp only [h] at w w' ⊢; exact ⟨w, w'⟩

@[simp] theorem wp_pure {a : α} : wp (pure a : Effect ε ω σ α) Q E s l ↔ Q a s l := by
  simp [wp, Ends, pure, ret]

@[simp] theorem wp_bind {f : α → Effect ε ω σ β} :
    wp (m >>= f) R E s l ↔ wp m (fun a s l => wp (f a) R E s l) E s l := by
  show wp (seq m f) R E s l ↔ _
  unfold wp Ends seq
  cases h : m s with
  | ok a s₁ l₁ =>
      dsimp only
      cases h' : f a s₁ with
      | ok b s₂ l₂ => simp only [List.append_assoc]
      | fault e s₂ => rfl
  | fault e s₁ => rfl

@[simp] theorem wp_read {Q : σ → σ → List ω → Prop} :
    wp (read : Effect ε ω σ σ) Q E s l ↔ Q s s l := by
  simp [wp, Ends, read]

@[simp] theorem wp_update {f : σ → σ} : wp (update f : Effect ε ω σ Unit) U E s l ↔ U () (f s) l := by
  simp [wp, Ends, update]

@[simp] theorem wp_emit {w : ω} :
    wp (emit w : Effect ε ω σ Unit) U E s l ↔ U () s (l ++ [w]) := by
  simp [wp, Ends, emit]

@[simp] theorem wp_fail {e : ε} : wp (fail e : Effect ε ω σ α) Q E s l ↔ E e s := by
  simp [wp, Ends, fail]

@[simp] theorem wp_ite {c : Prop} [Decidable c] {m m' : Effect ε ω σ α} :
    wp (if c then m else m') Q E s l ↔ (c → wp m Q E s l) ∧ (¬ c → wp m' Q E s l) := by
  by_cases h : c <;> simp [h]

@[simp] theorem wp_failIf {c : Prop} [Decidable c] {e : ε} :
    wp (failIf c e : Effect ε ω σ Unit) U E s l ↔ (c → E e s) ∧ (¬ c → U () s l) := by
  simp [failIf]

@[simp] theorem wp_demand {o : Option α} {e : ε} :
    wp (demand o e : Effect ε ω σ α) Q E s l ↔ (o = none → E e s) ∧ ∀ a, o = some a → Q a s l := by
  cases o <;> simp [demand]

@[simp] theorem wp_whenever {c : Prop} [Decidable c] {m : Effect ε ω σ Unit} :
    wp (whenever c m) U E s l ↔ (c → wp m U E s l) ∧ (¬ c → U () s l) := by
  simp [whenever]

@[simp] theorem wp_mapFault {g : ε → ε'} {F : ε' → σ → Prop} :
    wp (mapFault g m) Q F s l ↔ wp m Q (fun e => F (g e)) s l := by
  unfold wp Ends mapFault
  cases h : m s <;> rfl

/-- Case analysis on an optional value. -/
theorem wp_option {o : Option β} {m : Effect ε ω σ α} {f : β → Effect ε ω σ α}
    (none : o = none → wp m Q E s l) (some : ∀ b, o = some b → wp (f b) Q E s l) :
    wp (match o with | .none => m | .some b => f b) Q E s l := by
  cases o with
  | none => exact none rfl
  | some b => exact some b rfl

/-- A loop over a list keeps an invariant that its body keeps. -/
theorem wp_forEach {f : α → Effect ε ω σ Unit} {I : σ → List ω → Prop} {as : List α}
    (body : ∀ a ∈ as, ∀ s l, I s l → wp (f a) (fun _ s l => I s l) E s l) (h : I s l) :
    wp (forEach f as) (fun _ s l => I s l) E s l := by
  induction as generalizing s l with
  | nil => simpa [forEach] using h
  | cons a as ih =>
      rw [forEach, wp_bind]
      refine wp_mono (body a List.mem_cons_self s l h) (fun _ s l hI => ?_) fun _ _ he => he
      exact ih (fun b hb => body b (List.mem_cons_of_mem _ hb)) hI

end Rules

/-! ### Loops as folds -/

section Folds

variable {f : α → Effect ε ω σ Unit} {g : σ → α → σ} {I : σ → Prop} {as bs : List α} {s : σ}

/-- A loop whose turns all succeed without events is a fold. -/
theorem forEach_fold (turn : ∀ a s, I s → f a s = .ok () (g s a) [] ∧ I (g s a)) (h : I s) :
    forEach f as s = .ok () (as.foldl g s) [] ∧ I (as.foldl g s) := by
  induction as generalizing s with
  | nil => exact ⟨rfl, h⟩
  | cons a as ih =>
      obtain ⟨first, kept⟩ := turn a s h
      obtain ⟨rest, last⟩ := ih kept
      refine ⟨?_, last⟩
      rw [forEach, bind_eq_ok]
      exact ⟨(), g s a, [], [], first, rest, rfl⟩

/-- A fold of turns that commute ends alike in every order of distinct members. -/
theorem foldl_perm (keeps : ∀ a s, I s → I (g s a))
    (commutes : ∀ a b s, a ≠ b → I s → g (g s a) b = g (g s b) a) (perm : as.Perm bs) (nodup : as.Nodup)
    (h : I s) : as.foldl g s = bs.foldl g s := by
  induction perm generalizing s with
  | nil => rfl
  | cons a _ ih => exact ih (List.nodup_cons.mp nodup).2 (keeps a s h)
  | swap a b as =>
      have distinct : b ≠ a := by
        rintro rfl
        exact (List.nodup_cons.mp nodup).1 List.mem_cons_self
      rw [List.foldl_cons, List.foldl_cons, List.foldl_cons, List.foldl_cons, commutes b a s distinct h]
  | trans first _ ih₁ ih₂ => exact (ih₁ nodup h).trans (ih₂ (first.nodup_iff.mp nodup) h)

end Folds

/-! ### Runs without their events -/

/-- From `s` the effect ends normally with `a` in `s'`. -/
def Runs (m : Effect ε ω σ α) (s : σ) (a : α) (s' : σ) : Prop := ∃ l, m s = .ok a s' l

section Runs

variable {m : Effect ε ω σ α} {f : α → Effect ε ω σ β} {s s₁ s₂ : σ} {a : α} {b : β}

theorem Runs.bind (h : Runs m s a s₁) (h' : Runs (f a) s₁ b s₂) : Runs (m >>= f) s b s₂ := by
  obtain ⟨l, hm⟩ := h
  obtain ⟨l', hf⟩ := h'
  exact ⟨_, bind_eq_ok.mpr ⟨a, s₁, l, l', hm, hf, rfl⟩⟩

theorem runs_pure (a : α) (s : σ) : Runs (pure a : Effect ε ω σ α) s a s := ⟨[], rfl⟩

theorem runs_demand {o : Option α} {e : ε} (h : o = some a) : Runs (demand o e : Effect ε ω σ α) s a s := by
  rw [h]
  exact runs_pure a s

theorem Runs.mapFault {g : ε → ε'} (h : Runs m s a s₁) : Runs (mapFault g m) s a s₁ := by
  obtain ⟨l, hm⟩ := h
  exact ⟨l, mapFault_eq_ok.mpr hm⟩

/-- A weakest precondition of a run from its end. -/
theorem Runs.wp {Q : α → σ → List ω → Prop} {E : ε → σ → Prop} {l : List ω} (h : Runs m s a s₁)
    (post : ∀ l', Q a s₁ l') : wp m Q E s l := by
  obtain ⟨l', ok⟩ := h
  unfold Effect.wp Ends
  rw [ok]
  exact post _

/-- Both ends of a run are determined by its start. -/
theorem Runs.unique {a' : α} (h : Runs m s a s₁) (h' : Runs m s a' s₂) : a' = a ∧ s₂ = s₁ := by
  obtain ⟨l, hm⟩ := h
  obtain ⟨l', hm'⟩ := h'
  obtain ⟨rfl, rfl, -⟩ := Outcome.ok.inj (hm.symm.trans hm')
  exact ⟨rfl, rfl⟩

end Runs

end Effect

end Percolator
