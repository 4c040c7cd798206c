import Percolator.Base.Effect

/-!
Effects that do not see a change of their state.

An effect is oblivious to a change `φ` of the state when it goes the same way before and after
it: the same value or fault, the same events, and the final states apart by `φ` again. A read is
oblivious where what follows it looks only at what `φ` keeps, and an update where it commutes
with `φ`; two runs of an oblivious effect are one run seen twice.
-/

namespace Percolator

/-- The outcome with its state changed. -/
def Outcome.map {ε ω σ α : Type} (φ : σ → σ) : Outcome ε ω σ α → Outcome ε ω σ α
  | .ok a s l => .ok a (φ s) l
  | .fault e s => .fault e (φ s)

namespace Effect

variable {ε ε' ω σ α β : Type} {φ : σ → σ} {m : Effect ε ω σ α} {f : α → Effect ε ω σ β} {s s' t' : σ} {a b : α}
  {l l' : List ω}

/-- The effect does not see the change `φ` of its state. -/
def Oblivious (φ : σ → σ) (m : Effect ε ω σ α) : Prop := ∀ s, m (φ s) = (m s).map φ

/-- The run of an oblivious effect from the changed state. -/
theorem Oblivious.ok (h : Oblivious φ m) (hok : m s = .ok a s' l) : m (φ s) = .ok a (φ s') l := by
  rw [h s, hok]
  rfl

/-- Two runs of an oblivious effect agree. -/
theorem Oblivious.agree (h : Oblivious φ m) (hok : m s = .ok a s' l) (hok' : m (φ s) = .ok b t' l') :
    b = a ∧ t' = φ s' ∧ l' = l := by
  obtain ⟨rfl, rfl, rfl⟩ := Outcome.ok.inj ((h.ok hok).symm.trans hok')
  exact ⟨rfl, rfl, rfl⟩

theorem Oblivious.pure (a : α) : Oblivious φ (pure a : Effect ε ω σ α) := fun _ => rfl

theorem Oblivious.fail (e : ε) : Oblivious φ (fail e : Effect ε ω σ α) := fun _ => rfl

theorem Oblivious.emit (w : ω) : Oblivious φ (emit w : Effect ε ω σ Unit) := fun _ => rfl

/-- An update that commutes with the change. -/
theorem Oblivious.update {g : σ → σ} (commutes : ∀ s, g (φ s) = φ (g s)) :
    Oblivious φ (update g : Effect ε ω σ Unit) := by
  intro s
  show Outcome.ok () (g (φ s)) [] = Outcome.ok () (φ (g s)) []
  rw [commutes]

theorem Oblivious.bind (first : Oblivious φ m) (rest : ∀ a, Oblivious φ (f a)) : Oblivious φ (m >>= f) := by
  intro s
  show seq m f (φ s) = (seq m f s).map φ
  unfold seq
  rw [first s]
  cases m s with
  | fault e s₁ => rfl
  | ok a s₁ l₁ =>
      dsimp only [Outcome.map]
      rw [rest a s₁]
      cases f a s₁ with
      | fault e s₂ => rfl
      | ok b s₂ l₂ => rfl

/-- A read whose continuation looks only at what the change keeps. -/
theorem Oblivious.read {f : σ → Effect ε ω σ β} (same : ∀ s, f (φ s) = f s) (rest : ∀ s, Oblivious φ (f s)) :
    Oblivious φ (read >>= f) := by
  intro s
  show seq Effect.read f (φ s) = (seq Effect.read f s).map φ
  unfold seq Effect.read
  dsimp only
  rw [same s, rest s s]
  cases f s s with
  | fault e s₂ => rfl
  | ok b s₂ l₂ => rfl

theorem Oblivious.ite {c : Prop} [Decidable c] {m m' : Effect ε ω σ α} (yes : Oblivious φ m) (no : Oblivious φ m') :
    Oblivious φ (if c then m else m') := by
  by_cases h : c
  · rw [if_pos h]
    exact yes
  · rw [if_neg h]
    exact no

theorem Oblivious.whenever {c : Prop} [Decidable c] {m : Effect ε ω σ Unit} (h : Oblivious φ m) :
    Oblivious φ (whenever c m) :=
  .ite h (.pure ())

theorem Oblivious.failIf {c : Prop} [Decidable c] {e : ε} : Oblivious φ (failIf c e : Effect ε ω σ Unit) :=
  .ite (.fail e) (.pure ())

theorem Oblivious.demand {o : Option α} {e : ε} : Oblivious φ (demand o e : Effect ε ω σ α) := by
  cases o with
  | none => exact .fail e
  | some a => exact .pure a

theorem Oblivious.mapFault {g : ε → ε'} (h : Oblivious φ m) : Oblivious φ (mapFault g m) := by
  intro s
  unfold Effect.mapFault
  rw [h s]
  cases m s with
  | ok a s₁ l => rfl
  | fault e s₁ => rfl

end Effect

end Percolator
