import Percolator.Base.Effect

/-!
Frames of effects.

A view of the state is kept by an effect when every run of it that ends normally leaves what the
view shows. What keeps a view is found by the structure of the effect: the classes are solved by
instances, one for each way to build an effect, and a program adds one for each of its functions.
-/

namespace Percolator

namespace Effect

universe u

variable {ε ε' ω σ α β : Type} {τ : Type u} {v : σ → τ} {m m' : Effect ε ω σ α} {f : α → Effect ε ω σ β} {s s' : σ} {a : α}
  {l l' : List ω}

/-- A change of the state that the view does not show. -/
class Spares (v : σ → τ) (g : σ → σ) : Prop where
  spared : ∀ s, v (g s) = v s

/-- The view shows the same after a run as before it. -/
class Keeps (v : σ → τ) (m : Effect ε ω σ α) : Prop where
  kept : ∀ {s a s' l}, m s = .ok a s' l → v s' = v s

/-- A view of a view is kept with it. -/
theorem Keeps.image {υ : Type} (w : τ → υ) (h : Keeps v m) : Keeps (w ∘ v) m :=
  ⟨fun ok => congrArg w (h.kept ok)⟩

/-- A call of an effect that keeps a view. -/
theorem Keeps.wp [h : Keeps v m] {Q : α → σ → List ω → Prop} (post : ∀ a s' l', v s' = v s → Q a s' l') :
    Effect.wp m Q (fun _ _ => True) s l :=
  wp_ok fun _ _ _ ok => post _ _ _ (h.kept ok)

instance (a : α) : Keeps v (pure a : Effect ε ω σ α) := by
  constructor
  rintro s b s' l ⟨⟩
  rfl

instance : Keeps v (read : Effect ε ω σ σ) := by
  constructor
  rintro s b s' l ⟨⟩
  rfl

instance (w : ω) : Keeps v (emit w : Effect ε ω σ Unit) := by
  constructor
  rintro s b s' l ⟨⟩
  rfl

instance (e : ε) : Keeps v (fail e : Effect ε ω σ α) := by
  constructor
  rintro s b s' l ⟨⟩

instance {g : σ → σ} [h : Spares v g] : Keeps v (update g : Effect ε ω σ Unit) := by
  constructor
  rintro s b s' l ⟨⟩
  exact h.spared s

/-- A sequence keeps what both of its parts keep. -/
theorem Keeps.bind (first : Keeps v m) (rest : ∀ a, Keeps v (f a)) : Keeps v (m >>= f) := by
  constructor
  intro s b s' l ok
  obtain ⟨a, s₁, l₁, l₂, ok₁, ok₂, -⟩ := bind_eq_ok.mp ok
  exact ((rest a).kept ok₂).trans (first.kept ok₁)

instance [first : Keeps v m] [rest : ∀ a, Keeps v (f a)] : Keeps v (m >>= f) := first.bind rest

instance {c : Prop} [Decidable c] [h : Keeps v m] [h' : Keeps v m'] : Keeps v (if c then m else m') := by
  by_cases holds : c
  · rw [if_pos holds]
    exact h
  · rw [if_neg holds]
    exact h'

instance {c : Prop} [Decidable c] {e : ε} : Keeps v (failIf c e : Effect ε ω σ Unit) := by
  unfold failIf
  infer_instance

instance {o : Option α} {e : ε} : Keeps v (demand o e : Effect ε ω σ α) := by
  cases o with
  | none => exact inferInstanceAs (Keeps v (fail e : Effect ε ω σ α))
  | some a => exact inferInstanceAs (Keeps v (pure a : Effect ε ω σ α))

instance {c : Prop} [Decidable c] {m : Effect ε ω σ Unit} [Keeps v m] : Keeps v (whenever c m) := by
  unfold whenever
  infer_instance

instance {g : ε → ε'} [h : Keeps v m] : Keeps v (mapFault g m) := by
  constructor
  intro s a s' l ok
  exact h.kept (mapFault_eq_ok.mp ok)

instance {f : α → Effect ε ω σ Unit} [h : ∀ a, Keeps v (f a)] (as : List α) : Keeps v (forEach f as) := by
  induction as with
  | nil => exact inferInstanceAs (Keeps v (pure () : Effect ε ω σ Unit))
  | cons a as ih => exact inferInstanceAs (Keeps v (f a >>= fun _ => forEach f as))

end Effect

end Percolator
