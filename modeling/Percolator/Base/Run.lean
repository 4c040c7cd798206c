import Mathlib.Algebra.BigOperators.Group.List.Basic
import Mathlib.Algebra.Order.Monoid.Defs

/-!
Runs: the reflexive transitive closure of a relation whose steps carry events.
-/

namespace Percolator

variable {σ ω : Type}

/-- `Run step s l s'`: steps lead from `s` to `s'` with the events `l`. -/
inductive Run (step : σ → List ω → σ → Prop) : σ → List ω → σ → Prop
  | refl (s : σ) : Run step s [] s
  | tail {s s₁ s₂ : σ} {l l₁ : List ω} (run : Run step s l s₁) (last : step s₁ l₁ s₂) :
      Run step s (l ++ l₁) s₂

namespace Run

variable {step step' : σ → List ω → σ → Prop} {s s₁ s₂ : σ} {l l₁ : List ω}

theorem single (h : step s l s₁) : Run step s l s₁ := (refl s).tail h

theorem trans (h : Run step s l s₁) (h' : Run step s₁ l₁ s₂) : Run step s (l ++ l₁) s₂ := by
  induction h' with
  | refl => rwa [List.append_nil]
  | tail _ last ih => rw [← List.append_assoc]; exact ih.tail last

theorem mono (h : Run step s l s₁) (hstep : ∀ s l s', step s l s' → step' s l s') :
    Run step' s l s₁ := by
  induction h with
  | refl => exact refl _
  | tail _ last ih => exact ih.tail (hstep _ _ _ last)

/-- What every step keeps, every run keeps. -/
theorem invariant {I : σ → Prop} (h : Run step s l s₁) (keep : ∀ s l s', I s → step s l s' → I s')
    (hI : I s) : I s₁ := by
  induction h with
  | refl => exact hI
  | tail _ last ih => exact keep _ _ _ ih last

/-- What every step keeps of a history and its state, every run keeps. -/
theorem history {I : List ω → σ → Prop} (h : Run step s l s₁)
    (keep : ∀ past s l s', I past s → step s l s' → I (past ++ l) s') (hI : I [] s) : I l s₁ := by
  induction h with
  | refl => exact hI
  | tail _ last ih => exact keep _ _ _ _ ih last

/-- A measure that a step raises by at most the weight of its events is raised by
a run by at most the weight of all of them. -/
theorem growth {M : Type} [AddCommMonoid M] [PartialOrder M] [IsOrderedAddMonoid M] {I : σ → Prop}
    {f : σ → M} {w : ω → M} (h : Run step s l s₁) (keep : ∀ s l s', I s → step s l s' → I s')
    (grow : ∀ s l s', I s → step s l s' → f s' ≤ f s + (l.map w).sum) (hI : I s) :
    f s₁ ≤ f s + (l.map w).sum := by
  induction h with
  | refl => simp
  | tail run last ih =>
      rw [List.map_append, List.sum_append, ← add_assoc]
      exact (grow _ _ _ (run.invariant keep hI) last).trans (by gcongr)

/-- What holds before a step where it holds after it, holds before a run where it holds after it. -/
theorem before {P : σ → Prop} (h : Run step s l s₁) (back : ∀ s l s', step s l s' → P s' → P s) (hP : P s₁) : P s := by
  induction h with
  | refl => exact hP
  | tail _ last ih => exact ih (back _ _ _ last hP)

/-- A run whose events all have a property is a run of steps whose events have it. -/
theorem restrict {P : ω → Prop} (h : Run step s l s₁) (all : ∀ x ∈ l, P x) :
    Run (fun s l s' => step s l s' ∧ ∀ x ∈ l, P x) s l s₁ := by
  induction h with
  | refl => exact refl _
  | tail _ last ih =>
      rw [List.forall_mem_append] at all
      exact (ih all.1).tail ⟨last, all.2⟩

/-- A view `f` of the state that every step to `P` moves by its events is so moved by a run to `P`. -/
theorem simulates {τ : Type} {I P : σ → Prop} {f : σ → τ} {g : τ → List ω → τ}
    (h : Run step s l s₁) (nil : ∀ t, g t [] = t) (append : ∀ t l l', g t (l ++ l') = g (g t l) l')
    (keep : ∀ s l s', I s → step s l s' → I s') (back : ∀ s l s', I s → step s l s' → P s' → P s)
    (moves : ∀ s l s', I s → P s' → step s l s' → f s' = g (f s) l) (hI : I s) (hP : P s₁) :
    f s₁ = g (f s) l := by
  induction h with
  | refl => exact (nil _).symm
  | tail run last ih =>
      have good := run.invariant keep hI
      rw [moves _ _ _ good hP last, ih (back _ _ _ good last hP), append]

end Run

end Percolator
