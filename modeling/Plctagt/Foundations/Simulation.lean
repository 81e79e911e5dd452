import Mathlib.Logic.Basic
import Mathlib.Data.List.Basic

/-! # A component beside its specification

A component answers calls one after another. Its specification relates a state, a call and an answer
to the states there may be next. When each call that the caller is allowed to make is answered as the
specification says, so is every sequence of them.
-/
namespace Plctagt.Simulation
set_option autoImplicit false

section Run
variable {σ α ρ : Type} (step : σ → α → ρ × σ)

def run : σ → List α → List ρ × σ
  | s, [] => ([], s)
  | s, a :: as => ((step s a).1 :: (run (step s a).2 as).1, (run (step s a).2 as).2)

/-- `C` holds of each call and the state in which it is made. -/
def Allowed (C : σ → α → Prop) : σ → List α → Prop
  | _, [] => True
  | s, a :: as => C s a ∧ Allowed C (step s a).2 as

theorem run_append (s : σ) (as bs : List α) :
    (run step s (as ++ bs)).2 = (run step (run step s as).2 bs).2 := by
  induction as generalizing s with
  | nil => rfl
  | cons a as ih => exact ih _

theorem allowed_of_forall {C : σ → α → Prop} (h : ∀ s a, C s a) (s : σ) (as : List α) :
    Allowed step C s as := by
  induction as generalizing s with
  | nil => trivial
  | cons a as ih => exact ⟨h s a, ih _⟩

end Run

section Refinement
variable {σ τ α ρ : Type}

/-- The specification explains the answers. -/
inductive Explains (spec : τ → α → ρ → τ → Prop) : τ → List α → List ρ → τ → Prop
  | nil (t : τ) : Explains spec t [] [] t
  | cons {t t' t'' : τ} {a : α} {r : ρ} {as : List α} {rs : List ρ} (hstep : spec t a r t')
      (hrest : Explains spec t' as rs t'') : Explains spec t (a :: as) (r :: rs) t''

theorem refines {step : σ → α → ρ × σ} {spec : τ → α → ρ → τ → Prop} {R : σ → τ → Prop}
    {C : σ → α → Prop}
    (hstep : ∀ s t a, R s t → C s a → ∃ t', spec t a (step s a).1 t' ∧ R (step s a).2 t')
    {s : σ} {t : τ} (h : R s t) {as : List α} (hallowed : Allowed step C s as) :
    ∃ t', Explains spec t as (run step s as).1 t' ∧ R (run step s as).2 t' := by
  induction as generalizing s t with
  | nil => exact ⟨t, .nil t, h⟩
  | cons a as ih =>
    obtain ⟨t₁, hspec, h₁⟩ := hstep s t a h hallowed.1
    obtain ⟨t₂, hrest, h₂⟩ := ih h₁ hallowed.2
    exact ⟨t₂, .cons hspec hrest, h₂⟩

end Refinement
end Plctagt.Simulation
