import Mathlib.Data.List.Basic

/-! # What comes first in a list

`Before a b l`: no `b` stands in `l` ahead of the first `a`. It is kept by appending what comes later,
and by leaving elements out as long as `a` is not left out for `b`.
-/
namespace Plctagt.Precedence
set_option autoImplicit false

variable {α : Type} {a b : α}

def Before (a b : α) : List α → Prop
  | [] => True
  | x :: l => x = a ∨ x ≠ b ∧ Before a b l

theorem before_of_not_mem {l : List α} (h : b ∉ l) : Before a b l := by
  induction l with
  | nil => trivial
  | cons x l ih =>
    exact .inr ⟨fun hx => h (hx ▸ List.mem_cons_self), ih fun hl => h (List.mem_cons_of_mem x hl)⟩

theorem Before.append {l l' : List α} (h : Before a b l) (h' : a ∈ l ∨ Before a b l') :
    Before a b (l ++ l') := by
  induction l with
  | nil => exact h'.resolve_left List.not_mem_nil
  | cons x l ih =>
    rcases h with rfl | ⟨hx, hl⟩
    · exact .inl rfl
    · by_cases hxa : x = a
      · exact .inl hxa
      · exact .inr ⟨hx, ih hl (h'.imp_left fun hmem =>
          (List.mem_cons.mp hmem).resolve_left (Ne.symm hxa))⟩

theorem Before.filter {l : List α} (h : Before a b l) {p : α → Bool} (hp : p b = true → p a = true) :
    Before a b (l.filter p) := by
  induction l with
  | nil => trivial
  | cons x l ih =>
    rcases h with rfl | ⟨hx, hl⟩
    · by_cases hpx : p x = true
      · rw [List.filter_cons_of_pos hpx]
        exact .inl rfl
      · exact before_of_not_mem fun hmem => hpx (hp (List.mem_filter.mp hmem).2)
    · by_cases hpx : p x = true
      · rw [List.filter_cons_of_pos hpx]
        exact .inr ⟨hx, ih hl⟩
      · rw [List.filter_cons_of_neg hpx]
        exact ih hl

end Plctagt.Precedence
