import Mathlib.Data.List.Basic
import Mathlib.Logic.Basic

/-! # A sequence written piece by piece

Pieces are written one after another, and a reader takes one piece off the front. When it gets back
every piece that was written, whatever follows, it gets back the sequence.
-/
namespace Plctagt.Codec
set_option autoImplicit false

variable {α β : Type}

/-- The reader gets `a` back, and what follows. -/
def Reads (enc : α → List β) (dec : List β → Option (α × List β)) (a : α) : Prop :=
  enc a ≠ [] ∧ ∀ rest, dec (enc a ++ rest) = some (a, rest)

/-- The pieces on the list, `n` of them at most. -/
def readAll (dec : List β → Option (α × List β)) : ℕ → List β → Option (List α)
  | _, [] => some []
  | 0, _ :: _ => none
  | n + 1, b :: bs => (dec (b :: bs)).bind fun r => (readAll dec n r.2).map (r.1 :: ·)

theorem readAll_flatMap {enc : α → List β} {dec : List β → Option (α × List β)} {as : List α}
    (h : ∀ a ∈ as, Reads enc dec a) {n : ℕ} (hn : as.length ≤ n) :
    readAll dec n (as.flatMap enc) = some as := by
  induction as generalizing n with
  | nil => cases n <;> rfl
  | cons a as ih =>
    obtain ⟨n, rfl⟩ := Nat.exists_eq_succ_of_ne_zero (Nat.ne_zero_of_lt (Nat.lt_of_succ_le hn))
    obtain ⟨hne, hread⟩ := h a List.mem_cons_self
    obtain ⟨b, bs, hb⟩ := List.exists_cons_of_ne_nil hne
    have hdec := hread (as.flatMap enc)
    have hrest := ih (fun a' ha => h a' (List.mem_cons_of_mem a ha)) (Nat.le_of_succ_le_succ hn)
    rw [List.flatMap_cons]
    rw [hb, List.cons_append] at hdec ⊢
    rw [readAll, hdec, Option.bind_some, hrest]
    rfl

theorem length_le_flatMap {enc : α → List β} {as : List α} (h : ∀ a ∈ as, enc a ≠ []) :
    as.length ≤ (as.flatMap enc).length := by
  induction as with
  | nil => exact Nat.le_refl 0
  | cons a as ih =>
    have hpos := List.length_pos_of_ne_nil (h a List.mem_cons_self)
    have hrest := ih fun a' ha => h a' (List.mem_cons_of_mem a ha)
    rw [List.flatMap_cons, List.length_append, List.length_cons]
    omega

/-- Room for as many pieces as there are elements is enough. -/
theorem readAll_eq_some {enc : α → List β} {dec : List β → Option (α × List β)} {as : List α}
    (h : ∀ a ∈ as, Reads enc dec a) :
    readAll dec (as.flatMap enc).length (as.flatMap enc) = some as :=
  readAll_flatMap h (length_le_flatMap fun a ha => (h a ha).1)

end Plctagt.Codec
