import Mathlib

/-! # Texts as lines

A text file is read line by line: up to the next separator, or to the end when there is none left.
It is written by putting a separator behind every line. What is read never contains the separator,
so a list of such lines is read back as it was written (`lines_unlines`), and any other text is
read as some list of lines.
-/
namespace Plctagt.Lines
set_option autoImplicit false

variable {α : Type} [DecidableEq α] {sep : α} {l : List α}

/-! ## The first separator -/

theorem takeWhile_append_sep (h : sep ∉ l) (s : List α) :
    (l ++ sep :: s).takeWhile (· ≠ sep) = l := by
  have hpos : ∀ a ∈ l, decide (a ≠ sep) = true :=
    fun a ha => decide_eq_true fun heq => h (heq ▸ ha)
  rw [List.takeWhile_append_of_pos hpos, List.takeWhile_cons_of_neg (by simp), List.append_nil]

theorem dropWhile_append_sep (h : sep ∉ l) (s : List α) :
    (l ++ sep :: s).dropWhile (· ≠ sep) = sep :: s := by
  have hpos : ∀ a ∈ l, decide (a ≠ sep) = true :=
    fun a ha => decide_eq_true fun heq => h (heq ▸ ha)
  rw [List.dropWhile_append_of_pos hpos, List.dropWhile_cons_of_neg (by simp)]

/-! ## Line by line -/

variable (sep)

/-- The lines a loop over `getline` reads. -/
def lines (s : List α) : List (List α) :=
  s.foldr (fun a ls => if a = sep then [] :: ls else (a :: ls.headD []) :: ls.tail) []

def unlines (ls : List (List α)) : List α := ls.flatMap fun l => l ++ [sep]

theorem lines_cons (a : α) (s : List α) :
    lines sep (a :: s) =
      if a = sep then [] :: lines sep s
      else (a :: (lines sep s).headD []) :: (lines sep s).tail := rfl

/-- One turn of the loop. -/
theorem lines_eq {s : List α} (h : s ≠ []) :
    lines sep s = s.takeWhile (· ≠ sep) :: lines sep (s.dropWhile (· ≠ sep)).tail := by
  induction s with
  | nil => exact absurd rfl h
  | cons a s ih =>
    rw [lines_cons]
    by_cases ha : a = sep
    · rw [if_pos ha, List.takeWhile_cons_of_neg (by simpa using ha),
        List.dropWhile_cons_of_neg (by simpa using ha), List.tail_cons]
    · rw [if_neg ha, List.takeWhile_cons_of_pos (by simpa using ha),
        List.dropWhile_cons_of_pos (by simpa using ha)]
      cases s with
      | nil => rfl
      | cons b s =>
        rw [ih (List.cons_ne_nil b s)]
        rfl

theorem lines_append_sep (h : sep ∉ l) (s : List α) :
    lines sep (l ++ sep :: s) = l :: lines sep s := by
  have hne : l ++ sep :: s ≠ [] := List.append_ne_nil_of_right_ne_nil l (List.cons_ne_nil sep s)
  rw [lines_eq sep hne, takeWhile_append_sep h, dropWhile_append_sep h, List.tail_cons]

/-- What was written line by line is read back. -/
theorem lines_unlines (ls : List (List α)) (h : ∀ l ∈ ls, sep ∉ l) :
    lines sep (unlines sep ls) = ls := by
  induction ls with
  | nil => rfl
  | cons l ls ih =>
    obtain ⟨hl, hls⟩ := List.forall_mem_cons.mp h
    have hcons : unlines sep (l :: ls) = l ++ sep :: unlines sep ls := by
      rw [unlines, List.flatMap_cons, List.append_assoc]
      rfl
    rw [hcons, lines_append_sep sep hl, ih hls]

theorem not_mem_of_mem_lines (s : List α) : ∀ l ∈ lines sep s, sep ∉ l := by
  induction hn : s.length using Nat.strong_induction_on generalizing s with
  | _ n ih =>
    by_cases hs : s = []
    · rw [hs]
      exact fun l h => absurd h List.not_mem_nil
    · have hlen : (s.dropWhile (· ≠ sep)).tail.length < n := by
        have hdrop := (List.dropWhile_suffix (fun a => decide (a ≠ sep)) (l := s)).length_le
        have hpos := List.length_pos_iff.mpr hs
        rw [List.length_tail]
        omega
      rw [lines_eq sep hs]
      intro l h
      rcases List.mem_cons.mp h with rfl | h
      · exact fun hmem => by simpa using List.mem_takeWhile_imp hmem
      · exact ih _ hlen _ rfl l h

/-! ## Splitting at every separator -/

theorem not_mem_of_mem_splitOn {a : α} {s : List α} : ∀ l ∈ s.splitOn a, a ∉ l := by
  induction s with
  | nil =>
    intro l hl
    rw [List.splitOn_nil] at hl
    rw [List.mem_singleton.mp hl]
    exact List.not_mem_nil
  | cons b s ih =>
    rw [List.splitOn_cons_eq_if_modifyHead]
    split
    · intro l hl
      rcases List.mem_cons.mp hl with rfl | hl
      · exact List.not_mem_nil
      · exact ih l hl
    · next hne =>
      have hb : a ≠ b := fun h => hne (beq_iff_eq.mpr h.symm)
      cases hs : s.splitOn a with
      | nil => exact fun l hl => absurd hl List.not_mem_nil
      | cons t ts =>
        rw [hs] at ih
        intro l hl
        rcases List.mem_cons.mp hl with rfl | hl
        · exact List.not_mem_cons_of_ne_of_not_mem hb (ih t List.mem_cons_self)
        · exact ih l (List.mem_cons_of_mem t hl)

end Plctagt.Lines
