import Mathlib

/-! # A line editor

A line with a cursor is two lists: what is before the cursor, with the nearest first, and what is
behind it. Every key works on the ends that meet at the cursor, and a line that has reached its limit
takes no further character. On the text as one list the keys are the familiar ones, insertion and
removal at a position (`text_key_char` and after it); the position is never outside the text.
-/
namespace Plctagt.LineEditor
set_option autoImplicit false

variable {α : Type}

inductive Edit (α : Type)
  | char (a : α)
  | left | right | backspace | delete | clear
  deriving DecidableEq

@[ext] structure Line (α : Type) where
  before : List α
  after : List α
  deriving DecidableEq

namespace Line

def text (l : Line α) : List α := l.before.reverse ++ l.after

def cursor (l : Line α) : ℕ := l.before.length

/-- The line of a text, with the cursor at a position. -/
def put (s : List α) (i : ℕ) : Line α := ⟨(s.take i).reverse, s.drop i⟩

def key (limit : ℕ) (l : Line α) : Edit α → Line α
  | .char a => if l.text.length < limit then ⟨a :: l.before, l.after⟩ else l
  | .left => ⟨l.before.tail, l.before.head?.toList ++ l.after⟩
  | .right => ⟨l.after.head?.toList ++ l.before, l.after.tail⟩
  | .backspace => ⟨l.before.tail, l.after⟩
  | .delete => ⟨l.before, l.after.tail⟩
  | .clear => ⟨[], []⟩

/-! ## The text and the cursor -/

theorem text_put (s : List α) (i : ℕ) : (put s i).text = s := by
  rw [text, put, List.reverse_reverse, List.take_append_drop]

theorem cursor_put {s : List α} {i : ℕ} (h : i ≤ s.length) : (put s i).cursor = i := by
  rw [cursor, put, List.length_reverse, List.length_take, min_eq_left h]

theorem length_text (l : Line α) : l.text.length = l.cursor + l.after.length := by
  rw [text, List.length_append, List.length_reverse, cursor]

theorem cursor_le (l : Line α) : l.cursor ≤ l.text.length := by
  rw [length_text]
  exact Nat.le_add_right _ _

/-- Text and cursor are the whole line. -/
theorem put_text_cursor (l : Line α) : put l.text l.cursor = l := by
  have hlen : l.before.reverse.length = l.cursor := List.length_reverse
  rw [put, text, ← hlen, List.take_left, List.drop_left, List.reverse_reverse]

variable {limit : ℕ} {l : Line α}

theorem insertIdx_length (s t : List α) (a : α) :
    (s ++ t).insertIdx s.length a = s ++ a :: t := by
  induction s with
  | nil => rfl
  | cons b s ih => exact congrArg (List.cons b) ih

theorem text_key_char (h : l.text.length < limit) (a : α) :
    (l.key limit (.char a)).text = l.text.insertIdx l.cursor a := by
  have hlen : l.before.reverse.length = l.cursor := List.length_reverse
  rw [key, if_pos h, text, text, List.reverse_cons, List.append_assoc, ← hlen, insertIdx_length]
  rfl

theorem cursor_key_char (h : l.text.length < limit) (a : α) :
    (l.key limit (.char a)).cursor = l.cursor + 1 := by
  rw [key, if_pos h]
  rfl

theorem key_char_full (h : limit ≤ l.text.length) (a : α) : l.key limit (.char a) = l :=
  if_neg (not_lt.mpr h)

theorem text_key_left : (l.key limit .left).text = l.text := by
  obtain ⟨before, after⟩ := l
  cases before with
  | nil => rfl
  | cons b before =>
    show before.reverse ++ (b :: after) = (b :: before).reverse ++ after
    rw [List.reverse_cons, List.append_assoc]
    rfl

theorem cursor_key_left : (l.key limit .left).cursor = l.cursor - 1 := List.length_tail

theorem text_key_right : (l.key limit .right).text = l.text := by
  obtain ⟨before, after⟩ := l
  cases after with
  | nil => rfl
  | cons a after =>
    show (a :: before).reverse ++ after = before.reverse ++ (a :: after)
    rw [List.reverse_cons, List.append_assoc]
    rfl

theorem cursor_key_right : (l.key limit .right).cursor = min (l.cursor + 1) l.text.length := by
  rw [length_text]
  obtain ⟨before, after⟩ := l
  cases after with
  | nil => exact (min_eq_right (Nat.le_succ _)).symm
  | cons a after =>
    show before.length + 1 = min (before.length + 1) (before.length + (after.length + 1))
    omega

theorem text_key_backspace (h : 0 < l.cursor) :
    (l.key limit .backspace).text = l.text.eraseIdx (l.cursor - 1) := by
  obtain ⟨before, after⟩ := l
  cases before with
  | nil => exact absurd h (lt_irrefl 0)
  | cons b before =>
    have hlen : before.reverse.length = before.length := List.length_reverse
    show before.reverse ++ after = ((b :: before).reverse ++ after).eraseIdx before.length
    rw [List.reverse_cons, List.append_assoc, List.eraseIdx_append_of_length_le hlen.le, hlen,
      Nat.sub_self]
    rfl

theorem cursor_key_backspace : (l.key limit .backspace).cursor = l.cursor - 1 := List.length_tail

theorem key_backspace_zero (h : l.cursor = 0) : l.key limit .backspace = l := by
  obtain ⟨before, after⟩ := l
  obtain rfl := List.length_eq_zero_iff.mp h
  rfl

theorem text_key_delete : (l.key limit .delete).text = l.text.eraseIdx l.cursor := by
  have hlen : l.before.reverse.length = l.cursor := List.length_reverse
  rw [text, text, List.eraseIdx_append_of_length_le hlen.le, hlen, Nat.sub_self]
  obtain ⟨before, after⟩ := l
  cases after with
  | nil => rfl
  | cons a after => rfl

theorem cursor_key_delete : (l.key limit .delete).cursor = l.cursor := rfl

end Line

end Plctagt.LineEditor
