import Mathlib.Data.List.Basic
import Mathlib.Logic.Function.Iterate
import Mathlib.Data.Nat.Basic

/-! # A sequence moved in pieces

A piece that is put into a buffer takes the place of what was there and leaves the rest. Pieces put one
behind the other are their sequence put at once, and a transfer that gets on in every turn ends.
-/
namespace Plctagt.Pieces
set_option autoImplicit false

variable {α : Type}

/-- `piece` in place of what `buf` has from `k` on, and beyond its end when it is too long. -/
def put (buf : List α) (k : ℕ) (piece : List α) : List α :=
  buf.take k ++ (piece ++ buf.drop (k + piece.length))

theorem length_put {buf piece : List α} {k : ℕ} (h : k + piece.length ≤ buf.length) :
    (put buf k piece).length = buf.length := by
  simp only [put, List.length_append, List.length_take, List.length_drop]
  omega

theorem put_nil (buf : List α) (k : ℕ) : put buf k [] = buf := by
  rw [put, List.nil_append, List.length_nil, Nat.add_zero, List.take_append_drop]

/-- A piece behind another one. -/
theorem put_append {buf : List α} {k : ℕ} (h : k ≤ buf.length) (a b : List α) :
    put (put buf k a) (k + a.length) b = put buf k (a ++ b) := by
  have hk : (buf.take k).length = k := List.length_take_of_le h
  have hfront : (buf.take k ++ a).length = k + a.length := by rw [List.length_append, hk]
  have hput : put buf k a = (buf.take k ++ a) ++ buf.drop (k + a.length) := by
    rw [put, List.append_assoc]
  rw [put, hput, List.take_left' hfront, ← List.drop_drop, List.drop_left' hfront, List.drop_drop, put,
    List.length_append, ← Nat.add_assoc, List.append_assoc, List.append_assoc]

/-- A piece of what was put. -/
theorem put_put {buf m c : List α} {a j : ℕ} (ha : a ≤ buf.length) (hj : j + c.length ≤ m.length) :
    put (put buf a m) (a + j) c = put buf a (put m j c) := by
  have hfront : (buf.take a).length = a := List.length_take_of_le ha
  have hlen : (put m j c).length = m.length := length_put hj
  have htake : (put buf a m).take (a + j) = buf.take a ++ m.take j := by
    rw [put, List.take_append, List.take_of_length_le (by omega), hfront, Nat.add_sub_cancel_left,
      List.take_append_of_le_length (by omega)]
  have hdrop : (put buf a m).drop (a + j + c.length) =
      m.drop (j + c.length) ++ buf.drop (a + m.length) := by
    rw [put, Nat.add_assoc, ← List.drop_drop, List.drop_left' hfront, List.drop_append_of_le_length hj]
  rw [put, htake, hdrop, put, hlen, put]
  simp only [List.append_assoc]

/-- Room that is added first makes no difference. -/
theorem put_extend {buf piece extra : List α} {k : ℕ} (h : k ≤ buf.length)
    (hlen : buf.length + extra.length = k + piece.length) :
    put (buf ++ extra) k piece = put buf k piece := by
  rw [put, put, List.take_append_of_le_length h, List.drop_eq_nil_of_le, List.drop_eq_nil_of_le]
  · omega
  · rw [List.length_append]
    omega

/-- Every place of the buffer behind a piece that fits. -/
theorem getElem?_put {buf piece : List α} {k : ℕ} (h : k + piece.length ≤ buf.length) (i : ℕ) :
    (put buf k piece)[i]? = if k ≤ i ∧ i < k + piece.length then piece[i - k]? else buf[i]? := by
  have hfront : (buf.take k).length = k := List.length_take_of_le (by omega)
  rw [put, List.getElem?_append, hfront]
  by_cases hlow : i < k
  · rw [if_pos hlow, if_neg (by omega), List.getElem?_take_of_lt hlow]
  · rw [if_neg hlow, List.getElem?_append]
    by_cases hhigh : i < k + piece.length
    · rw [if_pos (by omega), if_pos (by omega)]
    · rw [if_neg (by omega), if_neg (by omega), List.getElem?_drop]
      congr 1
      omega

theorem take_append_take_drop (l : List α) (k n : ℕ) :
    l.take k ++ (l.drop k).take n = l.take (k + n) := List.take_add.symm

section Turns
variable {σ : Type} {turn : σ → σ} {I : ℕ → σ → Prop} {len : ℕ}

/-- A transfer of `len` things that moves some in each turn, and never too many, has moved them all after
`len` turns or fewer. -/
theorem completes (hturn : ∀ k s, k < len → I k s → ∃ n > 0, k + n ≤ len ∧ I (k + n) (turn s)) {k : ℕ}
    {s : σ} (hk : k ≤ len) (h : I k s) : ∃ n ≤ len - k, I len (turn^[n] s) := by
  induction hleft : len - k using Nat.strong_induction_on generalizing k s with
  | _ left ih =>
    by_cases hend : k = len
    · exact ⟨0, Nat.zero_le _, hend ▸ h⟩
    · obtain ⟨n, hpos, hle, hnext⟩ := hturn k s (by omega) h
      obtain ⟨m, hm, hdone⟩ := ih (len - (k + n)) (by omega) hle hnext rfl
      exact ⟨m + 1, by omega, by rw [Function.iterate_succ_apply]; exact hdone⟩

end Turns

end Plctagt.Pieces
