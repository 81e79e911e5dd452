import Mathlib

/-! # A window over a list

A `Window` shows `height` of `total` rows, from `top` on. It never begins so late that rows under the
last one would be shown while others are hidden above; that is a field, so no operation leads out
of it. Paging goes on by a whole window and wraps round at the ends. From any window, paging in one
direction alone comes by every row (`next_covers`, `prev_covers`).
-/
namespace Plctagt.Paging
set_option autoImplicit false

@[ext] structure Window where
  total : ℕ
  height : ℕ
  top : ℕ
  le : top ≤ total - height

/-! ## Iterating -/

/-- A measure that falls until `P` holds. -/
theorem exists_iterate {α : Type} {f : α → α} (P Q : α → Prop) (μ : α → ℕ)
    (hstep : ∀ a, Q a → ¬P a → P (f a) ∨ Q (f a) ∧ μ (f a) < μ a) {a : α} (h : Q a) :
    ∃ n, P (f^[n] a) := by
  induction hμ : μ a using Nat.strong_induction_on generalizing a with
  | _ m ih =>
    by_cases hP : P a
    · exact ⟨0, hP⟩
    · rcases hstep a h hP with hP | ⟨hQ, hlt⟩
      · exact ⟨1, hP⟩
      · obtain ⟨n, hn⟩ := ih _ (hμ ▸ hlt) hQ rfl
        exact ⟨n + 1, hn⟩

/-- What each of finitely many indices comes to is within one number of steps. -/
theorem exists_bound {P : ℕ → ℕ → Prop} (total : ℕ) (h : ∀ i < total, ∃ n, P n i) :
    ∃ N, ∀ i < total, ∃ n ≤ N, P n i := by
  induction total with
  | zero => exact ⟨0, fun i hi => absurd hi (Nat.not_lt_zero i)⟩
  | succ total ih =>
    obtain ⟨N, hN⟩ := ih fun i hi => h i (Nat.lt_succ_of_lt hi)
    obtain ⟨m, hm⟩ := h total (Nat.lt_succ_self total)
    refine ⟨max N m, fun i hi => ?_⟩
    rcases Nat.lt_succ_iff_lt_or_eq.mp hi with hi | rfl
    · obtain ⟨n, hn, hP⟩ := hN i hi
      exact ⟨n, hn.trans (le_max_left N m), hP⟩
    · exact ⟨m, le_max_right N m, hm⟩

namespace Window
variable (w : Window)

def Shows (i : ℕ) : Prop := w.top ≤ i ∧ i < w.top + w.height

/-! ## Paging -/

def next : Window :=
  if w.total - w.height ≤ w.top then { w with top := 0, le := Nat.zero_le _ }
  else { w with top := min (w.top + w.height) (w.total - w.height), le := min_le_right _ _ }

def prev : Window :=
  if w.top = 0 then { w with top := w.total - w.height, le := le_refl _ }
  else { w with top := w.top - w.height, le := (Nat.sub_le _ _).trans w.le }

@[simp] theorem total_next : w.next.total = w.total := by
  unfold next
  split <;> rfl

@[simp] theorem height_next : w.next.height = w.height := by
  unfold next
  split <;> rfl

theorem top_next : w.next.top = if w.total - w.height ≤ w.top then 0
    else min (w.top + w.height) (w.total - w.height) := by
  unfold next
  split <;> rfl

@[simp] theorem total_prev : w.prev.total = w.total := by
  unfold prev
  split <;> rfl

@[simp] theorem height_prev : w.prev.height = w.height := by
  unfold prev
  split <;> rfl

theorem top_prev : w.prev.top = if w.top = 0 then w.total - w.height else w.top - w.height := by
  unfold prev
  split <;> rfl

/-! ## Coverage -/

/-- There is something to show, and it has the row. -/
structure Has (w : Window) (i : ℕ) : Prop where
  height : 0 < w.height
  total : i < w.total

variable {w} {i : ℕ}

theorem Has.next (h : w.Has i) : w.next.Has i :=
  ⟨by simpa using h.height, by simpa using h.total⟩

theorem Has.prev (h : w.Has i) : w.prev.Has i :=
  ⟨by simpa using h.height, by simpa using h.total⟩

/-- A window that begins at or before the row pages on to it. -/
theorem next_sweeps (h : w.Has i) (htop : w.top ≤ i) : ∃ n, (Window.next^[n] w).Shows i := by
  refine exists_iterate (fun w : Window => w.Shows i) (fun w => w.Has i ∧ w.top ≤ i)
    (fun w => w.total - w.top) (fun w h hs => .inr ?_) ⟨h, htop⟩
  obtain ⟨h, htop⟩ := h
  have hpast : w.top + w.height ≤ i := not_lt.mp fun hlt => hs ⟨htop, hlt⟩
  have hh := h.height
  have hi := h.total
  refine ⟨⟨h.next, ?_⟩, ?_⟩
  · rw [top_next, if_neg (by omega)]
    omega
  · rw [total_next, top_next, if_neg (by omega)]
    omega

/-- A window that ends behind the row pages back to it. -/
theorem prev_sweeps (h : w.Has i) (hend : i < w.top + w.height) :
    ∃ n, (Window.prev^[n] w).Shows i := by
  refine exists_iterate (fun w : Window => w.Shows i) (fun w => w.Has i ∧ i < w.top + w.height)
    (fun w => w.top) (fun w h hs => .inr ?_) ⟨h, hend⟩
  obtain ⟨h, hend⟩ := h
  have hpast : i < w.top := not_le.mp fun hle => hs ⟨hle, hend⟩
  have hh := h.height
  refine ⟨⟨h.prev, ?_⟩, ?_⟩
  · rw [height_prev, top_prev, if_neg (by omega)]
    omega
  · rw [top_prev, if_neg (by omega)]
    omega

theorem next_covers (h : w.Has i) : ∃ n, (Window.next^[n] w).Shows i := by
  have hwrap : ∃ n, (Window.next^[n] w).Has i ∧ (Window.next^[n] w).top ≤ i := by
    refine exists_iterate (fun w : Window => w.Has i ∧ w.top ≤ i) (fun w => w.Has i)
      (fun w => w.total - w.top) (fun w h hlate => ?_) h
    have hlate : i < w.top := not_le.mp fun hle => hlate ⟨h, hle⟩
    have hh := h.height
    have hle := w.le
    by_cases hlast : w.total - w.height ≤ w.top
    · refine .inl ⟨h.next, ?_⟩
      rw [top_next, if_pos hlast]
      exact Nat.zero_le i
    · refine .inr ⟨h.next, ?_⟩
      rw [total_next, top_next, if_neg hlast]
      omega
  obtain ⟨n, hn, htop⟩ := hwrap
  obtain ⟨m, hm⟩ := next_sweeps hn htop
  exact ⟨m + n, by rwa [Function.iterate_add_apply]⟩

theorem prev_covers (h : w.Has i) : ∃ n, (Window.prev^[n] w).Shows i := by
  have hwrap : ∃ n, (Window.prev^[n] w).Has i ∧
      i < (Window.prev^[n] w).top + (Window.prev^[n] w).height := by
    refine exists_iterate (fun w : Window => w.Has i ∧ i < w.top + w.height) (fun w => w.Has i)
      (fun w => w.top) (fun w h hearly => ?_) h
    have hearly : w.top + w.height ≤ i := not_lt.mp fun hlt => hearly ⟨h, hlt⟩
    have hh := h.height
    have hi := h.total
    by_cases hfirst : w.top = 0
    · refine .inl ⟨h.prev, ?_⟩
      rw [height_prev, top_prev, if_pos hfirst]
      omega
    · refine .inr ⟨h.prev, ?_⟩
      rw [top_prev, if_neg hfirst]
      omega
  obtain ⟨n, hn, hend⟩ := hwrap
  obtain ⟨m, hm⟩ := prev_sweeps hn hend
  exact ⟨m + n, by rwa [Function.iterate_add_apply]⟩

end Window

end Plctagt.Paging
