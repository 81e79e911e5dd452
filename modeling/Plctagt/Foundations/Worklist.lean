import Mathlib

/-! # A queue that grows while it is consumed

The next element of the queue is passed over when it has been seen; otherwise it is visited: it
counts as seen from then on, and those of its children that have not been seen are queued. The
queue may hold an element many times. A visit can also end the work.

From a fresh start, when the queue has been consumed without an end, what has been seen is exactly
what can be reached from the first elements (`mem_seen_iff`), each of it once (`Sound.nodup`).
-/
namespace Plctagt.Worklist
open Relation
set_option autoImplicit false

/-- What a visit brings: the children, and an end of the work, if it is one. -/
structure Visit (α ε : Type) where
  children : List α
  ending : Option ε

structure Work (α ε : Type) where
  queue : List α
  cursor : ℕ
  seen : List α
  ended : Option ε

def start {α ε : Type} (seeds : List α) : Work α ε := ⟨seeds, 0, [], none⟩

section Turn
variable {α ε : Type} [DecidableEq α] (visit : α → Visit α ε)

/-- The turn for the element `a` under the cursor. An element whose visit ends the work does not
count as seen. -/
def next (w : Work α ε) (a : α) : Work α ε :=
  if a ∈ w.seen then { w with cursor := w.cursor + 1 }
  else
    let queue := w.queue ++ (visit a).children.filter fun c => c ∉ w.seen ++ [a]
    match (visit a).ending with
    | none => { w with queue := queue, cursor := w.cursor + 1, seen := w.seen ++ [a] }
    | some e => { w with queue := queue, ended := some e }

theorem next_queue {w : Work α ε} {a : α} (h : a ∉ w.seen) :
    (next visit w a).queue = w.queue ++ (visit a).children.filter fun c => c ∉ w.seen ++ [a] := by
  rw [next, if_neg h]
  cases (visit a).ending <;> rfl

theorem next_ended {w : Work α ε} {a : α} (h : a ∉ w.seen) (hend : w.ended = none) :
    (next visit w a).ended = (visit a).ending := by
  rw [next, if_neg h]
  cases he : (visit a).ending with
  | none => exact hend
  | some e => rfl

theorem next_seen {w : Work α ε} {a : α} (h : a ∉ w.seen) (he : (visit a).ending = none) :
    (next visit w a).seen = w.seen ++ [a] := by
  rw [next, if_neg h]
  simp only [he]

theorem next_cursor {w : Work α ε} {a : α} (h : a ∉ w.seen) (he : (visit a).ending = none) :
    (next visit w a).cursor = w.cursor + 1 := by
  rw [next, if_neg h]
  simp only [he]

def Turn (w w' : Work α ε) : Prop :=
  w.ended = none ∧ ∃ a, w.queue[w.cursor]? = some a ∧ w' = next visit w a

abbrev Turns : Work α ε → Work α ε → Prop := ReflTransGen (Turn visit)

def Child (a b : α) : Prop := b ∈ (visit a).children

theorem turn_cases {w w' : Work α ε} (h : Turn visit w w') :
    ∃ a, w.queue[w.cursor]? = some a ∧ w.ended = none ∧
      ((a ∈ w.seen ∧ w' = { w with cursor := w.cursor + 1 }) ∨
        (a ∉ w.seen ∧ (visit a).ending = none ∧
          w' = { w with queue := w.queue ++ (visit a).children.filter fun c => c ∉ w.seen ++ [a]
                        cursor := w.cursor + 1
                        seen := w.seen ++ [a] }) ∨
        (a ∉ w.seen ∧ ∃ e, (visit a).ending = some e ∧
          w' = { w with queue := w.queue ++ (visit a).children.filter fun c => c ∉ w.seen ++ [a]
                        ended := some e })) := by
  obtain ⟨hend, a, ha, rfl⟩ := h
  refine ⟨a, ha, hend, ?_⟩
  unfold next
  by_cases hs : a ∈ w.seen
  · exact .inl ⟨hs, if_pos hs⟩
  · rw [if_neg hs]
    cases he : (visit a).ending with
    | none => exact .inr (.inl ⟨hs, rfl, rfl⟩)
    | some e => exact .inr (.inr ⟨hs, e, rfl, rfl⟩)

theorem turn_unique {w w₁ w₂ : Work α ε} (h₁ : Turn visit w w₁) (h₂ : Turn visit w w₂) :
    w₁ = w₂ := by
  obtain ⟨-, a, ha, rfl⟩ := h₁
  obtain ⟨-, b, hb, rfl⟩ := h₂
  obtain rfl : a = b := Option.some.inj (ha.symm.trans hb)
  rfl

/-- What the work has visited, the element whose visit ended it included. -/
def requested (w : Work α ε) : List α :=
  w.seen ++ if w.ended.isSome then (w.queue[w.cursor]?).toList else []

def Over (w : Work α ε) : Prop := w.ended.isSome ∨ w.queue.length ≤ w.cursor

instance decidableOver (w : Work α ε) : Decidable (Over w) := inferInstanceAs (Decidable (_ ∨ _))

omit [DecidableEq α] in
theorem over_iff (w : Work α ε) : Over w ↔ w.ended.isSome ∨ w.queue[w.cursor]? = none := by
  rw [Over, List.getElem?_eq_none_iff]

theorem not_turn_of_over {w w' : Work α ε} (h : Over w) : ¬ Turn visit w w' := by
  rintro ⟨hend, a, ha, -⟩
  rcases (over_iff w).mp h with h | h
  · rw [hend] at h
    exact Bool.false_ne_true h
  · rw [ha] at h
    exact Option.some_ne_none a h

theorem over_unique {w w₁ w₂ : Work α ε} (h₁ : Turns visit w w₁) (o₁ : Over w₁)
    (h₂ : Turns visit w w₂) (o₂ : Over w₂) : w₁ = w₂ := by
  induction h₁ using ReflTransGen.head_induction_on with
  | refl =>
    rcases ReflTransGen.cases_head h₂ with h | ⟨c, hc, -⟩
    · exact h
    · exact absurd hc (not_turn_of_over visit o₁)
  | head hac _ ih =>
    rcases ReflTransGen.cases_head h₂ with rfl | ⟨c, hc, hcw⟩
    · exact absurd hac (not_turn_of_over visit o₂)
    · rw [turn_unique visit hac hc] at ih
      exact ih hcw

theorem turns_of_over {w w₁ w₂ : Work α ε} (h₁ : Turns visit w w₁) (o₁ : Over w₁)
    (h₂ : Turns visit w w₂) : Turns visit w₂ w₁ := by
  induction h₂ with
  | refl => exact h₁
  | tail _ ht ih =>
    rcases ReflTransGen.cases_head ih with rfl | ⟨c, hc, hcw⟩
    · exact absurd ht (not_turn_of_over visit o₁)
    · rw [turn_unique visit ht hc]
      exact hcw

theorem queue_le_of_turns {w w' : Work α ε} (h : Turns visit w w') :
    w.queue.length ≤ w'.queue.length := by
  induction h with
  | refl => exact le_rfl
  | tail _ ht ih =>
    obtain ⟨a, -, -, ⟨-, rfl⟩ | ⟨-, -, rfl⟩ | ⟨-, e, -, rfl⟩⟩ := turn_cases visit ht
    · exact ih
    · exact ih.trans (by simp)
    · exact ih.trans (by simp)

/-- `n` turns, or fewer when the work is over before. -/
def advance : ℕ → Work α ε → Work α ε
  | 0, w => w
  | n + 1, w =>
    match w.ended, w.queue[w.cursor]? with
    | none, some a => advance n (next visit w a)
    | _, _ => w

theorem turns_advance (n : ℕ) (w : Work α ε) : Turns visit w (advance visit n w) := by
  induction n generalizing w with
  | zero => exact .refl
  | succ n ih =>
    rw [advance]
    split
    · next a hend ha => exact .head ⟨hend, a, ha, rfl⟩ (ih _)
    · exact .refl

theorem queue_le_of_over {n : ℕ} {w w' : Work α ε} (hover : Over (advance visit n w))
    (h : Turns visit w w') : w'.queue.length ≤ (advance visit n w).queue.length :=
  queue_le_of_turns visit (turns_of_over visit (turns_advance visit n w) hover h)

/-! ## What every run keeps -/

/-- The invariant of a run from `seeds`: seen and queued elements can be reached, nothing is seen
twice, consumed elements have been seen, and a seen element has its children seen or queued. -/
structure Sound (seeds : List α) (w : Work α ε) : Prop where
  reach : ∀ a ∈ w.queue, ∃ s ∈ seeds, ReflTransGen (Child visit) s a
  seenQueued : ∀ a ∈ w.seen, a ∈ w.queue
  nodup : w.seen.Nodup
  cursor_le : w.cursor ≤ w.queue.length
  consumed : ∀ i < w.cursor, ∀ a, w.queue[i]? = some a → a ∈ w.seen
  closed : ∀ a ∈ w.seen, ∀ b, Child visit a b → b ∈ w.queue
  seeded : ∀ a ∈ seeds, a ∈ w.queue
  visited : ∀ a ∈ w.seen, (visit a).ending = none

omit [DecidableEq α] in
theorem sound_start (seeds : List α) : Sound visit seeds (start seeds) where
  reach a ha := ⟨a, ha, .refl⟩
  seenQueued _ ha := absurd ha List.not_mem_nil
  nodup := List.nodup_nil
  cursor_le := Nat.zero_le _
  consumed i hi := absurd hi (Nat.not_lt_zero i)
  closed _ ha := absurd ha List.not_mem_nil
  seeded _ ha := ha
  visited _ ha := absurd ha List.not_mem_nil

omit [DecidableEq α] in
theorem reach_append {seeds : List α} {w : Work α ε} (h : Sound visit seeds w) {a : α}
    (ha : a ∈ w.queue) (p : α → Bool) :
    ∀ b ∈ w.queue ++ (visit a).children.filter p,
      ∃ s ∈ seeds, ReflTransGen (Child visit) s b := by
  intro b hb
  rcases List.mem_append.mp hb with hb | hb
  · exact h.reach b hb
  · obtain ⟨s, hs, hsa⟩ := h.reach a ha
    exact ⟨s, hs, hsa.tail (List.mem_of_mem_filter hb)⟩

theorem sound_turn {seeds : List α} {w w' : Work α ε} (h : Sound visit seeds w)
    (ht : Turn visit w w') : Sound visit seeds w' := by
  obtain ⟨a, ha, -, hcase⟩ := turn_cases visit ht
  have hlt : w.cursor < w.queue.length := (List.getElem?_eq_some_iff.mp ha).1
  have hmem : a ∈ w.queue := List.mem_of_getElem? ha
  have hqueued : ∀ b ∈ w.seen ++ [a], b ∈ w.queue :=
    List.forall_mem_append.mpr ⟨h.seenQueued, List.forall_mem_singleton.mpr hmem⟩
  rcases hcase with ⟨hs, rfl⟩ | ⟨hs, he, rfl⟩ | ⟨hs, e, he, rfl⟩
  · refine { h with cursor_le := hlt, consumed := ?_ }
    intro i hi b hb
    rcases Nat.lt_succ_iff_lt_or_eq.mp hi with hi | rfl
    · exact h.consumed i hi b hb
    · rw [ha] at hb
      exact Option.some.inj hb ▸ hs
  · refine
      { reach := reach_append visit h hmem _
        seenQueued := ?_
        nodup := ?_
        cursor_le := by simp only [List.length_append]; omega
        consumed := ?_
        closed := ?_
        seeded := fun b hb => List.mem_append_left _ (h.seeded b hb)
        visited := ?_ }
    · exact fun b hb => List.mem_append_left _ (hqueued b hb)
    · rw [List.nodup_append]
      refine ⟨h.nodup, List.nodup_singleton a, ?_⟩
      intro b hb c hc
      rw [List.mem_singleton.mp hc]
      rintro rfl
      exact hs hb
    · intro i hi b hb
      rcases Nat.lt_succ_iff_lt_or_eq.mp hi with hi | rfl
      · rw [List.getElem?_append_left (by omega)] at hb
        exact List.mem_append_left _ (h.consumed i hi b hb)
      · rw [List.getElem?_append_left hlt, ha] at hb
        exact List.mem_append_right _ (Option.some.inj hb ▸ List.mem_singleton_self a)
    · refine List.forall_mem_append.mpr
        ⟨fun b hb c hc => List.mem_append_left _ (h.closed b hb c hc),
          List.forall_mem_singleton.mpr fun c hc => ?_⟩
      -- a child of the new element is queued now unless it has been seen already
      by_cases hseen : c ∈ w.seen ++ [a]
      · exact List.mem_append_left _ (hqueued c hseen)
      · exact List.mem_append_right _ (List.mem_filter.mpr ⟨hc, decide_eq_true hseen⟩)
    · exact List.forall_mem_append.mpr ⟨h.visited, List.forall_mem_singleton.mpr he⟩
  · refine
      { h with
        reach := reach_append visit h hmem _
        seenQueued := fun b hb => List.mem_append_left _ (h.seenQueued b hb)
        cursor_le := by simp only [List.length_append]; omega
        consumed := ?_
        closed := fun b hb c hc => List.mem_append_left _ (h.closed b hb c hc)
        seeded := fun b hb => List.mem_append_left _ (h.seeded b hb) }
    intro i hi b hb
    have hi' : i < w.cursor := hi
    rw [List.getElem?_append_left (by omega)] at hb
    exact h.consumed i hi b hb

theorem sound_turns {seeds : List α} {w : Work α ε} (h : Turns visit (start seeds) w) :
    Sound visit seeds w := by
  induction h with
  | refl => exact sound_start visit seeds
  | tail _ ht ih => exact sound_turn visit ih ht

theorem ended_of_turns {seeds : List α} {w : Work α ε} (h : Turns visit (start seeds) w) {e : ε}
    (he : w.ended = some e) : ∃ a, (visit a).ending = some e := by
  rcases ReflTransGen.cases_tail h with rfl | ⟨w', -, ht⟩
  · exact absurd he.symm (Option.some_ne_none e)
  · obtain ⟨a, -, hend, ⟨-, rfl⟩ | ⟨-, -, rfl⟩ | ⟨-, e', he', rfl⟩⟩ := turn_cases visit ht
    · exact absurd (he.symm.trans hend) (Option.some_ne_none e)
    · exact absurd (he.symm.trans hend) (Option.some_ne_none e)
    · exact ⟨a, he'.trans he⟩

theorem turns_congr {visit' : α → Visit α ε} {seeds : List α} {w : Work α ε}
    (hsame : ∀ a, (∃ s ∈ seeds, ReflTransGen (Child visit') s a) → visit a = visit' a)
    (h : Turns visit (start seeds) w) : Turns visit' (start seeds) w := by
  induction h with
  | refl => exact .refl
  | tail _ ht ih =>
    apply ih.tail
    obtain ⟨hend, a, ha, rfl⟩ := ht
    refine ⟨hend, a, ha, ?_⟩
    have hreach := (sound_turns visit' ih).reach a (List.mem_of_getElem? ha)
    unfold next
    rw [hsame a hreach]

/-! ## When the queue has been consumed -/

section Consumed
variable {visit} {seeds : List α} {w : Work α ε} (h : Turns visit (start seeds) w)
  (hdone : w.cursor = w.queue.length)
include h hdone

theorem seen_of_queue (a : α) (ha : a ∈ w.queue) : a ∈ w.seen := by
  obtain ⟨i, hi⟩ := List.mem_iff_getElem?.mp ha
  have hlt : i < w.queue.length := (List.getElem?_eq_some_iff.mp hi).1
  exact (sound_turns visit h).consumed i (by omega) a hi

/-- `R` may say more than `Child` of elements whose visit ends the work. -/
theorem mem_seen_iff {R : α → α → Prop} (hchild : ∀ a b, Child visit a b → R a b)
    (hvisit : ∀ a b, (visit a).ending = none → R a b → Child visit a b) (a : α) :
    a ∈ w.seen ↔ ∃ s ∈ seeds, ReflTransGen R s a := by
  have hs := sound_turns visit h
  constructor
  · intro ha
    obtain ⟨s, hseed, hreach⟩ := hs.reach a (hs.seenQueued a ha)
    exact ⟨s, hseed, ReflTransGen.mono hchild _ _ hreach⟩
  · rintro ⟨s, hseed, hreach⟩
    induction hreach with
    | refl => exact seen_of_queue h hdone s (hs.seeded s hseed)
    | tail _ hbc ih =>
      exact seen_of_queue h hdone _ (hs.closed _ ih _ (hvisit _ _ (hs.visited _ ih) hbc))

end Consumed

end Turn

end Plctagt.Worklist
