import Plctagt.Foundations.Worklist

/-! # Stale entries of a worklist

Two works that differ in what waits in their queues: `x` waits in both, and then the second has
entries of its own. They do no harm when they are copies of what is seen by then, or when no run
gets past `x`: both works end in the same way, and visit the same elements in the same order
(`stale_turns`).
-/
namespace Plctagt.Worklist
open Relation
set_option autoImplicit false

section Turn
variable {α ε : Type} [DecidableEq α] (visit : α → Visit α ε)

def rest (w : Work α ε) : List α := w.queue.drop w.cursor

structure Stale (w₁ w₂ : Work α ε) : Prop where
  ended₁ : w₁.ended = none
  ended₂ : w₂.ended = none
  seen : w₁.seen = w₂.seen
  length_le : w₁.queue.length ≤ w₂.queue.length
  rests : ∃ x y z, rest w₁ = x ++ y ∧ rest w₂ = x ++ z ∧
    ((∃ a ∈ x, a ∉ w₁.seen ∧ (visit a).ending.isSome) ∨
      ∃ u, z = u ++ y ∧ ∀ c ∈ u, c ∈ w₁.seen ∨ c ∈ x)

omit [DecidableEq α] in
theorem getElem?_cursor (w : Work α ε) : w.queue[w.cursor]? = (rest w).head? := by
  rw [rest, List.head?_drop]

theorem rest_next_seen {w : Work α ε} {a : α} {t : List α} (hrest : rest w = a :: t)
    (ha : a ∈ w.seen) : rest (next visit w a) = t := by
  rw [next, if_pos ha]
  show w.queue.drop (w.cursor + 1) = t
  rw [← List.drop_drop]
  exact congrArg (List.drop 1) hrest

theorem rest_next_visited {w : Work α ε} {a : α} {t : List α} (hrest : rest w = a :: t)
    (ha : a ∉ w.seen) (he : (visit a).ending = none) :
    rest (next visit w a) = t ++ (visit a).children.filter fun c => c ∉ w.seen ++ [a] := by
  have hlt : w.cursor < w.queue.length := by
    by_contra hge
    rw [rest, List.drop_eq_nil_of_le (by omega)] at hrest
    exact List.cons_ne_nil _ _ hrest.symm
  rw [rest, next_queue visit ha, next_cursor visit ha he, List.drop_append_of_le_length (by omega),
    ← List.drop_drop]
  exact congrArg (· ++ _) (congrArg (List.drop 1) hrest)

theorem turns_skip (u : List α) {w : Work α ε} {y : List α} (hend : w.ended = none)
    (hrest : rest w = u ++ y) (hu : ∀ c ∈ u, c ∈ w.seen) :
    ∃ w', Turns visit w w' ∧ w'.ended = none ∧ w'.seen = w.seen ∧ w'.queue = w.queue ∧
      rest w' = y := by
  induction u generalizing w with
  | nil => exact ⟨w, .refl, hend, rfl, rfl, hrest⟩
  | cons a u ih =>
    have ha : a ∈ w.seen := hu a List.mem_cons_self
    have hn : next visit w a = { w with cursor := w.cursor + 1 } := if_pos ha
    have hturn : Turn visit w (next visit w a) :=
      ⟨hend, a, by rw [getElem?_cursor, hrest]; rfl, rfl⟩
    have hr := rest_next_seen visit hrest ha
    rw [hn] at hturn hr
    obtain ⟨w', hrun, hw'⟩ := ih (w := { w with cursor := w.cursor + 1 }) hend hr
      fun c hc => hu c (List.mem_cons_of_mem a hc)
    exact ⟨w', .head hturn hrun, hw'⟩

/-- Two works that are over in the same way. -/
structure SameEnd (w₁ w₂ : Work α ε) : Prop where
  over₁ : Over w₁
  over₂ : Over w₂
  ended : w₁.ended = w₂.ended
  requested : requested w₁ = requested w₂
  length_le : w₁.queue.length ≤ w₂.queue.length

omit [DecidableEq α] in
theorem requested_of_none {w : Work α ε} (h : w.ended = none) : requested w = w.seen := by
  rw [requested, h]
  exact List.append_nil _

theorem sameEnd_next {w₁ w₂ : Work α ε} {a : α} (h : Stale visit w₁ w₂)
    (h₁ : w₁.queue[w₁.cursor]? = some a) (h₂ : w₂.queue[w₂.cursor]? = some a)
    (ha : a ∉ w₁.seen) {e : ε} (he : (visit a).ending = some e) :
    SameEnd (next visit w₁ a) (next visit w₂ a) := by
  have hreq : ∀ w : Work α ε, w.ended = none → w.queue[w.cursor]? = some a → a ∉ w.seen →
      (next visit w a).ended = some e ∧ requested (next visit w a) = w.seen ++ [a] := by
    intro w hend hw hs
    have hlt : w.cursor < w.queue.length := (List.getElem?_eq_some_iff.mp hw).1
    have hn : next visit w a =
        ⟨w.queue ++ (visit a).children.filter fun c => c ∉ w.seen ++ [a], w.cursor, w.seen,
          some e⟩ := by
      rw [next, if_neg hs]
      simp only [he]
    refine ⟨by rw [hn], ?_⟩
    rw [hn, requested, List.getElem?_append_left hlt, hw]
    rfl
  obtain ⟨he₁, hr₁⟩ := hreq w₁ h.ended₁ h₁ ha
  obtain ⟨he₂, hr₂⟩ := hreq w₂ h.ended₂ h₂ (h.seen ▸ ha)
  refine ⟨.inl (by rw [he₁]; rfl), .inl (by rw [he₂]; rfl), he₁.trans he₂.symm,
    by rw [hr₁, hr₂, h.seen], ?_⟩
  rw [next_queue visit ha, next_queue visit (h.seen ▸ ha), h.seen, List.length_append,
    List.length_append]
  exact Nat.add_le_add_right h.length_le _

theorem stale_next_seen {w₁ w₂ : Work α ε} (h₁ : w₁.ended = none) (h₂ : w₂.ended = none)
    (hseen : w₁.seen = w₂.seen) (hlen : w₁.queue.length ≤ w₂.queue.length) {a : α}
    {x y z : List α} (hr₁ : rest w₁ = a :: (x ++ y)) (hr₂ : rest w₂ = a :: (x ++ z))
    (hz : (∃ b ∈ a :: x, b ∉ w₁.seen ∧ (visit b).ending.isSome) ∨
      ∃ u, z = u ++ y ∧ ∀ c ∈ u, c ∈ w₁.seen ∨ c ∈ a :: x) (ha : a ∈ w₁.seen) :
    Stale visit (next visit w₁ a) (next visit w₂ a) := by
  have ha₂ : a ∈ w₂.seen := hseen ▸ ha
  refine ⟨?_, ?_, ?_, ?_, x, y, z, rest_next_seen visit hr₁ ha, rest_next_seen visit hr₂ ha₂, ?_⟩
  · rw [next, if_pos ha]
    exact h₁
  · rw [next, if_pos ha₂]
    exact h₂
  · rw [next, if_pos ha, next, if_pos ha₂]
    exact hseen
  · rw [next, if_pos ha, next, if_pos ha₂]
    exact hlen
  · have hn : (next visit w₁ a).seen = w₁.seen := by rw [next, if_pos ha]
    rw [hn]
    rcases hz with ⟨b, hb, hbs, hbe⟩ | ⟨u, rfl, hu⟩
    · rcases List.mem_cons.mp hb with rfl | hb
      · exact absurd ha hbs
      · exact .inl ⟨b, hb, hbs, hbe⟩
    · refine .inr ⟨u, rfl, fun c hc => ?_⟩
      rcases hu c hc with hc | hc
      · exact .inl hc
      · rcases List.mem_cons.mp hc with rfl | hc
        · exact .inl ha
        · exact .inr hc

theorem stale_next {w₁ w₂ : Work α ε} (h₁ : w₁.ended = none) (h₂ : w₂.ended = none)
    (hseen : w₁.seen = w₂.seen) (hlen : w₁.queue.length ≤ w₂.queue.length) {a : α}
    {x y z : List α} (hr₁ : rest w₁ = a :: (x ++ y)) (hr₂ : rest w₂ = a :: (x ++ z))
    (hz : (∃ b ∈ a :: x, b ∉ w₁.seen ∧ (visit b).ending.isSome) ∨
      ∃ u, z = u ++ y ∧ ∀ c ∈ u, c ∈ w₁.seen ∨ c ∈ a :: x) :
    Stale visit (next visit w₁ a) (next visit w₂ a) ∨
      SameEnd (next visit w₁ a) (next visit w₂ a) := by
  have hstale : Stale visit w₁ w₂ := ⟨h₁, h₂, hseen, hlen, a :: x, y, z, hr₁, hr₂, hz⟩
  by_cases ha : a ∈ w₁.seen
  · exact .inl (stale_next_seen visit h₁ h₂ hseen hlen hr₁ hr₂ hz ha)
  · have ha₂ : a ∉ w₂.seen := hseen ▸ ha
    cases he : (visit a).ending with
    | some e =>
      exact .inr (sameEnd_next visit hstale (by rw [getElem?_cursor, hr₁]; rfl)
        (by rw [getElem?_cursor, hr₂]; rfl) ha he)
    | none =>
      have hs₁ := next_seen visit ha he
      refine .inl ⟨by rw [next_ended visit ha h₁, he], by rw [next_ended visit ha₂ h₂, he], ?_, ?_,
        x, y ++ (visit a).children.filter (fun c => c ∉ w₁.seen ++ [a]),
        z ++ (visit a).children.filter (fun c => c ∉ w₁.seen ++ [a]), ?_, ?_, ?_⟩
      · rw [hs₁, next_seen visit ha₂ he, hseen]
      · rw [next_queue visit ha, next_queue visit ha₂, hseen, List.length_append, List.length_append]
        exact Nat.add_le_add_right hlen _
      · rw [rest_next_visited visit hr₁ ha he, List.append_assoc]
      · rw [rest_next_visited visit hr₂ ha₂ he, List.append_assoc, hseen]
      · rw [hs₁]
        rcases hz with ⟨b, hb, hbs, hbe⟩ | ⟨u, rfl, hu⟩
        · have hne : b ≠ a := by
            rintro rfl
            rw [he] at hbe
            exact Bool.false_ne_true hbe
          refine .inl ⟨b, (List.mem_cons.mp hb).resolve_left hne, ?_, hbe⟩
          rw [List.mem_append, List.mem_singleton]
          exact fun hb => hb.elim hbs hne
        · refine .inr ⟨u, List.append_assoc _ _ _, fun c hc => ?_⟩
          rw [List.mem_append, List.mem_singleton]
          rcases hu c hc with hc | hc
          · exact .inl (.inl hc)
          · rcases List.mem_cons.mp hc with rfl | hc
            · exact .inl (.inr rfl)
            · exact .inr hc

theorem stale_turn {w₁ w₂ w₁' : Work α ε} (h : Stale visit w₁ w₂) (ht : Turn visit w₁ w₁') :
    ∃ w₂', Turns visit w₂ w₂' ∧ (Stale visit w₁' w₂' ∨ SameEnd w₁' w₂') := by
  obtain ⟨-, a, ha, rfl⟩ := ht
  rw [getElem?_cursor] at ha
  obtain ⟨x, y, z, hr₁, hr₂, hz⟩ := h.rests
  cases x with
  | cons b x =>
    obtain rfl : b = a := by
      rw [hr₁] at ha
      exact Option.some.inj ha
    have hturn : Turn visit w₂ (next visit w₂ b) :=
      ⟨h.ended₂, b, by rw [getElem?_cursor, hr₂]; rfl, rfl⟩
    exact ⟨_, .single hturn, stale_next visit h.ended₁ h.ended₂ h.seen h.length_le hr₁ hr₂ hz⟩
  | nil =>
    obtain ⟨u, rfl, hu⟩ := hz.resolve_left fun ⟨_, hb, _⟩ => List.not_mem_nil hb
    obtain ⟨w, hskip, hend, hseen, hqueue, hrest⟩ := turns_skip visit u h.ended₂ hr₂
      fun c hc => h.seen ▸ (hu c hc).resolve_right List.not_mem_nil
    obtain ⟨y, rfl⟩ : ∃ y', y = a :: y' := by
      rw [hr₁] at ha
      exact List.head?_eq_some_iff.mp ha
    have hturn : Turn visit w (next visit w a) :=
      ⟨hend, a, by rw [getElem?_cursor, hrest]; rfl, rfl⟩
    -- the rests agree from here on: all of them waits in both works
    have hrest₁ : rest w₁ = a :: (y ++ []) := by
      rw [hr₁, List.append_nil]
      rfl
    have hrest₂ : rest w = a :: (y ++ []) := by rw [hrest, List.append_nil]
    exact ⟨_, hskip.tail hturn, stale_next visit h.ended₁ hend (h.seen.trans hseen.symm)
      (by rw [hqueue]; exact h.length_le) hrest₁ hrest₂
      (.inr ⟨[], rfl, fun _ hc => absurd hc List.not_mem_nil⟩)⟩

theorem stale_over {w₁ w₂ : Work α ε} (h : Stale visit w₁ w₂) (ho : Over w₁) :
    ∃ w₂', Turns visit w₂ w₂' ∧ SameEnd w₁ w₂' := by
  have hrest : rest w₁ = [] := by
    rcases ho with hend | hle
    · rw [h.ended₁] at hend
      exact absurd hend Bool.false_ne_true
    · exact List.drop_eq_nil_of_le hle
  obtain ⟨x, y, z, hr₁, hr₂, hz⟩ := h.rests
  rw [hrest] at hr₁
  obtain ⟨rfl, rfl⟩ := List.append_eq_nil_iff.mp hr₁.symm
  obtain ⟨u, rfl, hu⟩ := hz.resolve_left fun ⟨_, hb, _⟩ => List.not_mem_nil hb
  obtain ⟨w, hskip, hend, hseen, hqueue, hrest₂⟩ := turns_skip visit u h.ended₂ hr₂
    fun c hc => h.seen ▸ (hu c hc).resolve_right List.not_mem_nil
  refine ⟨w, hskip, ho, .inr (List.drop_eq_nil_iff.mp hrest₂), h.ended₁.trans hend.symm, ?_,
    hqueue ▸ h.length_le⟩
  rw [requested_of_none h.ended₁, requested_of_none hend, hseen, h.seen]

theorem stale_turns {w₁ w₂ w₁' : Work α ε} (h : Stale visit w₁ w₂) (hrun : Turns visit w₁ w₁') :
    ∃ w₂', Turns visit w₂ w₂' ∧ (Stale visit w₁' w₂' ∨ SameEnd w₁' w₂') := by
  induction hrun with
  | refl => exact ⟨w₂, .refl, .inl h⟩
  | tail _ ht ih =>
    obtain ⟨w, hw, hstale | hsame⟩ := ih
    · obtain ⟨w', hw', hcase⟩ := stale_turn visit hstale ht
      exact ⟨w', hw.trans hw', hcase⟩
    · exact absurd ht (not_turn_of_over visit hsame.over₁)

theorem stale_ends {w₁ w₂ w₁' : Work α ε} (h : Stale visit w₁ w₂) (hrun : Turns visit w₁ w₁')
    (ho : Over w₁') : ∃ w₂', Turns visit w₂ w₂' ∧ SameEnd w₁' w₂' := by
  obtain ⟨w, hw, hstale | hsame⟩ := stale_turns visit h hrun
  · obtain ⟨w', hw', hsame⟩ := stale_over visit hstale ho
    exact ⟨w', hw.trans hw', hsame⟩
  · exact ⟨w, hw, hsame⟩

theorem stale_length {w₁ w₂ w₁' : Work α ε} (h : Stale visit w₁ w₂) (hrun : Turns visit w₁ w₁') :
    ∃ w₂', Turns visit w₂ w₂' ∧ w₁'.queue.length ≤ w₂'.queue.length := by
  obtain ⟨w, hw, hstale | hsame⟩ := stale_turns visit h hrun
  · exact ⟨w, hw, hstale.length_le⟩
  · exact ⟨w, hw, hsame.length_le⟩

/-- Entries in front of the seeds that are the first seeds, or that begin as the seeds do and no
work gets past that beginning. -/
def Harmless (pending seeds : List α) : Prop :=
  pending <+: seeds ∨ ∃ x, x <+: pending ∧ x <+: seeds ∧ ∃ a ∈ x, (visit a).ending.isSome

instance decidableHarmless (pending seeds : List α) : Decidable (Harmless visit pending seeds) :=
  decidable_of_iff (pending <+: seeds ∨
      ∃ x ∈ pending.inits, x <+: seeds ∧ ∃ a ∈ x, (visit a).ending.isSome) <|
    or_congr_right (exists_congr fun _ => and_congr_left fun _ => List.mem_inits _ _)

omit [DecidableEq α] in
theorem stale_start {pending seeds : List α} (h : Harmless visit pending seeds) :
    Stale visit (start seeds) (start (pending ++ seeds)) := by
  refine ⟨rfl, rfl, rfl, ?_, ?_⟩
  · show seeds.length ≤ (pending ++ seeds).length
    rw [List.length_append]
    exact Nat.le_add_left _ _
  · rcases h with ⟨y, rfl⟩ | ⟨x, ⟨z, rfl⟩, ⟨y, rfl⟩, a, ha, he⟩
    · exact ⟨pending, y, pending ++ y, rfl, rfl, .inr ⟨pending, rfl, fun _ hc => .inr hc⟩⟩
    · exact ⟨x, y, z ++ (x ++ y), rfl, List.append_assoc _ _ _,
        .inl ⟨a, ha, List.not_mem_nil, he⟩⟩

end Turn

end Plctagt.Worklist
