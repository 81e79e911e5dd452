import Mathlib

/-! # The most recently used

A list of what was used, the last first, without repetitions and with at most `cap` entries (`Tidy`).
Using an entry again moves it to the front (`touch`): it is taken out, put in front, and what is then
too long is cut. To cut before the repetition is taken out (`cutFirst`) keeps the list tidy too, but
one entry more is cut than has to be when a full list is touched at an entry that is not its last.
-/
namespace Plctagt.Recent
set_option autoImplicit false

variable {α : Type} [BEq α] [LawfulBEq α] {cap : ℕ} {a : α} {l : List α}

def touch (cap : ℕ) (a : α) (l : List α) : List α := (a :: l.filter (· != a)).take cap

def cutFirst (cap : ℕ) (a : α) (l : List α) : List α := ((a :: l).take cap).eraseDups

structure Tidy (cap : ℕ) (l : List α) : Prop where
  nodup : l.Nodup
  length_le : l.length ≤ cap

/-- The list is full, and what is touched is in it before the last place. -/
def Crowded (cap : ℕ) (a : α) (l : List α) : Prop := l.length = cap ∧ a ∈ l.dropLast

instance decidableCrowded (cap : ℕ) (a : α) (l : List α) : Decidable (Crowded cap a l) :=
  inferInstanceAs (Decidable (_ ∧ _))

theorem filter_ne_of_not_mem (h : a ∉ l) : l.filter (· != a) = l := by
  refine List.filter_eq_self.mpr fun b hb => ?_
  have hne : b ≠ a := fun e => h (e ▸ hb)
  exact bne_iff_ne.mpr hne

theorem eraseDups_of_nodup (h : l.Nodup) : l.eraseDups = l := by
  induction l with
  | nil => rfl
  | cons b l ih =>
    obtain ⟨hb, hl⟩ := List.nodup_cons.mp h
    have hfilter : (l.filter fun c => !c == b) = l := filter_ne_of_not_mem hb
    rw [List.eraseDups_cons, hfilter, ih hl]

theorem cutFirst_eq (h : l.Nodup) (a : α) :
    cutFirst (cap + 1) a l = a :: (l.take cap).filter (· != a) := by
  have hnodup : ((l.take cap).filter (· != a)).Nodup := (h.sublist (List.take_sublist _ _)).filter _
  have hcons : (a :: l.take cap).eraseDups = a :: ((l.take cap).filter (· != a)).eraseDups :=
    List.eraseDups_cons
  rw [cutFirst, List.take_succ_cons, hcons, eraseDups_of_nodup hnodup]

theorem tidy_of_filter {m : List α} (h : m.Nodup) (hlen : m.length ≤ cap) (a : α) :
    Tidy (cap + 1) (a :: m.filter (· != a)) := by
  refine ⟨List.nodup_cons.mpr ⟨fun hmem => ?_, h.filter _⟩, ?_⟩
  · simpa using List.of_mem_filter hmem
  · have hfilter := List.length_filter_le (fun b => b != a) m
    rw [List.length_cons]
    omega

theorem tidy_cutFirst (h : l.Nodup) (a : α) : Tidy (cap + 1) (cutFirst (cap + 1) a l) := by
  rw [cutFirst_eq h]
  exact tidy_of_filter (h.sublist (List.take_sublist _ _)) (List.length_take_le _ _) a

/-- Touching an entry of a tidy list moves it, and cuts nothing. -/
theorem touch_of_mem (h : Tidy cap l) (ha : a ∈ l) : touch cap a l = a :: l.filter (· != a) := by
  have hlt : (l.filter (· != a)).length < l.length := by
    refine List.length_filter_lt_length_iff_exists.mpr ⟨a, ha, ?_⟩
    simp
  have hlen := h.length_le
  refine List.take_of_length_le ?_
  rw [List.length_cons]
  omega

theorem mem_touch_of_mem {b : α} (h : Tidy cap l) (ha : a ∈ l) (hb : b ∈ l) : b ∈ touch cap a l := by
  rw [touch_of_mem h ha]
  by_cases hab : b = a
  · exact hab ▸ List.mem_cons_self
  · exact List.mem_cons_of_mem _ (List.mem_filter.mpr ⟨hb, by simpa using hab⟩)

omit [BEq α] [LawfulBEq α] in
/-- A full list is crowded by its entries, the last excepted. -/
theorem Crowded.split (h : l.Nodup) (hc : Crowded (cap + 1) a l) :
    ∃ m b, l = m ++ [b] ∧ m.length = cap ∧ a ∈ m ∧ b ∉ m := by
  obtain ⟨hlen, ha⟩ := hc
  have hne : l ≠ [] := List.ne_nil_of_length_eq_add_one hlen
  have hsplit := List.dropLast_append_getLast hne
  rw [← hsplit] at h
  refine ⟨l.dropLast, l.getLast hne, hsplit.symm, ?_, ha, ?_⟩
  · rw [List.length_dropLast]
    omega
  · intro hmem
    exact (List.nodup_append.mp h).2.2 _ hmem _ List.mem_cons_self rfl

theorem cutFirst_eq_touch (h : Tidy (cap + 1) l) (hc : ¬Crowded (cap + 1) a l) :
    cutFirst (cap + 1) a l = touch (cap + 1) a l := by
  rw [cutFirst_eq h.nodup, touch, List.take_succ_cons]
  congr 1
  rcases Nat.lt_or_ge cap l.length with hfull | hshort
  · have hlen : l.length = cap + 1 := le_antisymm h.length_le hfull
    have hne : l ≠ [] := List.ne_nil_of_length_eq_add_one hlen
    have ha : a ∉ l.dropLast := fun ha => hc ⟨hlen, ha⟩
    have htake : l.take cap = l.dropLast := by
      rw [List.dropLast_eq_take, hlen, Nat.add_sub_cancel]
    have hlast : l.dropLast.length = cap := by
      rw [List.length_dropLast]
      omega
    have hsplit : l.filter (· != a) = l.dropLast ++ [l.getLast hne].filter (· != a) := by
      conv_lhs => rw [← List.dropLast_append_getLast hne]
      rw [List.filter_append, filter_ne_of_not_mem ha]
    rw [htake, filter_ne_of_not_mem ha, hsplit, List.take_append_of_le_length hlast.ge,
      ← hlast, List.take_length]
  · rw [List.take_of_length_le hshort]
    exact (List.take_of_length_le ((List.length_filter_le _ _).trans hshort)).symm

/-- In a crowded list the last entry is the one that is lost. -/
theorem not_mem_cutFirst_of_crowded (h : l.Nodup) (hc : Crowded (cap + 1) a l) :
    ∃ b ∈ l, b ∉ cutFirst (cap + 1) a l := by
  obtain ⟨m, b, rfl, hlen, ha, hb⟩ := hc.split h
  refine ⟨b, List.mem_append_right _ List.mem_cons_self, ?_⟩
  rw [cutFirst_eq h, List.take_append_of_le_length hlen.ge, ← hlen, List.take_length]
  intro hmem
  rcases List.mem_cons.mp hmem with rfl | hmem
  · exact hb ha
  · exact hb (List.mem_of_mem_filter hmem)

theorem cutFirst_eq_touch_iff (h : Tidy (cap + 1) l) :
    cutFirst (cap + 1) a l = touch (cap + 1) a l ↔ ¬Crowded (cap + 1) a l := by
  refine ⟨fun heq hc => ?_, cutFirst_eq_touch h⟩
  obtain ⟨b, hb, hlost⟩ := not_mem_cutFirst_of_crowded h.nodup hc
  rw [heq] at hlost
  exact hlost (mem_touch_of_mem h (List.mem_of_mem_dropLast hc.2) hb)

/-- Touching an entry loses none, unless the list is crowded. -/
theorem subset_cutFirst_iff (h : Tidy (cap + 1) l) (ha : a ∈ l) :
    (∀ b ∈ l, b ∈ cutFirst (cap + 1) a l) ↔ ¬Crowded (cap + 1) a l := by
  constructor
  · intro hall hc
    obtain ⟨b, hb, hlost⟩ := not_mem_cutFirst_of_crowded h.nodup hc
    exact hlost (hall b hb)
  · intro hc b hb
    rw [cutFirst_eq_touch h hc]
    exact mem_touch_of_mem h ha hb

end Plctagt.Recent
