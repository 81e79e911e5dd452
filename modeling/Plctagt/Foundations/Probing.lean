import Mathlib.Data.List.Nodup
import Mathlib.Data.List.Range
import Mathlib.Data.List.Perm.Basic
import Mathlib.Data.Multiset.AddSub

/-! # Open addressing within a window

A table of slots. An entry is put into the first free slot of a window of `window` slots that starts
at the home of its key, and it is looked for in the whole window, past the free slots. So an entry
that is removed leaves no mark, and the entries of a `Sound` table are a finite map: each operation
does to them what it would do to the map.
-/
namespace Plctagt.Probing
set_option autoImplicit false

/-- A slot holds an entry, or its data is missing. -/
structure Slot (κ ν : Type) where
  key : κ
  data : Option ν
  deriving DecidableEq

/-- A table has at least one slot, so that every position is one modulo its size. -/
structure Slots (κ ν : Type) where
  list : List (Slot κ ν)
  pos : 0 < list.length

section Slots
variable {κ ν : Type}

def Slot.pair (s : Slot κ ν) : Option (κ × ν) := s.data.map fun v => (s.key, v)

/-- The entries, in the order of the slots. -/
def pairs (l : List (Slot κ ν)) : List (κ × ν) := l.filterMap Slot.pair

def Slots.size (t : Slots κ ν) : ℕ := t.list.length

def Slots.entries (t : Slots κ ν) : List (κ × ν) := pairs t.list

def Slots.blank (free : κ) (n : ℕ) (h : 0 < n) : Slots κ ν :=
  ⟨List.replicate n ⟨free, none⟩, by rwa [List.length_replicate]⟩

def Slots.set (t : Slots κ ν) (j : ℕ) (s : Slot κ ν) : Slots κ ν :=
  ⟨t.list.set j s, by rw [List.length_set]; exact t.pos⟩

/-- The first slot of the window that starts at `start` with this property. -/
def Slots.seek (t : Slots κ ν) (p : Slot κ ν → Bool) (start window : ℕ) : Option ℕ :=
  ((List.range window).map fun i => (start + i) % t.size).find? fun j => t.list[j]?.any p

@[simp] theorem size_set (t : Slots κ ν) (j : ℕ) (s : Slot κ ν) : (t.set j s).size = t.size :=
  List.length_set

@[simp] theorem size_blank (free : κ) (n : ℕ) (h : 0 < n) :
    (Slots.blank free n h : Slots κ ν).size = n :=
  List.length_replicate

/-- `j` is in the window that starts at `start`. -/
def InWindow (size start window j : ℕ) : Prop := ∃ i < window, j = (start + i) % size

theorem mem_window {size start window j : ℕ} :
    j ∈ (List.range window).map (fun i => (start + i) % size) ↔ InWindow size start window j := by
  rw [List.mem_map]
  exact exists_congr fun i => and_congr List.mem_range eq_comm

theorem seek_eq_some {t : Slots κ ν} {p : Slot κ ν → Bool} {start window j : ℕ}
    (h : t.seek p start window = some j) :
    InWindow t.size start window j ∧ ∃ s, t.list[j]? = some s ∧ p s = true := by
  refine ⟨mem_window.mp (List.mem_of_find?_eq_some h), ?_⟩
  have hany := List.find?_some h
  rwa [Option.any_eq_true] at hany

theorem seek_eq_none {t : Slots κ ν} {p : Slot κ ν → Bool} {start window : ℕ} :
    t.seek p start window = none ↔
      ∀ j s, InWindow t.size start window j → t.list[j]? = some s → p s = false := by
  rw [Slots.seek, List.find?_eq_none]
  constructor
  · intro h j s hj hs
    have := h j (mem_window.mpr hj)
    rw [hs, Option.any_some] at this
    exact Bool.eq_false_iff.mpr this
  · intro h j hj hany
    obtain ⟨s, hs, hp⟩ := (Option.any_eq_true ..).mp hany
    rw [h j s (mem_window.mp hj) hs] at hp
    exact Bool.false_ne_true hp

/-! ## The entries under a change of one slot -/

theorem pairs_append (l l' : List (Slot κ ν)) : pairs (l ++ l') = pairs l ++ pairs l' :=
  List.filterMap_append

theorem pairs_replicate (free : κ) (n : ℕ) :
    pairs (List.replicate n (⟨free, none⟩ : Slot κ ν)) = [] :=
  List.filterMap_eq_nil_iff.mpr fun s hs => by rw [List.eq_of_mem_replicate hs]; rfl

theorem mem_pairs {l : List (Slot κ ν)} {k : κ} {v : ν} :
    (k, v) ∈ pairs l ↔ ∃ j : ℕ, l[j]? = some ⟨k, some v⟩ := by
  rw [pairs, List.mem_filterMap]
  constructor
  · rintro ⟨⟨k', d⟩, hs, hpair⟩
    obtain ⟨w, hd, hw⟩ := Option.map_eq_some_iff.mp hpair
    obtain rfl : d = some w := hd
    obtain ⟨rfl, rfl⟩ := Prod.mk.injEq .. ▸ hw
    exact List.mem_iff_getElem?.mp hs
  · rintro ⟨j, hj⟩
    exact ⟨_, List.mem_of_getElem? hj, rfl⟩

theorem set_split {α : Type} {l : List α} {j : ℕ} {a : α} (h : l[j]? = some a) (b : α) :
    ∃ l₁ l₂, l = l₁ ++ a :: l₂ ∧ l.set j b = l₁ ++ b :: l₂ := by
  obtain ⟨hlt, rfl⟩ := List.getElem?_eq_some_iff.mp h
  obtain ⟨l₁, l₂, hl, -, hset⟩ := List.exists_of_set hlt
  exact ⟨l₁, l₂, hl, hset⟩

/-- A free slot takes an entry. -/
theorem pairs_place {l : List (Slot κ ν)} {j : ℕ} {s : Slot κ ν} (h : l[j]? = some s)
    (hfree : s.data = none) (k : κ) (v : ν) :
    (pairs (l.set j ⟨k, some v⟩)).Perm ((k, v) :: pairs l) := by
  obtain ⟨l₁, l₂, rfl, hset⟩ := set_split h ⟨k, some v⟩
  have hs : pairs (s :: l₂) = pairs l₂ :=
    List.filterMap_cons_none (by rw [Slot.pair, hfree]; rfl)
  rw [hset, pairs_append, pairs_append, hs]
  exact List.perm_middle

/-- The data of a slot is taken out. -/
theorem pairs_clear {l : List (Slot κ ν)} {j : ℕ} {k : κ} {v : ν}
    (h : l[j]? = some ⟨k, some v⟩) (free : κ) :
    (pairs l).Perm ((k, v) :: pairs (l.set j ⟨free, none⟩)) := by
  obtain ⟨l₁, l₂, rfl, hset⟩ := set_split h ⟨free, none⟩
  rw [hset, pairs_append, pairs_append]
  exact List.perm_middle

end Slots

/-! ## Sound tables -/

section Sound
variable {κ ν : Type} (home : κ → ℕ → ℕ) (window : ℕ) (free : κ)

/-- Every entry is in the window of its key, no key has two entries, and a slot without data has the
key that no entry uses. -/
structure Sound (t : Slots κ ν) : Prop where
  placed : ∀ j k v, t.list[j]? = some ⟨k, some v⟩ → InWindow t.size (home k t.size) window j
  nodup : (t.entries.map Prod.fst).Nodup
  cleared : ∀ s ∈ t.list, s.data = none → s.key = free

theorem sound_blank (n : ℕ) (h : 0 < n) : Sound home window free (Slots.blank free n h : Slots κ ν) := by
  have hslot : ∀ s ∈ (Slots.blank free n h : Slots κ ν).list, s = ⟨free, none⟩ :=
    fun s hs => List.eq_of_mem_replicate hs
  refine ⟨fun j k v hj => ?_, ?_, fun s hs _ => by rw [hslot s hs]⟩
  · exact absurd (congrArg Slot.data (hslot _ (List.mem_of_getElem? hj))) (Option.some_ne_none v)
  · rw [Slots.entries, Slots.blank, pairs_replicate]
    exact List.nodup_nil

variable {home window free} {t : Slots κ ν}

theorem Sound.value_unique (h : Sound home window free t) {k : κ} {v w : ν}
    (hv : (k, v) ∈ t.entries) (hw : (k, w) ∈ t.entries) : v = w :=
  congrArg Prod.snd (List.inj_on_of_nodup_map h.nodup hv hw rfl)

theorem Sound.place (h : Sound home window free t) {j : ℕ} {k : κ}
    (hj : t.seek (fun s => s.data.isNone) (home k t.size) window = some j)
    (hk : k ∉ t.entries.map Prod.fst) (v : ν) :
    Sound home window free (t.set j ⟨k, some v⟩) ∧
      (t.set j ⟨k, some v⟩).entries.Perm ((k, v) :: t.entries) := by
  obtain ⟨hwindow, s, hs, hfree⟩ := seek_eq_some hj
  have hperm := pairs_place hs (Option.isNone_iff_eq_none.mp hfree) k v
  refine ⟨⟨fun i k' v' hi => ?_, ?_, fun s' hs' hnone => ?_⟩, hperm⟩
  · rw [size_set]
    rw [Slots.set, List.getElem?_set] at hi
    split_ifs at hi with hij hlt
    · obtain ⟨rfl, -⟩ := Slot.mk.injEq .. ▸ Option.some.inj hi
      exact hij ▸ hwindow
    · exact h.placed i k' v' hi
  · exact ((hperm.map Prod.fst).nodup_iff).mpr (List.nodup_cons.mpr ⟨hk, h.nodup⟩)
  · rcases List.mem_or_eq_of_mem_set hs' with hs' | rfl
    · exact h.cleared s' hs' hnone
    · exact absurd hnone (Option.some_ne_none v)

theorem Sound.clear (h : Sound home window free t) {j : ℕ} {k : κ} {v : ν}
    (hj : t.list[j]? = some ⟨k, some v⟩) :
    Sound home window free (t.set j ⟨free, none⟩) ∧
      t.entries.Perm ((k, v) :: (t.set j ⟨free, none⟩).entries) := by
  have hperm := pairs_clear hj free
  refine ⟨⟨fun i k' v' hi => ?_, ?_, fun s' hs' hnone => ?_⟩, hperm⟩
  · rw [size_set]
    rw [Slots.set, List.getElem?_set] at hi
    split_ifs at hi with hij hlt
    · obtain ⟨-, hnone⟩ := Slot.mk.injEq .. ▸ Option.some.inj hi
      exact absurd hnone.symm (Option.some_ne_none v')
    · exact h.placed i k' v' hi
  · exact (List.nodup_cons.mp (((hperm.map Prod.fst).nodup_iff).mp h.nodup)).2
  · rcases List.mem_or_eq_of_mem_set hs' with hs' | rfl
    · exact h.cleared s' hs' hnone
    · rfl

variable [DecidableEq κ]

/-- A search for a key other than the free one finds its entry, past any free slot. -/
theorem Sound.seek_key (h : Sound home window free t) {k : κ} (hk : k ≠ free) {j : ℕ}
    (hj : t.seek (fun s => s.key = k) (home k t.size) window = some j) :
    ∃ v, t.list[j]? = some ⟨k, some v⟩ := by
  obtain ⟨-, ⟨k', d⟩, hs, hkey⟩ := seek_eq_some hj
  obtain rfl : k' = k := of_decide_eq_true hkey
  cases d with
  | none => exact absurd (h.cleared _ (List.mem_of_getElem? hs) rfl) hk
  | some v => exact ⟨v, hs⟩

theorem Sound.seek_key_eq_none (h : Sound home window free t) {k : κ} (hk : k ≠ free) :
    t.seek (fun s => s.key = k) (home k t.size) window = none ↔ k ∉ t.entries.map Prod.fst := by
  constructor
  · intro hnone hmem
    obtain ⟨⟨k', v⟩, hpair, hfst⟩ := List.mem_map.mp hmem
    obtain rfl : k' = k := hfst
    obtain ⟨j, hj⟩ := mem_pairs.mp hpair
    have hmiss := seek_eq_none.mp hnone j _ (h.placed j k' v hj) hj
    exact absurd hmiss (by simp)
  · intro hmem
    cases hj : t.seek (fun s => s.key = k) (home k t.size) window with
    | none => rfl
    | some j =>
      obtain ⟨v, hv⟩ := h.seek_key hk hj
      exact absurd (List.mem_map_of_mem (mem_pairs.mpr ⟨j, hv⟩)) hmem

end Sound
end Plctagt.Probing
