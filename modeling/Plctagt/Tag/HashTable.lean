import Mathlib.Data.Set.Card
import Plctagt.Foundations.Probing
import Plctagt.Foundations.Simulation
import Plctagt.Tag.Accessors

/-! # The hash table of the library

`hashtable.c`, as it stands behind the table of tags. The hash function, the salt and the memory are
whatever they are. What the table holds is a finite map, for every sequence of calls, as long as the
key 0 is not used and a key is put only when it is not there.
-/
namespace Plctagt.Tag
open Probing
set_option autoImplicit false

def maxIterations : ℕ := 10
def maxIncrement : ℕ := 10000

/-- What `hashtable.c` takes from outside: `hash` of the bytes of a key and a salt, and the number of
entries that `mem_alloc` has memory for. It gives out before an `int` does. -/
structure HashEnv where
  hash : ℤ → UInt32 → UInt32
  memLimit : ℕ

/-- `struct hashtable_t`; `total_entries` is the number of slots. -/
structure Hashtable (α : Type) where
  usedEntries : ℤ
  hashSalt : UInt32
  entries : Slots ℤ α

section HashTable
variable {α : Type} (E : HashEnv)

/-- `KEY_TO_INDEX`. -/
def keyToIndex (salt : UInt32) (key : ℤ) (totalEntries : ℕ) : ℕ :=
  (E.hash key salt).toNat % totalEntries

def Hashtable.home (t : Hashtable α) (key : ℤ) : ℕ := keyToIndex E t.hashSalt key t.entries.size

/-- A search does not stop at an empty entry. -/
def findKey (t : Hashtable α) (key : ℤ) : Option ℕ :=
  t.entries.seek (fun e => e.key = key) (t.home E key) maxIterations

def findEmpty (t : Hashtable α) (key : ℤ) : Option ℕ :=
  t.entries.seek (fun e => e.data.isNone) (t.home E key) maxIterations

/-- The memory of a new table is zeroed. -/
def hashtableCreate (salt : UInt32) (initialCapacity : ℤ) : Option (Hashtable α) :=
  if h : initialCapacity ≤ 0 then none
  else if E.memLimit < initialCapacity.toNat then none
  else some ⟨0, salt, Slots.blank 0 initialCapacity.toNat (by omega)⟩

def hashtableGet (t : Hashtable α) (key : ℤ) : Option α :=
  (findKey E t key).bind fun index => t.entries.list[index]?.bind Slot.data

/-- Copies the entries that are used, up to the first one that finds no place; the first component is
`index` after the loop. -/
def copyEntries : List (Slot ℤ α) → Option ℕ → Hashtable α → Option ℕ × Hashtable α
  | [], index, new => (index, new)
  | e :: es, index, new =>
    if e.data.isNone then copyEntries es index new
    else (findEmpty E new e.key).elim (none, new) fun i =>
      copyEntries es (some i)
        { new with entries := new.entries.set i e, usedEntries := new.usedEntries + 1 }

/-- Double the entries unless already at max doubling, then increment. -/
def growth (totalEntries : ℕ) : ℕ :=
  totalEntries + if totalEntries < maxIncrement then totalEntries else maxIncrement

theorem lt_growth {n : ℕ} (h : 0 < n) : n < growth n := by
  rw [growth, maxIncrement]
  split <;> omega

theorem growth_pos {n : ℕ} (h : 0 < n) : 0 < growth n := h.trans (lt_growth h)

/-- The loop of `expand_table`, for so many turns. -/
def expandFrom (t : Hashtable α) : (turns totalEntries : ℕ) → 0 < totalEntries → Option (Hashtable α)
  | 0, _, _ => none
  | turns + 1, totalEntries, h =>
    if E.memLimit < growth totalEntries then none
    else
      let copied := copyEntries E t.entries.list none
        ⟨0, t.hashSalt, Slots.blank 0 (growth totalEntries) (growth_pos h)⟩
      if copied.1.isNone then expandFrom t turns (growth totalEntries) (growth_pos h)
      else some copied.2

/-- Each turn asks for more memory than the one before. -/
def expandTable (t : Hashtable α) : Option (Hashtable α) :=
  expandFrom E t (E.memLimit + 1) t.entries.size t.entries.pos

/-- The loop of `hashtable_put`, for so many turns. -/
def putFrom (key : ℤ) (data : Option α) : ℕ → Hashtable α → ℤ × Hashtable α
  | 0, t => (plctagErrNoMem, t)
  | turns + 1, t =>
    (findEmpty E t key).elim
      ((expandTable E t).elim (plctagErrNoMem, t) fun t' => putFrom key data turns t')
      fun index => (plctagStatusOk,
        { t with entries := t.entries.set index ⟨key, data⟩, usedEntries := t.usedEntries + 1 })

def hashtablePut (t : Hashtable α) (key : ℤ) (data : Option α) : ℤ × Hashtable α :=
  putFrom E key data (E.memLimit + 1) t

def hashtableGetIndex (t : Hashtable α) (index : ℤ) : Option α :=
  if index < 0 ∨ t.entries.size ≤ index then none
  else t.entries.list[index.toNat]?.bind Slot.data

def hashtableCapacity (t : Hashtable α) : ℤ := t.entries.size

def hashtableEntries (t : Hashtable α) : ℤ := t.usedEntries

def hashtableRemove (t : Hashtable α) (key : ℤ) : Option α × Hashtable α :=
  (findKey E t key).elim (none, t) fun index =>
    (t.entries.list[index]?.bind Slot.data,
      { t with entries := t.entries.set index ⟨0, none⟩, usedEntries := t.usedEntries - 1 })

/-! ## What one call does -/

/-- The slots are sound, with 0 as the key that no entry uses, and `used_entries` counts the entries. -/
structure Hashtable.Wf (t : Hashtable α) : Prop where
  sound : Sound (keyToIndex E t.hashSalt) maxIterations 0 t.entries
  used : t.usedEntries = t.entries.entries.length

variable {E}

theorem wf_blank (salt : UInt32) {n : ℕ} (h : 0 < n) :
    (⟨0, salt, Slots.blank 0 n h⟩ : Hashtable α).Wf E ∧
      (Slots.blank 0 n h : Slots ℤ α).entries = [] :=
  have hempty : (Slots.blank 0 n h : Slots ℤ α).entries = [] := pairs_replicate 0 n
  ⟨⟨sound_blank _ _ _ n h, by rw [hempty]; rfl⟩, hempty⟩

theorem Hashtable.Wf.place {t : Hashtable α} (h : t.Wf E) {key : ℤ} {index : ℕ}
    (hindex : findEmpty E t key = some index) (hkey : key ∉ t.entries.entries.map Prod.fst) (v : α) :
    (⟨t.usedEntries + 1, t.hashSalt, t.entries.set index ⟨key, some v⟩⟩ : Hashtable α).Wf E ∧
      (t.entries.set index ⟨key, some v⟩).entries.Perm ((key, v) :: t.entries.entries) := by
  obtain ⟨hsound, hperm⟩ := h.sound.place hindex hkey v
  refine ⟨⟨hsound, ?_⟩, hperm⟩
  show t.usedEntries + 1 = _
  rw [h.used, hperm.length_eq, List.length_cons, Nat.cast_succ]

/-- What was copied stands in the new table beside what was there. -/
theorem copyEntries_spec (es : List (Slot ℤ α)) (index : Option ℕ) (new : Hashtable α)
    (h : new.Wf E) (hnodup : ((pairs es ++ new.entries.entries).map Prod.fst).Nodup) {i : ℕ}
    {new' : Hashtable α} (hcopy : copyEntries E es index new = (some i, new')) :
    new'.Wf E ∧ new'.entries.entries.Perm (pairs es ++ new.entries.entries) ∧
      new'.hashSalt = new.hashSalt ∧ new'.entries.size = new.entries.size := by
  induction es generalizing index new with
  | nil =>
    obtain ⟨-, rfl⟩ := Prod.mk.injEq .. ▸ hcopy
    exact ⟨h, .rfl, rfl, rfl⟩
  | cons e es ih =>
    obtain ⟨key, data⟩ := e
    rw [copyEntries] at hcopy
    cases data with
    | none => exact ih index new h hnodup hcopy
    | some v =>
      rw [if_neg (by simp)] at hcopy
      cases hfind : findEmpty E new key with
      | none =>
        rw [hfind] at hcopy
        exact absurd (congrArg Prod.fst hcopy) (Option.some_ne_none i).symm
      | some j =>
        rw [hfind] at hcopy
        have hcons : pairs (⟨key, some v⟩ :: es) = (key, v) :: pairs es := rfl
        rw [hcons, List.cons_append, List.map_cons, List.nodup_cons] at hnodup
        have hkey : key ∉ new.entries.entries.map Prod.fst := fun hmem =>
          hnodup.1 (by rw [List.map_append]; exact List.mem_append_right _ hmem)
        obtain ⟨hwf, hperm⟩ := h.place hfind hkey v
        have hmiddle : (pairs es ++ (new.entries.set j ⟨key, some v⟩).entries).Perm
            ((key, v) :: (pairs es ++ new.entries.entries)) :=
          (hperm.append_left _).trans List.perm_middle
        obtain ⟨hwf', hperm', hsalt, hsize⟩ := ih (some j) _ hwf
          ((hmiddle.map Prod.fst).nodup_iff.mpr (List.nodup_cons.mpr hnodup)) hcopy
        exact ⟨hwf', hperm'.trans hmiddle, hsalt, hsize.trans (size_set ..)⟩

theorem expandFrom_spec {t t' : Hashtable α} (h : t.Wf E) {turns totalEntries : ℕ}
    (hpos : 0 < totalEntries) (hexpand : expandFrom E t turns totalEntries hpos = some t') :
    t'.Wf E ∧ t'.entries.entries.Perm t.entries.entries ∧ t'.hashSalt = t.hashSalt ∧
      totalEntries < t'.entries.size ∧ t'.entries.size ≤ E.memLimit := by
  induction turns generalizing totalEntries with
  | zero => exact absurd hexpand (by simp [expandFrom])
  | succ turns ih =>
    have hgrow := lt_growth hpos
    rw [expandFrom] at hexpand
    dsimp only at hexpand
    split_ifs at hexpand with hmem hcopied
    · obtain ⟨hwf, hperm, hsalt, hlt, hle⟩ := ih (growth_pos hpos) hexpand
      exact ⟨hwf, hperm, hsalt, hgrow.trans hlt, hle⟩
    · obtain rfl := Option.some.inj hexpand
      obtain ⟨i, hi⟩ := Option.ne_none_iff_exists'.mp (by simpa using hcopied)
      obtain ⟨hblank, hnil⟩ := wf_blank (E := E) (α := α) t.hashSalt (growth_pos hpos)
      have hnodup : ((pairs t.entries.list ++
          (Slots.blank 0 (growth totalEntries) (growth_pos hpos) : Slots ℤ α).entries).map
            Prod.fst).Nodup := by
        rw [hnil, List.append_nil]
        exact h.sound.nodup
      obtain ⟨hwf, hperm, hsalt, hsize⟩ :=
        copyEntries_spec t.entries.list none _ hblank hnodup (Prod.ext hi rfl)
      rw [hnil, List.append_nil] at hperm
      rw [size_blank] at hsize
      exact ⟨hwf, hperm, hsalt, hgrow.trans_eq hsize.symm, hsize.trans_le (not_lt.mp hmem)⟩

theorem expandTable_spec {t t' : Hashtable α} (h : t.Wf E) (hexpand : expandTable E t = some t') :
    t'.Wf E ∧ t'.entries.entries.Perm t.entries.entries ∧ t'.hashSalt = t.hashSalt ∧
      t.entries.size < t'.entries.size ∧ t'.entries.size ≤ E.memLimit :=
  expandFrom_spec h t.entries.pos hexpand

/-- The loop of `expand_table` comes to its end by itself: more turns change nothing. -/
theorem expandFrom_turns (t : Hashtable α) {turns totalEntries : ℕ} (hpos : 0 < totalEntries)
    (h : E.memLimit < turns + totalEntries) (more : ℕ) :
    expandFrom E t (turns + more) totalEntries hpos = expandFrom E t turns totalEntries hpos := by
  have hgrow := lt_growth hpos
  induction turns generalizing totalEntries with
  | zero =>
    cases more with
    | zero => rfl
    | succ more =>
      rw [Nat.zero_add, expandFrom, expandFrom, if_pos (by omega)]
  | succ turns ih =>
    rw [Nat.add_right_comm, expandFrom, expandFrom]
    split_ifs with hmem
    · rfl
    · dsimp only
      rw [ih (growth_pos hpos) (by omega) (lt_growth (growth_pos hpos))]

theorem putFrom_spec {key : ℤ} {v : α} {turns : ℕ} {t : Hashtable α} (h : t.Wf E)
    (hkey : key ∉ t.entries.entries.map Prod.fst) :
    let put := putFrom E key (some v) turns t
    put.2.Wf E ∧
      (put.1 = plctagStatusOk ∧ put.2.entries.entries.Perm ((key, v) :: t.entries.entries) ∨
        put.1 = plctagErrNoMem ∧ put.2.entries.entries.Perm t.entries.entries) := by
  induction turns generalizing t with
  | zero => exact ⟨h, .inr ⟨rfl, .rfl⟩⟩
  | succ turns ih =>
    rw [putFrom]
    cases hfind : findEmpty E t key with
    | some index =>
      obtain ⟨hwf, hperm⟩ := h.place hfind hkey v
      exact ⟨hwf, .inl ⟨rfl, hperm⟩⟩
    | none =>
      cases hexpand : expandTable E t with
      | none => exact ⟨h, .inr ⟨rfl, .rfl⟩⟩
      | some t' =>
        obtain ⟨hwf, hperm, -⟩ := expandTable_spec h hexpand
        obtain ⟨hwf', hput⟩ := ih hwf (fun hmem => hkey ((hperm.map Prod.fst).subset hmem))
        refine ⟨hwf', hput.imp ?_ ?_⟩
        · exact fun ⟨hrc, hp⟩ => ⟨hrc, hp.trans (hperm.cons _)⟩
        · exact fun ⟨hrc, hp⟩ => ⟨hrc, hp.trans hperm⟩

/-- `hashtable_put` of a key that is not there: the entry is there afterwards, or there was no memory
and nothing is different but the size of the table. -/
theorem hashtablePut_spec {key : ℤ} {t : Hashtable α} (h : t.Wf E)
    (hkey : key ∉ t.entries.entries.map Prod.fst) (v : α) :
    let put := hashtablePut E t key (some v)
    put.2.Wf E ∧
      (put.1 = plctagStatusOk ∧ put.2.entries.entries.Perm ((key, v) :: t.entries.entries) ∨
        put.1 = plctagErrNoMem ∧ put.2.entries.entries.Perm t.entries.entries) :=
  putFrom_spec h hkey

theorem hashtablePut_of_findEmpty {t : Hashtable α} {key : ℤ} {index : ℕ}
    (hfind : findEmpty E t key = some index) (data : Option α) :
    hashtablePut E t key data = (plctagStatusOk,
      { t with entries := t.entries.set index ⟨key, data⟩, usedEntries := t.usedEntries + 1 }) := by
  rw [hashtablePut, putFrom, hfind]
  rfl

theorem exists_findEmpty {t : Hashtable α} (hempty : t.entries.entries = []) (key : ℤ) :
    ∃ index, findEmpty E t key = some index := by
  refine Option.ne_none_iff_exists'.mp fun hnone => ?_
  have hpos : 0 < t.entries.size := t.entries.pos
  obtain ⟨⟨key', data⟩, he⟩ : ∃ e, t.entries.list[(t.home E key + 0) % t.entries.size]? = some e :=
    ⟨_, List.getElem?_eq_getElem (Nat.mod_lt _ hpos)⟩
  have hused := seek_eq_none.mp hnone _ _ ⟨0, by decide, rfl⟩ he
  cases data with
  | none => exact absurd hused (by simp)
  | some v =>
    have hmem : (key', v) ∈ t.entries.entries := mem_pairs.mpr ⟨_, he⟩
    rw [hempty] at hmem
    exact absurd hmem List.not_mem_nil

theorem putFrom_turns (key : ℤ) (data : Option α) {t : Hashtable α} (h : t.Wf E) {turns : ℕ}
    (hturns : E.memLimit < turns + t.entries.size) (hle : t.entries.size ≤ E.memLimit)
    (more : ℕ) : putFrom E key data (turns + more) t = putFrom E key data turns t := by
  induction turns generalizing t with
  | zero => omega
  | succ turns ih =>
    rw [Nat.add_right_comm, putFrom, putFrom]
    congr 1
    cases hexpand : expandTable E t with
    | none => rfl
    | some t' =>
      obtain ⟨hwf, -, -, hlt, hmem⟩ := expandTable_spec h hexpand
      exact ih hwf (by omega) hmem

theorem findKey_eq_some {t : Hashtable α} (h : t.Wf E) {key : ℤ} (hkey : key ≠ 0) {index : ℕ}
    (hfind : findKey E t key = some index) :
    ∃ v, t.entries.list[index]? = some ⟨key, some v⟩ :=
  h.sound.seek_key hkey hfind

theorem hashtableGet_eq_some {t : Hashtable α} (h : t.Wf E) {key : ℤ} (hkey : key ≠ 0) {v : α} :
    hashtableGet E t key = some v ↔ (key, v) ∈ t.entries.entries := by
  rw [hashtableGet]
  cases hfind : findKey E t key with
  | none =>
    have hnone := (h.sound.seek_key_eq_none hkey).mp hfind
    exact ⟨fun hv => (nomatch hv), fun hmem => absurd (List.mem_map_of_mem hmem) hnone⟩
  | some index =>
    obtain ⟨w, hw⟩ := findKey_eq_some h hkey hfind
    have hmem : (key, w) ∈ t.entries.entries := mem_pairs.mpr ⟨index, hw⟩
    show (t.entries.list[index]?).bind Slot.data = some v ↔ _
    rw [hw]
    exact ⟨fun hv => Option.some.inj hv ▸ hmem,
      fun hv => congrArg some (h.sound.value_unique hmem hv)⟩

/-- `hashtable_remove` takes out the entry that `hashtable_get` finds, and nothing else. -/
theorem hashtableRemove_spec {t : Hashtable α} (h : t.Wf E) {key : ℤ} (hkey : key ≠ 0) :
    let removed := hashtableRemove E t key
    removed.1 = hashtableGet E t key ∧ removed.2.Wf E ∧
      t.entries.entries.Perm
        ((removed.1.map fun v => (key, v)).toList ++ removed.2.entries.entries) := by
  rw [hashtableRemove, hashtableGet]
  cases hfind : findKey E t key with
  | none => exact ⟨rfl, h, .rfl⟩
  | some index =>
    obtain ⟨v, hv⟩ := findKey_eq_some h hkey hfind
    obtain ⟨hsound, hperm⟩ := h.sound.clear hv
    refine ⟨rfl, ⟨hsound, ?_⟩, ?_⟩
    · show t.usedEntries - 1 = ((t.entries.set index ⟨0, none⟩).entries.length : ℤ)
      rw [h.used, hperm.length_eq, List.length_cons, Nat.cast_succ, add_sub_cancel_right]
    · show t.entries.entries.Perm
        ((((t.entries.list[index]?).bind Slot.data).map fun v => (key, v)).toList ++ _)
      rw [hv]
      exact hperm

theorem hashtableRemove_size (t : Hashtable α) (key : ℤ) :
    (hashtableRemove E t key).2.entries.size = t.entries.size := by
  rw [hashtableRemove]
  cases findKey E t key with
  | none => rfl
  | some index => exact size_set ..

theorem hashtableRemove_slot {t : Hashtable α} {key : ℤ} {j : ℕ} {e : Slot ℤ α}
    (he : (hashtableRemove E t key).2.entries.list[j]? = some e) :
    t.entries.list[j]? = some e ∨ e.data = none := by
  rw [hashtableRemove] at he
  cases hfind : findKey E t key with
  | none =>
    rw [hfind] at he
    exact .inl he
  | some index =>
    rw [hfind] at he
    replace he : (t.entries.list.set index ⟨0, none⟩)[j]? = some e := he
    rw [List.getElem?_set] at he
    split_ifs at he with hj hlt
    · exact .inr (Option.some.inj he ▸ rfl)
    · exact .inl he

theorem hashtableGetIndex_coe {t : Hashtable α} {index : ℕ} (h : index < t.entries.size) :
    hashtableGetIndex t index = t.entries.list[index]?.bind Slot.data := by
  rw [hashtableGetIndex, if_neg (by omega), Int.toNat_natCast]

end HashTable

/-! ## The table as a finite map -/

section Map
variable {α : Type} (E : HashEnv)

/-- The entries of the table are those of the map. -/
def Represents (t : Hashtable α) (m : ℤ → Option α) : Prop :=
  t.Wf E ∧ ∀ key v, m key = some v ↔ (key, v) ∈ t.entries.entries

variable {E} {t : Hashtable α} {m : ℤ → Option α}

theorem Represents.eq_none_iff (h : Represents E t m) {key : ℤ} :
    m key = none ↔ key ∉ t.entries.entries.map Prod.fst := by
  constructor
  · intro hnone hmem
    obtain ⟨⟨key', v⟩, hpair, rfl⟩ := List.mem_map.mp hmem
    rw [(h.2 key' v).mpr hpair] at hnone
    exact Option.some_ne_none v hnone
  · intro hmem
    cases hm : m key with
    | none => rfl
    | some v => exact absurd (List.mem_map_of_mem ((h.2 key v).mp hm)) hmem

theorem Represents.get (h : Represents E t m) {key : ℤ} (hkey : key ≠ 0) :
    hashtableGet E t key = m key :=
  Option.ext fun v => (hashtableGet_eq_some h.1 hkey).trans (h.2 key v).symm

/-- A key that is not there is not found, be it the key of the empty entries. -/
theorem Represents.get_eq_none (h : Represents E t m) {key : ℤ} (hnone : m key = none) :
    hashtableGet E t key = none := by
  cases hfind : findKey E t key with
  | none => rw [hashtableGet, hfind]; rfl
  | some index =>
    obtain ⟨-, ⟨key', data⟩, he, hkey⟩ := seek_eq_some hfind
    obtain rfl : key' = key := of_decide_eq_true hkey
    rw [hashtableGet, hfind, Option.bind_some, he]
    cases data with
    | none => rfl
    | some v =>
      exact absurd ((h.2 key' v).mpr (mem_pairs.mpr ⟨index, he⟩)) (by rw [hnone]; simp)

theorem Represents.put (h : Represents E t m) {key : ℤ} (hnone : m key = none) (v : α) :
    let put := hashtablePut E t key (some v)
    put.1 = plctagStatusOk ∧ Represents E put.2 (Function.update m key (some v)) ∨
      put.1 = plctagErrNoMem ∧ Represents E put.2 m := by
  obtain ⟨hwf, ⟨hrc, hperm⟩ | ⟨hrc, hperm⟩⟩ :=
    hashtablePut_spec h.1 (h.eq_none_iff.mp hnone) v
  · refine .inl ⟨hrc, hwf, fun key' w => ?_⟩
    rw [hperm.mem_iff, List.mem_cons, ← h.2 key' w]
    by_cases hkey : key' = key
    · subst hkey
      rw [Function.update_self, hnone]
      simp [eq_comm]
    · rw [Function.update_of_ne hkey]
      simp [hkey]
  · exact .inr ⟨hrc, hwf, fun key' w => (h.2 key' w).trans hperm.mem_iff.symm⟩

theorem Represents.remove (h : Represents E t m) {key : ℤ} (hkey : key ≠ 0) :
    let removed := hashtableRemove E t key
    removed.1 = m key ∧ Represents E removed.2 (Function.update m key none) := by
  obtain ⟨hget, hwf, hperm⟩ := hashtableRemove_spec h.1 hkey
  rw [hget, h.get hkey] at hperm
  refine ⟨hget.trans (h.get hkey), hwf, fun key' w => ?_⟩
  have hnodup := (hperm.map Prod.fst).nodup_iff.mp h.1.sound.nodup
  by_cases heq : key' = key
  · subst heq
    rw [Function.update_self]
    refine iff_of_false (by simp) fun hmem => ?_
    cases hm : m key' with
    | none =>
      refine h.eq_none_iff.mp hm (List.mem_map.mpr ⟨(key', w), hperm.mem_iff.mpr ?_, rfl⟩)
      exact List.mem_append_right _ hmem
    | some v =>
      rw [hm] at hnodup
      exact (List.nodup_cons.mp hnodup).1 (List.mem_map.mpr ⟨(key', w), hmem, rfl⟩)
  · rw [Function.update_of_ne heq, h.2 key' w, hperm.mem_iff, List.mem_append]
    refine or_iff_right fun hmem => heq ?_
    obtain ⟨v, -, hv⟩ := Option.map_eq_some_iff.mp (Option.mem_toList.mp hmem)
    exact (congrArg Prod.fst hv).symm

theorem Represents.nodup (h : Represents E t m) : t.entries.entries.Nodup :=
  h.1.sound.nodup.of_map _

theorem Represents.perm {t' : Hashtable α} (h : Represents E t m) (h' : Represents E t' m) :
    t'.entries.entries.Perm t.entries.entries :=
  (List.perm_ext_iff_of_nodup h'.nodup h.nodup).mpr fun e => (h'.2 e.1 e.2).symm.trans (h.2 e.1 e.2)

/-- A map with one more key is a table with one more entry. -/
theorem Represents.perm_update {t' : Hashtable α} (h : Represents E t m) {key : ℤ}
    (hnone : m key = none) {v : α} (h' : Represents E t' (Function.update m key (some v))) :
    t'.entries.entries.Perm ((key, v) :: t.entries.entries) := by
  have hkey : (key, v) ∉ t.entries.entries := fun hmem =>
    h.eq_none_iff.mp hnone (List.mem_map_of_mem hmem)
  refine (List.perm_ext_iff_of_nodup h'.nodup (List.nodup_cons.mpr ⟨hkey, h.nodup⟩)).mpr ?_
  rintro ⟨key', w⟩
  rw [← h'.2 key' w, List.mem_cons, ← h.2 key' w]
  by_cases heq : key' = key
  · subst heq
    rw [Function.update_self, hnone]
    simp [eq_comm]
  · rw [Function.update_of_ne heq]
    simp [heq]

theorem Represents.entries (h : Represents E t m) :
    hashtableEntries t = {key | m key ≠ none}.ncard := by
  have hset : {key | m key ≠ none} = ((t.entries.entries.map Prod.fst).toFinset : Set ℤ) := by
    ext key
    rw [Finset.mem_coe, List.mem_toFinset, Set.mem_ofPred_eq, ne_eq, h.eq_none_iff, not_not]
  rw [hset, Set.ncard_coe_finset, List.toFinset_card_of_nodup h.1.sound.nodup, List.length_map]
  exact h.1.used

theorem mem_of_hashtableGetIndex {index : ℤ} {v : α} (hget : hashtableGetIndex t index = some v) :
    ∃ key, (key, v) ∈ t.entries.entries := by
  rw [hashtableGetIndex] at hget
  split_ifs at hget
  obtain ⟨⟨key, data⟩, he, hdata⟩ := Option.bind_eq_some_iff.mp hget
  obtain rfl : data = some v := hdata
  exact ⟨key, mem_pairs.mpr ⟨_, he⟩⟩

theorem represents_create {salt : UInt32} {initialCapacity : ℤ}
    (hcreate : hashtableCreate E salt initialCapacity = some t) :
    Represents E t fun _ => none := by
  rw [hashtableCreate] at hcreate
  split_ifs at hcreate with hpos hmem
  obtain rfl := Option.some.inj hcreate
  obtain ⟨hwf, hempty⟩ := wf_blank (E := E) (α := α) salt (n := initialCapacity.toNat) (by omega)
  exact ⟨hwf, fun key v => iff_of_false (by simp) (by rw [hempty]; exact List.not_mem_nil)⟩

end Map

/-- Keys that are their own hash. -/
def plainEnv : HashEnv := ⟨fun key _ => UInt32.ofNat key.toNat, 1000⟩

end Plctagt.Tag
