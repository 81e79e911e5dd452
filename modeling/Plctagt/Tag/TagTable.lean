import Plctagt.Tag.HashTable

/-! # Handles

The table of tags of `lib.c`: `add_tag_lookup` gives a tag a handle, `plc_tag_destroy` takes it out.
For every sequence of calls the table is a map from the handles that are out to their tags; a new
handle is the first free one among the next fifty, so that none comes back for millions of tags. The
last handle of all is given out and cannot be destroyed.
-/
namespace Plctagt.Tag
open Probing Simulation
set_option autoImplicit false

abbrev plctagErrNoResources : ℤ := -24
abbrev plctagErrNullPtr : ℤ := -25

def initialTagTableSize : ℤ := 201
def tagIdMask : ℤ := 0xFFFFFFF
@[irreducible] def maxTagMapAttempts : ℕ := 50

/-- The static variables of `lib.c`. -/
structure TagTable (α : Type) where
  nextTagId : ℤ
  tags : Hashtable α

section TagTable
variable {α : Type} (E : HashEnv)

/-- What `lib_init` makes of them. -/
def libInit (salt : UInt32) : Option (TagTable α) :=
  (hashtableCreate E salt initialTagTableSize).map fun tags => ⟨10, tags⟩

/-- Skips zero, which looks like a `NULL` pointer. -/
def tagIdInc (id : ℤ) : ℤ :=
  let id := if id ≤ 0 then tagIdMask / 2 else id
  -- `& TAG_ID_MASK`
  let id := (id + 1) % (tagIdMask + 1)
  if id = 0 then 1 else id

/-- The loop of `add_tag_lookup` with so many attempts left: whether `new_id` is free. -/
def tryTagIds (tags : Hashtable α) : ℕ → ℤ → Bool × ℤ
  | 0, newId => (false, newId)
  | attempts + 1, newId =>
    let newId := tagIdInc newId
    if newId ≤ 0 then (false, newId)
    else if (hashtableGet E tags newId).isNone then (true, newId)
    else tryTagIds tags attempts newId

def addTagLookup (s : TagTable α) (tag : α) : ℤ × TagTable α :=
  let tried := tryTagIds E s.tags maxTagMapAttempts s.nextTagId
  if tried.1 then
    let put := hashtablePut E s.tags tried.2 (some tag)
    (if put.1 ≠ plctagStatusOk then put.1 else tried.2, ⟨tried.2, put.2⟩)
  else (plctagErrNoResources, ⟨tried.2, s.tags⟩)

/-- The test of the handle in `plc_tag_destroy`. -/
def Destroyable (tagId : ℤ) : Prop := ¬(tagId ≤ 0 ∨ tagIdMask ≤ tagId)

instance decidableDestroyable (tagId : ℤ) : Decidable (Destroyable tagId) :=
  inferInstanceAs (Decidable (¬_))

/-- How `plc_tag_destroy` begins: the result when it ends there, and the tag it goes on with. -/
def takeTag (s : TagTable α) (tagId : ℤ) : ℤ × Option α × TagTable α :=
  if Destroyable tagId then
    let removed := hashtableRemove E s.tags tagId
    (if removed.1.isNone then plctagErrNotFound else plctagStatusOk, removed.1, ⟨s.nextTagId, removed.2⟩)
  else (plctagErrNullPtr, none, s)

end TagTable

/-! ## The identifiers, one after another -/

theorem tagIdInc_of_pos {id : ℤ} (h : 0 < id) (hle : id ≤ tagIdMask) :
    tagIdInc id = if id = tagIdMask then 1 else id + 1 := by
  unfold tagIdInc tagIdMask at *
  dsimp only
  rw [if_neg (not_le.mpr h)]
  split_ifs <;> omega

theorem tagIdInc_bounds {id : ℤ} (h : 0 < id) (hle : id ≤ tagIdMask) :
    0 < tagIdInc id ∧ tagIdInc id ≤ tagIdMask := by
  rw [tagIdInc_of_pos h hle]
  unfold tagIdMask at *
  split_ifs <;> omega

theorem iterate_tagIdInc {id : ℤ} (h : 0 < id) (hle : id ≤ tagIdMask) (n : ℕ) :
    tagIdInc^[n] id = (id - 1 + n) % tagIdMask + 1 := by
  induction n with
  | zero =>
    show id = (id - 1 + (0 : ℕ)) % tagIdMask + 1
    unfold tagIdMask at *
    omega
  | succ n ih =>
    rw [Function.iterate_succ_apply', ih, tagIdInc_of_pos (by unfold tagIdMask; omega)
      (by unfold tagIdMask; omega)]
    unfold tagIdMask
    push_cast
    split_ifs <;> omega

theorem iterate_tagIdInc_bounds {id : ℤ} (h : 0 < id) (hle : id ≤ tagIdMask) (n : ℕ) :
    0 < tagIdInc^[n] id ∧ tagIdInc^[n] id ≤ tagIdMask := by
  rw [iterate_tagIdInc h hle]
  unfold tagIdMask
  omega

/-- No identifier comes back before all the others were there. -/
theorem iterate_tagIdInc_inj {id : ℤ} (h : 0 < id) (hle : id ≤ tagIdMask) {a b : ℕ} (hab : a < b)
    (hnear : (b : ℤ) - a < tagIdMask) : tagIdInc^[a] id ≠ tagIdInc^[b] id := by
  rw [iterate_tagIdInc h hle, iterate_tagIdInc h hle]
  unfold tagIdMask at *
  omega

/-! ## The handles that are out -/

/-- The last handle given out, and the tags behind the handles. -/
structure Live (α : Type) where
  next : ℤ
  tag : ℤ → Option α

inductive TagOp (α : Type) where
  | add (tag : α)
  | lookup (tagId : ℤ)
  | destroy (tagId : ℤ)

inductive TagReply (α : Type) where
  | code (rc : ℤ)
  | found (tag : Option α)
  | taken (rc : ℤ) (tag : Option α)

/-- The `n`th handle after the last one. -/
def Live.nth {α : Type} (l : Live α) (n : ℕ) : ℤ := tagIdInc^[n + 1] l.next

/-- What the calls are to do. A new handle is the first of the next fifty that is free. -/
inductive LiveStep {α : Type} (l : Live α) : TagOp α → TagReply α → Live α → Prop
  | add (tag : α) (n : ℕ) (hn : n < maxTagMapAttempts) (hbusy : ∀ i < n, l.tag (l.nth i) ≠ none)
      (hfree : l.tag (l.nth n) = none) :
      LiveStep l (.add tag) (.code (l.nth n)) ⟨l.nth n, Function.update l.tag (l.nth n) (some tag)⟩
  | noMem (tag : α) (n : ℕ) (hn : n < maxTagMapAttempts) :
      LiveStep l (.add tag) (.code plctagErrNoMem) ⟨l.nth n, l.tag⟩
  | noResources (tag : α) (hbusy : ∀ i < maxTagMapAttempts, l.tag (l.nth i) ≠ none) :
      LiveStep l (.add tag) (.code plctagErrNoResources)
        ⟨tagIdInc^[maxTagMapAttempts] l.next, l.tag⟩
  | lookup (tagId : ℤ) : LiveStep l (.lookup tagId) (.found (l.tag tagId)) l
  | destroy (tagId : ℤ) (h : Destroyable tagId) :
      LiveStep l (.destroy tagId)
        (.taken (if (l.tag tagId).isNone then plctagErrNotFound else plctagStatusOk) (l.tag tagId))
        ⟨l.next, Function.update l.tag tagId none⟩
  | refused (tagId : ℤ) (h : ¬Destroyable tagId) :
      LiveStep l (.destroy tagId) (.taken plctagErrNullPtr none) l

section Refinement
variable {α : Type} (E : HashEnv)

def tagStep (s : TagTable α) : TagOp α → TagReply α × TagTable α
  | .add tag => (.code (addTagLookup E s tag).1, (addTagLookup E s tag).2)
  | .lookup tagId => (.found (hashtableGet E s.tags tagId), s)
  | .destroy tagId => (.taken (takeTag E s tagId).1 (takeTag E s tagId).2.1, (takeTag E s tagId).2.2)

structure Tracks (s : TagTable α) (l : Live α) : Prop where
  next_eq : s.nextTagId = l.next
  next_pos : 0 < l.next
  next_le : l.next ≤ tagIdMask
  represents : Represents E s.tags l.tag
  bounds : ∀ tagId, l.tag tagId ≠ none → 0 < tagId ∧ tagId ≤ tagIdMask

variable {E} {s : TagTable α} {l : Live α}

theorem Live.nth_bounds (hpos : 0 < l.next) (hle : l.next ≤ tagIdMask) (n : ℕ) :
    0 < l.nth n ∧ l.nth n ≤ tagIdMask :=
  iterate_tagIdInc_bounds hpos hle (n + 1)

/-- A handle that is not out is not found, whatever it is. -/
theorem Tracks.get (h : Tracks E s l) (tagId : ℤ) : hashtableGet E s.tags tagId = l.tag tagId := by
  by_cases hzero : tagId = 0
  · subst hzero
    have hnone : l.tag 0 = none := by_contra fun hsome => absurd (h.bounds 0 hsome).1 (lt_irrefl 0)
    exact (h.represents.get_eq_none hnone).trans hnone.symm
  · exact h.represents.get hzero

theorem tryTagIds_spec {tags : Hashtable α} {m : ℤ → Option α}
    (hget : ∀ tagId, hashtableGet E tags tagId = m tagId) (attempts : ℕ) {newId : ℤ}
    (hpos : 0 < newId) (hle : newId ≤ tagIdMask) :
    (∃ n < attempts, tryTagIds E tags attempts newId = (true, tagIdInc^[n + 1] newId) ∧
      (∀ i < n, m (tagIdInc^[i + 1] newId) ≠ none) ∧ m (tagIdInc^[n + 1] newId) = none) ∨
    tryTagIds E tags attempts newId = (false, tagIdInc^[attempts] newId) ∧
      ∀ i < attempts, m (tagIdInc^[i + 1] newId) ≠ none := by
  induction attempts generalizing newId with
  | zero => exact .inr ⟨rfl, fun i hi => absurd hi (Nat.not_lt_zero i)⟩
  | succ attempts ih =>
    obtain ⟨hpos', hle'⟩ := tagIdInc_bounds hpos hle
    rw [tryTagIds, if_neg (not_le.mpr hpos'), hget]
    cases hm : m (tagIdInc newId) with
    | none => exact .inl ⟨0, Nat.succ_pos _, rfl, fun i hi => absurd hi (Nat.not_lt_zero i), hm⟩
    | some tag =>
      have hfirst : m (tagIdInc newId) ≠ none := by rw [hm]; exact Option.some_ne_none tag
      rw [if_neg (by simp)]
      rcases ih hpos' hle' with ⟨n, hn, htry, hbusy, hfree⟩ | ⟨htry, hbusy⟩
      · refine .inl ⟨n + 1, Nat.succ_lt_succ hn, htry, fun i hi => ?_, hfree⟩
        cases i with
        | zero => exact hfirst
        | succ i => exact hbusy i (Nat.lt_of_succ_lt_succ hi)
      · refine .inr ⟨htry, fun i hi => ?_⟩
        cases i with
        | zero => exact hfirst
        | succ i => exact hbusy i (Nat.lt_of_succ_lt_succ hi)

theorem Tracks.put (h : Tracks E s l) {newId : ℤ} (hpos : 0 < newId) (hle : newId ≤ tagIdMask)
    {tag : α} {tags : Hashtable α}
    (hput : Represents E tags (Function.update l.tag newId (some tag))) :
    Tracks E ⟨newId, tags⟩ ⟨newId, Function.update l.tag newId (some tag)⟩ := by
  refine ⟨rfl, hpos, hle, hput, fun tagId hid => ?_⟩
  by_cases heq : tagId = newId
  · exact heq ▸ ⟨hpos, hle⟩
  · replace hid : Function.update l.tag newId (some tag) tagId ≠ none := hid
    rw [Function.update_of_ne heq] at hid
    exact h.bounds tagId hid

theorem Tracks.add (h : Tracks E s l) (tag : α) :
    ∃ l', LiveStep l (.add tag) (.code (addTagLookup E s tag).1) l' ∧
      Tracks E (addTagLookup E s tag).2 l' := by
  have hpos := h.next_pos
  have hle := h.next_le
  rcases tryTagIds_spec h.get maxTagMapAttempts hpos hle with
    ⟨n, hn, htry, hbusy, hfree⟩ | ⟨htry, hbusy⟩
  · replace hfree : l.tag (l.nth n) = none := hfree
    obtain ⟨hpos', hle'⟩ := Live.nth_bounds hpos hle n
    have hadd : addTagLookup E s tag =
        (if (hashtablePut E s.tags (l.nth n) (some tag)).1 ≠ plctagStatusOk then
            (hashtablePut E s.tags (l.nth n) (some tag)).1 else l.nth n,
          ⟨l.nth n, (hashtablePut E s.tags (l.nth n) (some tag)).2⟩) := by
      rw [addTagLookup, h.next_eq, htry]
      rfl
    rw [hadd]
    rcases h.represents.put hfree tag with ⟨hrc, hput⟩ | ⟨hrc, hput⟩
    · rw [if_neg (not_not.mpr hrc)]
      exact ⟨_, .add tag n hn hbusy hfree, h.put hpos' hle' hput⟩
    · rw [if_pos (by rw [hrc]; decide), hrc]
      exact ⟨_, .noMem tag n hn, rfl, hpos', hle', hput, h.bounds⟩
  · have hadd : addTagLookup E s tag =
        (plctagErrNoResources, ⟨tagIdInc^[maxTagMapAttempts] l.next, s.tags⟩) := by
      rw [addTagLookup, h.next_eq, htry]
      exact if_neg Bool.false_ne_true
    obtain ⟨hpos', hle'⟩ := iterate_tagIdInc_bounds hpos hle maxTagMapAttempts
    rw [hadd]
    exact ⟨_, .noResources tag hbusy, rfl, hpos', hle', h.represents, h.bounds⟩

theorem Tracks.erase (h : Tracks E s l) {tagId : ℤ} (hne : tagId ≠ 0) :
    Tracks E ⟨s.nextTagId, (hashtableRemove E s.tags tagId).2⟩
      ⟨l.next, Function.update l.tag tagId none⟩ := by
  refine ⟨h.next_eq, h.next_pos, h.next_le, (h.represents.remove hne).2, fun id hout => ?_⟩
  replace hout : Function.update l.tag tagId none id ≠ none := hout
  by_cases heq : id = tagId
  · exact absurd (by rw [heq, Function.update_self]) hout
  · rw [Function.update_of_ne heq] at hout
    exact h.bounds id hout

theorem Tracks.destroy (h : Tracks E s l) (tagId : ℤ) :
    ∃ l', LiveStep l (.destroy tagId) (.taken (takeTag E s tagId).1 (takeTag E s tagId).2.1) l' ∧
      Tracks E (takeTag E s tagId).2.2 l' := by
  by_cases hid : Destroyable tagId
  · have hne : tagId ≠ 0 := fun hzero => hid (.inl hzero.le)
    have hfound := (h.represents.remove hne).1
    rw [takeTag, if_pos hid]
    dsimp only
    rw [hfound]
    exact ⟨_, .destroy tagId hid, h.erase hne⟩
  · rw [takeTag, if_neg hid]
    exact ⟨l, .refused tagId hid, h⟩

theorem Tracks.step (h : Tracks E s l) (op : TagOp α) :
    ∃ l', LiveStep l op (tagStep E s op).1 l' ∧ Tracks E (tagStep E s op).2 l' := by
  cases op with
  | add tag => exact h.add tag
  | lookup tagId => exact ⟨l, by rw [tagStep, h.get]; exact .lookup tagId, h⟩
  | destroy tagId => exact h.destroy tagId

theorem LiveStep.added {l l' : Live α} {tag : α} {rc : ℤ}
    (h : LiveStep l (.add tag) (.code rc) l') (hrc : 0 ≤ rc) :
    l.tag rc = none ∧ l'.tag = Function.update l.tag rc (some tag) := by
  cases h with
  | add _ n hn hbusy hfree => exact ⟨hfree, rfl⟩
  | noMem => exact absurd hrc (by decide)
  | noResources => exact absurd hrc (by decide)

theorem LiveStep.not_added {l l' : Live α} {tag : α} {rc : ℤ}
    (h : LiveStep l (.add tag) (.code rc) l') (hpos : 0 < l.next)
    (hle : l.next ≤ tagIdMask) (hrc : rc < 0) : l'.tag = l.tag := by
  cases h with
  | add _ n hn hbusy hfree => exact absurd hrc (Live.nth_bounds hpos hle n).1.not_gt
  | noMem => rfl
  | noResources => rfl

/-- What `plc_tag_destroy` takes is behind the handle. -/
theorem takeTag_eq_some (h : Tracks E s l) {id : ℤ} {tag : α}
    (htake : (takeTag E s id).2.1 = some tag) :
    l.tag id = some tag ∧
      (takeTag E s id).2.2 = ⟨s.nextTagId, (hashtableRemove E s.tags id).2⟩ := by
  unfold takeTag at *
  split_ifs at * with hid
  have hne : id ≠ 0 := fun hzero => hid (.inl hzero.le)
  exact ⟨(h.represents.remove hne).1.symm.trans htake, rfl⟩

theorem takeTag_of_out (h : Tracks E s l) {id : ℤ} (hid : Destroyable id) {tag : α}
    (hout : l.tag id = some tag) :
    takeTag E s id = (plctagStatusOk, some tag, ⟨s.nextTagId, (hashtableRemove E s.tags id).2⟩) := by
  have hne : id ≠ 0 := fun hzero => hid (.inl hzero.le)
  have hfound := (h.represents.remove hne).1.trans hout
  rw [takeTag, if_pos hid]
  dsimp only
  rw [hfound]
  rfl

/-- Nothing is out after `lib_init`. -/
def Live.init : Live α := ⟨10, fun _ => none⟩

theorem tracks_init {salt : UInt32} (hinit : libInit E salt = some s) : Tracks E s Live.init := by
  obtain ⟨tags, hcreate, rfl⟩ := Option.map_eq_some_iff.mp hinit
  exact ⟨rfl, show (0 : ℤ) < 10 by decide, show (10 : ℤ) ≤ tagIdMask by decide,
    represents_create hcreate, fun _ hid => absurd rfl hid⟩

theorem Tracks.calls (h : Tracks E s l) (ops : List (TagOp α)) :
    ∃ l', Explains LiveStep l ops (run (tagStep E) s ops).1 l' ∧
      Tracks E (run (tagStep E) s ops).2 l' :=
  refines (C := fun _ _ => True) (fun _ _ op h _ => h.step op) h
    (allowed_of_forall _ (fun _ _ => trivial) s ops)

end Refinement

def plainTable : TagTable ℕ := ⟨10, ⟨0, 0, Slots.blank 0 201 (by decide)⟩⟩

theorem libInit_plain : libInit plainEnv 0 = some plainTable := rfl

section Fresh
variable {α : Type}

def TagOp.isAdd : TagOp α → Bool
  | .add _ => true
  | _ => false

/-- A handle that was given out. -/
def TagReply.handle : TagReply α → Option ℤ
  | .code rc => if 0 < rc then some rc else none
  | _ => none

/-- The loop of `add_tag_lookup` goes at most fifty identifiers on, and a new handle is the one it
comes to. -/
theorem LiveStep.advance {l l' : Live α} {op : TagOp α} {r : TagReply α} (h : LiveStep l op r l')
    (hpos : 0 < l.next) (hle : l.next ≤ tagIdMask) :
    ∃ k, l'.next = tagIdInc^[k] l.next ∧ k ≤ (if op.isAdd then 50 else 0) ∧
      (r.handle = none ∨ 0 < k ∧ r.handle = some l'.next) := by
  have hattempts : maxTagMapAttempts = 50 := by unfold maxTagMapAttempts; rfl
  cases h with
  | add tag n hn hbusy hfree =>
    refine ⟨n + 1, rfl, by rw [hattempts] at hn; exact hn, .inr ⟨Nat.succ_pos n, ?_⟩⟩
    exact if_pos (Live.nth_bounds hpos hle n).1
  | noMem tag n hn => exact ⟨n + 1, rfl, by rw [hattempts] at hn; exact hn, .inl rfl⟩
  | noResources tag hbusy => exact ⟨maxTagMapAttempts, rfl, hattempts.le, .inl rfl⟩
  | lookup tagId => exact ⟨0, rfl, Nat.zero_le _, .inl rfl⟩
  | destroy tagId h => exact ⟨0, rfl, Nat.zero_le _, .inl rfl⟩
  | refused tagId h => exact ⟨0, rfl, Nat.zero_le _, .inl rfl⟩

/-- The handles of a run are the identifiers at growing distances from the start. -/
theorem explains_handles {l l' : Live α} {ops : List (TagOp α)} {rs : List (TagReply α)}
    (h : Explains LiveStep l ops rs l') {id : ℤ} (hpos : 0 < id) (hle : id ≤ tagIdMask) {d : ℕ}
    (hd : l.next = tagIdInc^[d] id) :
    ∃ ds : List ℕ, rs.filterMap TagReply.handle = ds.map (tagIdInc^[·] id) ∧ ds.Pairwise (· < ·) ∧
      ∀ e ∈ ds, d < e ∧ e ≤ d + 50 * ops.countP TagOp.isAdd := by
  induction h generalizing d with
  | nil l => exact ⟨[], rfl, .nil, fun e he => absurd he List.not_mem_nil⟩
  | @cons l l₁ l₂ op r ops rs hstep hrest ih =>
    obtain ⟨hpos', hle'⟩ := hd ▸ iterate_tagIdInc_bounds hpos hle d
    obtain ⟨k, hk, hsmall, hhandle⟩ := hstep.advance hpos' hle'
    have hd₁ : l₁.next = tagIdInc^[k + d] id := by
      rw [Function.iterate_add_apply, ← hd]
      exact hk
    obtain ⟨ds, hds, hsorted, hbounds⟩ := ih hd₁
    have hcount : 50 * (op :: ops).countP TagOp.isAdd =
        50 * ops.countP TagOp.isAdd + if op.isAdd then 50 else 0 := by
      rw [List.countP_cons]
      split_ifs <;> omega
    have htail : ∀ e ∈ ds, d + k < e ∧ e ≤ d + 50 * (op :: ops).countP TagOp.isAdd := by
      intro e he
      obtain ⟨hlow, hhigh⟩ := hbounds e he
      omega
    rcases hhandle with hnone | ⟨hk0, hsome⟩
    · refine ⟨ds, by rw [List.filterMap_cons_none hnone, hds], hsorted, fun e he => ?_⟩
      exact ⟨(Nat.le_add_right d k).trans_lt (htail e he).1, (htail e he).2⟩
    · refine ⟨(k + d) :: ds, ?_, List.pairwise_cons.mpr ⟨fun e he => ?_, hsorted⟩, fun e he => ?_⟩
      · rw [List.filterMap_cons_some hsome, hds, hd₁, List.map_cons]
      · exact (Nat.add_comm k d).trans_lt (htail e he).1
      · rcases List.mem_cons.mp he with rfl | he
        · omega
        · exact ⟨(Nat.le_add_right d k).trans_lt (htail e he).1, (htail e he).2⟩

theorem nodup_of_explains {l l' : Live α} {ops : List (TagOp α)} {rs : List (TagReply α)}
    (h : Explains LiveStep l ops rs l') (hpos : 0 < l.next) (hle : l.next ≤ tagIdMask)
    (hfew : 50 * (ops.countP TagOp.isAdd : ℤ) ≤ tagIdMask) :
    (rs.filterMap TagReply.handle).Nodup := by
  obtain ⟨ds, hds, hsorted, hbounds⟩ := explains_handles h hpos hle (d := 0) rfl
  rw [hds]
  refine List.pairwise_map.mpr (hsorted.imp_of_mem fun {a b} ha hb hab => ?_)
  have hlow := (hbounds a ha).1
  have hhigh := (hbounds b hb).2
  exact iterate_tagIdInc_inj hpos hle hab (by omega)

variable {E : HashEnv} {s : TagTable α}

/-- Up to 5368709 tags may be created before a handle is given out twice, whatever is destroyed in
between. -/
theorem handles_nodup {salt : UInt32} (hinit : libInit E salt = some s) {ops : List (TagOp α)}
    (hfew : 50 * (ops.countP TagOp.isAdd : ℤ) ≤ tagIdMask) :
    ((run (tagStep E) s ops).1.filterMap TagReply.handle).Nodup := by
  obtain ⟨l, hrun, -⟩ := (tracks_init hinit).calls ops
  exact nodup_of_explains hrun (show (0 : ℤ) < 10 by decide) (show (10 : ℤ) ≤ tagIdMask by decide) hfew

theorem handles_nodup_plain :
    let ops : List (TagOp ℕ) := [.add 5, .destroy 11, .add 6, .add 7]
    ((run (tagStep plainEnv) plainTable ops).1.filterMap TagReply.handle).Nodup :=
  handles_nodup libInit_plain (by decide)

end Fresh

/-! ## The last handle -/

section Last
variable {α : Type} {E : HashEnv} {s : TagTable α} {l : Live α}

theorem Tracks.destroys_iff (h : Tracks E s l) {tagId : ℤ} (hout : l.tag tagId ≠ none) :
    (takeTag E s tagId).1 = plctagStatusOk ↔ tagId ≠ tagIdMask := by
  obtain ⟨hpos, hle⟩ := h.bounds tagId hout
  by_cases hid : Destroyable tagId
  · have hfound := (h.represents.remove hpos.ne').1
    rw [takeTag, if_pos hid]
    dsimp only
    rw [hfound, if_neg (by simpa using hout)]
    exact iff_of_true rfl fun heq => hid (.inr heq.ge)
  · rw [takeTag, if_neg hid]
    have hmask : tagIdMask ≤ tagId := (not_not.mp hid).resolve_left (not_le.mpr hpos)
    have hrc : plctagErrNullPtr ≠ plctagStatusOk := by decide
    exact iff_of_false hrc (not_not.mpr (le_antisymm hle hmask))

/-- With no handle out there is room for a tag, and the next identifier is free. -/
theorem Tracks.add_first (h : Tracks E s l) (hnone : ∀ tagId, l.tag tagId = none) (tag : α) :
    Tracks E (addTagLookup E s tag).2
      ⟨tagIdInc l.next, Function.update l.tag (tagIdInc l.next) (some tag)⟩ := by
  have hempty : s.tags.entries.entries = [] := by
    refine List.eq_nil_iff_forall_not_mem.mpr fun ⟨key, v⟩ hmem => ?_
    exact absurd ((h.represents.2 key v).mpr hmem) (by rw [hnone]; simp)
  obtain ⟨index, hindex⟩ := exists_findEmpty (E := E) hempty (tagIdInc l.next)
  have hput := hashtablePut_of_findEmpty hindex (some tag)
  obtain ⟨hpos, hle⟩ := tagIdInc_bounds h.next_pos h.next_le
  have htry : tryTagIds E s.tags maxTagMapAttempts s.nextTagId = (true, tagIdInc l.next) := by
    rw [show maxTagMapAttempts = 49 + 1 by unfold maxTagMapAttempts; rfl, tryTagIds, h.next_eq,
      if_neg (not_le.mpr hpos), h.get, hnone]
    rfl
  have hadd : (addTagLookup E s tag).2 =
      ⟨tagIdInc l.next, (hashtablePut E s.tags (tagIdInc l.next) (some tag)).2⟩ := by
    rw [addTagLookup, htry]
    rfl
  rw [hadd]
  rcases h.represents.put (hnone _) tag with ⟨-, hrepresents⟩ | ⟨hrc, -⟩
  · exact h.put hpos hle hrepresents
  · rw [hput] at hrc
    exact absurd hrc (by simp)

theorem LiveStep.destroyed {l l' : Live α} {tagId : ℤ} {r : TagReply α}
    (h : LiveStep l (.destroy tagId) r l') (hid : Destroyable tagId) :
    l' = ⟨l.next, Function.update l.tag tagId none⟩ := by
  cases h with
  | destroy => rfl
  | refused _ hrefused => exact absurd hid hrefused

/-- Tags created and destroyed, one after another. -/
def inTurn (tag : α) (next : ℤ) : ℕ → List (TagOp α)
  | 0 => []
  | n + 1 => .add tag :: .destroy (tagIdInc next) :: inTurn tag (tagIdInc next) n

theorem Tracks.inTurn (h : Tracks E s l) (hnone : ∀ tagId, l.tag tagId = none) (tag : α) {n : ℕ}
    (hn : l.next + n < tagIdMask) :
    ∃ l', Tracks E (run (tagStep E) s (inTurn tag l.next n)).2 l' ∧ l'.next = l.next + n ∧
      ∀ tagId, l'.tag tagId = none := by
  induction n generalizing s l with
  | zero => exact ⟨l, h, (add_zero _).symm, hnone⟩
  | succ n ih =>
    push_cast at hn
    have hadd := h.add_first hnone tag
    have hnext : tagIdInc l.next = l.next + 1 := by
      rw [tagIdInc_of_pos h.next_pos h.next_le, if_neg (by omega)]
    obtain ⟨l₁, hstep, htracks⟩ := hadd.destroy (tagIdInc l.next)
    have hid : Destroyable (tagIdInc l.next) := by
      have hpos := h.next_pos
      rw [hnext, Destroyable]
      omega
    obtain rfl := hstep.destroyed hid
    have hcleared : ∀ tagId, Function.update (Function.update l.tag (tagIdInc l.next) (some tag))
        (tagIdInc l.next) none tagId = none := by
      intro tagId
      rw [Function.update_idem]
      exact congrFun (Function.update_eq_self_iff.mpr (hnone _).symm) tagId |>.trans (hnone tagId)
    obtain ⟨l', htracks', hnext', hnone'⟩ := ih htracks hcleared (by
      show tagIdInc l.next + (n : ℤ) < tagIdMask
      omega)
    refine ⟨l', htracks', hnext'.trans ?_, hnone'⟩
    show tagIdInc l.next + (n : ℤ) = l.next + (n + 1 : ℕ)
    push_cast
    omega

/-- Every tag that is out can be destroyed but the one behind `TAG_ID_MASK`, and there is a run that
gives that handle out. -/
theorem plcTagDestroy_destroys_iff {salt : UInt32} (hinit : libInit E salt = some s) (tag : α) :
    (∀ ops tagId, let s' := (run (tagStep E) s ops).2
      hashtableGet E s'.tags tagId ≠ none →
        ((takeTag E s' tagId).1 = plctagStatusOk ↔ tagId ≠ tagIdMask)) ∧
    ∃ ops, hashtableGet E (run (tagStep E) s ops).2.tags tagIdMask = some tag := by
  constructor
  · intro ops tagId s' hout
    obtain ⟨l, -, htracks⟩ := (tracks_init hinit).calls ops
    rw [htracks.get] at hout
    exact htracks.destroys_iff hout
  · have hinit' := tracks_init hinit
    obtain ⟨n, hn⟩ : ∃ n : ℕ, (10 : ℤ) + n + 1 = tagIdMask := ⟨268435444, by decide⟩
    obtain ⟨l, htracks, hnext, hnone⟩ := hinit'.inTurn (fun _ => rfl) tag (n := n)
      (show (10 : ℤ) + n < tagIdMask by omega)
    replace hnext : l.next = 10 + n := hnext
    have hlast : tagIdInc l.next = tagIdMask := by
      rw [tagIdInc_of_pos htracks.next_pos htracks.next_le, if_neg (by omega), hnext, hn]
    have hadd := htracks.add_first hnone tag
    rw [hlast] at hadd
    refine ⟨inTurn tag 10 n ++ [.add tag], ?_⟩
    rw [run_append]
    refine (hadd.get tagIdMask).trans ?_
    show Function.update l.tag tagIdMask (some tag) tagIdMask = some tag
    rw [Function.update_self]

theorem plcTagDestroy_destroys_plain :
    ∃ ops, hashtableGet plainEnv (run (tagStep plainEnv) plainTable ops).2.tags tagIdMask = some 5 :=
  (plcTagDestroy_destroys_iff libInit_plain 5).2

end Last
end Plctagt.Tag
