import Plctagt.Foundations.RefCount
import Plctagt.Tag.TagTable

/-! # How long a tag lives

The critical sections of `lib.c` that move references to tags, taken in any order by any number of
threads. The table has one reference to each tag in it, and a thread has those that it took and did
not give back; a thread in `plc_tag_create_ex` also uses the tag it has just put into the table. A tag
is freed with its last reference, so that no thread ever uses a freed one, as long as no thread
destroys a handle that `plc_tag_create` has not returned yet.
-/
namespace Plctagt.Tag
open Probing Simulation RefCount
set_option autoImplicit false

section RefCounts
variable {π : Type} [DecidableEq π]

/-- `rc_inc`, which takes no reference to an object whose count is gone; `none` as well when the
object is freed, where C reads freed memory. -/
def rcInc (heap : Heap π ℤ) (p : π) : Option (Heap π ℤ) :=
  (heap p).bind fun o =>
    if 0 < o.count then some (Function.update heap p (some { o with count := o.count + 1 })) else none

/-- `rc_dec`, which frees the object when nothing is left of its count. -/
def rcDec (heap : Heap π ℤ) (p : π) : Option (Heap π ℤ) :=
  (heap p).bind fun o =>
    if 0 < o.count then
      some (Function.update heap p
        (if o.count - 1 = 0 then none else some { o with count := o.count - 1 }))
    else none

variable {heap : Heap π ℤ} {owners : Multiset π} {p : π}

theorem Balanced.rcInc (h : Balanced heap owners) (hp : p ∈ owners) :
    ∃ heap', Tag.rcInc heap p = some heap' ∧ Balanced heap' (p ::ₘ owners) := by
  obtain ⟨o, ho⟩ := h.exists_object hp
  refine ⟨_, ?_, h.retain ho⟩
  rw [Tag.rcInc, ho]
  exact if_pos (h.count_pos ho)

theorem Balanced.rcDec (h : Balanced heap owners) (hp : p ∈ owners) :
    ∃ heap', Tag.rcDec heap p = some heap' ∧ Balanced heap' (owners.erase p) := by
  obtain ⟨o, ho⟩ := h.exists_object hp
  refine ⟨_, ?_, h.release ho⟩
  rw [Tag.rcDec, ho]
  exact if_pos (h.count_pos ho)

theorem rcInc_value {heap' : Heap π ℤ} (h : rcInc heap p = some heap') (q : π) :
    (heap' q).map Counted.value = (heap q).map Counted.value := by
  obtain ⟨o, ho, hinc⟩ := Option.bind_eq_some_iff.mp h
  split_ifs at hinc
  obtain rfl := Option.some.inj hinc
  by_cases hq : q = p
  · rw [hq, Function.update_self, ho]
    rfl
  · rw [Function.update_of_ne hq]

theorem rcDec_value {heap' : Heap π ℤ} (h : rcDec heap p = some heap') {q : π}
    (hq : heap' q ≠ none) : (heap' q).map Counted.value = (heap q).map Counted.value := by
  obtain ⟨o, ho, hdec⟩ := Option.bind_eq_some_iff.mp h
  split_ifs at hdec with hpos hlast
  all_goals
    obtain rfl := Option.some.inj hdec
    by_cases heq : q = p
    · subst heq
      rw [Function.update_self] at hq ⊢
      first | exact absurd rfl hq | rw [ho]; rfl
    · rw [Function.update_of_ne heq]

end RefCounts

/-! ## The threads -/

/-- The tags in memory, each with its `tag_id`, and the table; the tags that threads have constructed
and not yet put into the table, the references that threads took from it, and the tags that threads in
`plc_tag_create_ex` have put there. -/
structure SharedTags (τ π : Type) where
  heap : Heap π ℤ
  table : TagTable π
  built : List (τ × π)
  held : List (τ × π)
  making : List (τ × π × ℤ)

section TagStep
variable {τ π : Type} [DecidableEq τ] [DecidableEq π] (E : HashEnv)

/-- `tag->tag_id`. -/
def SharedTags.tagId (w : SharedTags τ π) (p : π) : Option ℤ := (w.heap p).map Counted.value

/-- `lookup_tag`, less the new reference. -/
def SharedTags.lookupTag (w : SharedTags τ π) (id : ℤ) : Option π :=
  (hashtableGet E w.table.tags id).filter fun p => w.tagId p = some id

/-- One critical section of one thread. -/
inductive TagStep (w : SharedTags τ π) : SharedTags τ π → Prop
  /-- The constructor of a protocol: `rc_alloc` anywhere where no tag is. -/
  | construct (t : τ) (p : π) (hfree : w.heap p = none) :
      TagStep w { w with
        heap := Function.update w.heap p (some ⟨1, 0⟩),
        built := (t, p) :: w.built }
  /-- The attributes do not fit; the tag is given up. -/
  | discard (t : τ) (p : π) (hbuilt : (t, p) ∈ w.built) :
      TagStep w { w with built := w.built.erase (t, p), held := (t, p) :: w.held }
  /-- `add_tag_lookup` passes the reference on to the table. -/
  | map (t : τ) (p : π) (hbuilt : (t, p) ∈ w.built) (hid : 0 ≤ (addTagLookup E w.table p).1) :
      TagStep w { w with
        table := (addTagLookup E w.table p).2,
        built := w.built.erase (t, p),
        making := (t, p, (addTagLookup E w.table p).1) :: w.making }
  | mapFailed (t : τ) (p : π) (hbuilt : (t, p) ∈ w.built)
      (hid : (addTagLookup E w.table p).1 < 0) :
      TagStep w { w with
        table := (addTagLookup E w.table p).2,
        built := w.built.erase (t, p),
        held := (t, p) :: w.held }
  /-- `tag->tag_id = id`. -/
  | name (t : τ) (p : π) (id : ℤ) (hmaking : (t, p, id) ∈ w.making) :
      TagStep w { w with
        heap := Function.update w.heap p ((w.heap p).map fun o => { o with value := id }) }
  /-- `plc_tag_create_ex` returns the handle. -/
  | created (t : τ) (p : π) (id : ℤ) (hmaking : (t, p, id) ∈ w.making)
      (hnamed : w.tagId p = some id) : TagStep w { w with making := w.making.erase (t, p, id) }
  /-- The tag failed: it is taken out of the table, by its `tag_id`. -/
  | failed (t : τ) (p : π) (id : ℤ) (hmaking : (t, p, id) ∈ w.making)
      (hnamed : w.tagId p = some id) :
      TagStep w { w with
        table := ⟨w.table.nextTagId, (hashtableRemove E w.table.tags id).2⟩,
        held := (t, p) :: w.held,
        making := w.making.erase (t, p, id) }
  | lookup (t : τ) (id : ℤ) (p : π) (heap : Heap π ℤ) (hget : w.lookupTag E id = some p)
      (hinc : rcInc w.heap p = some heap) : TagStep w { w with heap := heap, held := (t, p) :: w.held }
  /-- The tickler and `plc_tag_shutdown` go through the table by index. -/
  | take (t : τ) (index : ℤ) (p : π) (heap : Heap π ℤ)
      (hget : hashtableGetIndex w.table.tags index = some p) (hinc : rcInc w.heap p = some heap) :
      TagStep w { w with heap := heap, held := (t, p) :: w.held }
  /-- `plc_tag_destroy` of a handle that was returned takes the reference of the table over. -/
  | destroy (t : τ) (id : ℤ) (p : π) (hreturned : ∀ m ∈ w.making, m.2.2 ≠ id)
      (htake : (takeTag E w.table id).2.1 = some p) :
      TagStep w { w with table := (takeTag E w.table id).2.2, held := (t, p) :: w.held }
  /-- `rc_dec` of a reference the thread has. -/
  | release (t : τ) (p : π) (heap : Heap π ℤ) (hheld : (t, p) ∈ w.held)
      (hdec : rcDec w.heap p = some heap) :
      TagStep w { w with heap := heap, held := w.held.erase (t, p) }

/-- After `lib_init`. -/
def SharedTags.init (table : TagTable π) : SharedTags τ π := ⟨fun _ => none, table, [], [], []⟩

/-- The first references of the tags, in the table or on the way there. -/
def first (table : TagTable π) (built : List (τ × π)) : Multiset π :=
  (table.tags.entries.entries.map Prod.snd : List π) + (built.map Prod.snd : List π)

/-- The references there are. -/
def SharedTags.owners (w : SharedTags τ π) : Multiset π :=
  first w.table w.built + (w.held.map Prod.snd : List π)

/-- What every critical section keeps. A tag in the table has its handle as `tag_id`, unless the
thread that made it is about to write it. -/
structure SharedTags.Inv (w : SharedTags τ π) (l : Live π) : Prop where
  tracks : Tracks E w.table l
  balanced : Balanced w.heap w.owners
  once : (first w.table w.built).Nodup
  named : ∀ id p, l.tag id = some p → (∃ t, (t, p, id) ∈ w.making) ∨ w.tagId p = some id
  making : ∀ m ∈ w.making, l.tag m.2.2 = some m.2.1
  nodup : (w.making.map fun m => m.2.2).Nodup

/-! ## References that change hands -/

variable {E} {table table' : TagTable π} {l l' : Live π}

omit [DecidableEq π] [DecidableEq τ] in
theorem coe_map_cons (t : τ) (p : π) (refs : List (τ × π)) :
    ((((t, p) :: refs).map Prod.snd : List π) : Multiset π) = p ::ₘ (refs.map Prod.snd : List π) :=
  rfl

theorem coe_map_erase {t : τ} {p : π} {refs : List (τ × π)} (h : (t, p) ∈ refs) :
    ((refs.map Prod.snd : List π) : Multiset π) =
      p ::ₘ ((refs.erase (t, p)).map Prod.snd : List π) :=
  Multiset.coe_eq_coe.mpr ((List.perm_cons_erase h).map Prod.snd)

omit [DecidableEq τ] [DecidableEq π] in
theorem Tracks.first_put (h : Tracks E table l) (h' : Tracks E table' l') {id : ℤ} {p : π}
    (hnone : l.tag id = none) (hput : l'.tag = Function.update l.tag id (some p))
    (built : List (τ × π)) : first table' built = p ::ₘ first table built := by
  have hperm := h.represents.perm_update hnone (hput ▸ h'.represents)
  have hcoe : ((table'.tags.entries.entries.map Prod.snd : List π) : Multiset π) =
      p ::ₘ (table.tags.entries.entries.map Prod.snd : List π) :=
    Multiset.coe_eq_coe.mpr (hperm.map Prod.snd)
  rw [first, hcoe, Multiset.cons_add]
  rfl

omit [DecidableEq τ] [DecidableEq π] in
theorem Tracks.first_eq (h : Tracks E table l) (h' : Tracks E table' l') (htag : l'.tag = l.tag)
    (built : List (τ × π)) : first table' built = first table built := by
  have hperm := h.represents.perm (htag ▸ h'.represents)
  rw [first, Multiset.coe_eq_coe.mpr (hperm.map Prod.snd)]
  rfl

theorem first_erase {t : τ} {p : π} {built : List (τ × π)} (h : (t, p) ∈ built) :
    first table built = p ::ₘ first table (built.erase (t, p)) := by
  rw [first, coe_map_erase h, Multiset.add_cons]
  rfl

/-! ## What every critical section keeps -/

variable {w : SharedTags τ π} {t : τ} {p : π} {id : ℤ}

omit [DecidableEq τ] in
theorem SharedTags.Inv.mem_first (h : w.Inv E l) (hid : l.tag id = some p) :
    p ∈ first w.table w.built := by
  refine Multiset.mem_add.mpr (.inl (Multiset.mem_coe.mpr ?_))
  exact List.mem_map.mpr ⟨(id, p), (h.tracks.represents.2 id p).mp hid, rfl⟩

omit [DecidableEq τ] in
theorem SharedTags.Inv.mem_owners (h : w.Inv E l) (hid : l.tag id = some p) : p ∈ w.owners :=
  Multiset.mem_add.mpr (.inl (h.mem_first hid))

omit [DecidableEq τ] [DecidableEq π] in
theorem SharedTags.held_mem_owners (hheld : (t, p) ∈ w.held) : p ∈ w.owners :=
  Multiset.mem_add.mpr (.inr (Multiset.mem_coe.mpr (List.mem_map.mpr ⟨(t, p), hheld, rfl⟩)))

omit [DecidableEq τ] in
theorem SharedTags.Inv.construct (h : w.Inv E l) (t : τ) (hfree : w.heap p = none) :
    SharedTags.Inv E { w with
      heap := Function.update w.heap p (some ⟨1, 0⟩), built := (t, p) :: w.built } l := by
  have hnot : p ∉ w.owners := fun hmem => h.balanced.mem_iff.mp hmem hfree
  have hfirst : first w.table ((t, p) :: w.built) = p ::ₘ first w.table w.built := by
    rw [first, coe_map_cons, Multiset.add_cons]
    rfl
  refine ⟨h.tracks, ?_, ?_, fun id q hid => ?_, h.making, h.nodup⟩
  · have howners : SharedTags.owners { w with
        heap := Function.update w.heap p (some ⟨1, 0⟩), built := (t, p) :: w.built } =
        p ::ₘ w.owners := by
      rw [SharedTags.owners, SharedTags.owners, hfirst, Multiset.cons_add]
    rw [howners]
    exact h.balanced.alloc hfree 0
  · rw [hfirst]
    exact Multiset.nodup_cons.mpr ⟨fun hmem => hnot (Multiset.mem_add.mpr (.inl hmem)), h.once⟩
  · have hne : q ≠ p := fun heq => hnot (heq ▸ h.mem_owners hid)
    refine (h.named id q hid).imp_right fun hq => ?_
    show (Function.update w.heap p (some ⟨1, 0⟩) q).map Counted.value = some id
    rwa [Function.update_of_ne hne]

/-- A tag that is not put into the table: its first reference is one to give back. -/
theorem SharedTags.Inv.giveUp (h : w.Inv E l) (hbuilt : (t, p) ∈ w.built) {l' : Live π}
    (htracks : Tracks E table' l') (htag : l'.tag = l.tag)
    (hfirst : ∀ built : List (τ × π), first table' built = first w.table built) :
    SharedTags.Inv E { w with
      table := table', built := w.built.erase (t, p), held := (t, p) :: w.held } l' := by
  have hcons : first w.table w.built = p ::ₘ first w.table (w.built.erase (t, p)) :=
    first_erase hbuilt
  refine ⟨htracks, ?_, ?_, htag ▸ h.named, htag ▸ h.making, h.nodup⟩
  · have howners : SharedTags.owners { w with
        table := table', built := w.built.erase (t, p), held := (t, p) :: w.held } = w.owners := by
      rw [SharedTags.owners, SharedTags.owners, hfirst, hcons, coe_map_cons, Multiset.add_cons,
        Multiset.cons_add]
    rw [howners]
    exact h.balanced
  · have honce := h.once
    rw [hcons] at honce
    rw [hfirst]
    exact (Multiset.nodup_cons.mp honce).2

omit [DecidableEq τ] in
theorem SharedTags.Inv.retain (h : w.Inv E l) (t : τ) (hp : p ∈ w.owners) {heap : Heap π ℤ}
    (hinc : rcInc w.heap p = some heap) :
    SharedTags.Inv E { w with heap := heap, held := (t, p) :: w.held } l := by
  obtain ⟨heap', hinc', hbalanced⟩ := Balanced.rcInc h.balanced hp
  obtain rfl := Option.some.inj (hinc.symm.trans hinc')
  refine ⟨h.tracks, ?_, h.once, fun id q hid => ?_, h.making, h.nodup⟩
  · have howners : SharedTags.owners { w with heap := heap, held := (t, p) :: w.held } =
        p ::ₘ w.owners := by
      rw [SharedTags.owners, SharedTags.owners, coe_map_cons, Multiset.add_cons]
    rw [howners]
    exact hbalanced
  · rw [SharedTags.tagId, rcInc_value hinc]
    exact h.named id q hid

theorem SharedTags.Inv.release (h : w.Inv E l) (hheld : (t, p) ∈ w.held) {heap : Heap π ℤ}
    (hdec : rcDec w.heap p = some heap) :
    SharedTags.Inv E { w with heap := heap, held := w.held.erase (t, p) } l := by
  obtain ⟨heap', hdec', hbalanced⟩ := Balanced.rcDec h.balanced (SharedTags.held_mem_owners hheld)
  obtain rfl := Option.some.inj (hdec.symm.trans hdec')
  have howners : w.owners.erase p =
      SharedTags.owners { w with heap := heap, held := w.held.erase (t, p) } := by
    rw [SharedTags.owners, SharedTags.owners, coe_map_erase hheld, Multiset.add_cons,
      Multiset.erase_cons_head]
  rw [howners] at hbalanced
  refine ⟨h.tracks, hbalanced, h.once, fun id q hid => ?_, h.making, h.nodup⟩
  have hq : heap q ≠ none :=
    hbalanced.mem_iff.mp (Multiset.mem_add.mpr (.inl (h.mem_first hid)))
  rw [SharedTags.tagId, rcDec_value hdec hq]
  exact h.named id q hid

/-- A tag is put into the table; the thread goes on with it. -/
theorem SharedTags.Inv.map (h : w.Inv E l) (hbuilt : (t, p) ∈ w.built) {l' : Live π}
    (htracks : Tracks E table' l') (hnone : l.tag id = none)
    (hput : l'.tag = Function.update l.tag id (some p)) :
    SharedTags.Inv E { w with
      table := table', built := w.built.erase (t, p), making := (t, p, id) :: w.making } l' := by
  have hfirst : first table' (w.built.erase (t, p)) = first w.table w.built := by
    rw [h.tracks.first_put htracks hnone hput, first_erase hbuilt]
  have hother : ∀ {id' q}, id' ≠ id → l'.tag id' = some q → l.tag id' = some q := by
    intro id' q hne hid'
    rwa [hput, Function.update_of_ne hne] at hid'
  have hmaking : ∀ m ∈ w.making, m.2.2 ≠ id := fun m hm heq =>
    absurd (h.making m hm) (by rw [heq, hnone]; simp)
  refine ⟨htracks, ?_, hfirst ▸ h.once, fun id' q hid' => ?_, fun m hm => ?_, ?_⟩
  · rw [SharedTags.owners, hfirst]
    exact h.balanced
  · by_cases heq : id' = id
    · rw [heq, hput, Function.update_self] at hid'
      exact .inl ⟨t, heq ▸ Option.some.inj hid' ▸ List.mem_cons_self⟩
    · refine (h.named id' q (hother heq hid')).imp_left ?_
      exact fun ⟨t', ht'⟩ => ⟨t', List.mem_cons_of_mem _ ht'⟩
  · rcases List.mem_cons.mp hm with rfl | hm
    · rw [hput, Function.update_self]
    · rw [hput, Function.update_of_ne (hmaking m hm)]
      exact h.making m hm
  · refine List.nodup_cons.mpr ⟨fun hmem => ?_, h.nodup⟩
    obtain ⟨m, hm, heq⟩ := List.mem_map.mp hmem
    exact hmaking m hm heq

omit [DecidableEq τ] in
/-- A tag is taken out of the table, and the thread has the reference of the table to give back. -/
theorem SharedTags.Inv.takeOut (h : w.Inv E l) (hout : l.tag id = some p) {l' : Live π}
    (htracks : Tracks E table' l') (htag : l'.tag = Function.update l.tag id none)
    {making : List (τ × π × ℤ)} (hsub : making.Sublist w.making)
    (hkept : ∀ m ∈ w.making, m.2.2 ≠ id → m ∈ making) (hgone : ∀ m ∈ making, m.2.2 ≠ id) (t : τ) :
    SharedTags.Inv E { w with table := table', held := (t, p) :: w.held, making := making } l' := by
  have hnone : l'.tag id = none := by rw [htag, Function.update_self]
  have hback : l.tag = Function.update l'.tag id (some p) := by
    rw [htag, Function.update_idem, Function.update_eq_self_iff.mpr hout.symm]
  have hcons := htracks.first_put h.tracks hnone hback w.built
  refine ⟨htracks, ?_, ?_, fun id' q hid' => ?_, fun m hm => ?_, ?_⟩
  · have howners : SharedTags.owners { w with
        table := table', held := (t, p) :: w.held, making := making } = w.owners := by
      rw [SharedTags.owners, SharedTags.owners, hcons, coe_map_cons, Multiset.add_cons, Multiset.cons_add]
    rw [howners]
    exact h.balanced
  · have honce := h.once
    rw [hcons] at honce
    exact (Multiset.nodup_cons.mp honce).2
  · have hne : id' ≠ id := fun heq => absurd hid' (by rw [heq, hnone]; simp)
    rw [htag, Function.update_of_ne hne] at hid'
    exact (h.named id' q hid').imp_left fun ⟨t', ht'⟩ => ⟨t', hkept _ ht' hne⟩
  · rw [htag, Function.update_of_ne (hgone m hm)]
    exact h.making m (hsub.subset hm)
  · exact h.nodup.sublist (hsub.map _)

omit [DecidableEq τ] in
theorem SharedTags.Inv.tagId_of_done (h : w.Inv E l) (hmaking : w.making = []) (hid : l.tag id = some p) :
    w.tagId p = some id :=
  (h.named id p hid).resolve_left fun ⟨t, ht⟩ => by rw [hmaking] at ht; nomatch ht

omit [DecidableEq τ] in
/-- A tag is in the table under one handle only. -/
theorem SharedTags.Inv.id_unique (h : w.Inv E l) {id' : ℤ} (hid : l.tag id = some p)
    (hid' : l.tag id' = some p) : id = id' := by
  have hnodup : (w.table.tags.entries.entries.map Prod.snd).Nodup :=
    Multiset.coe_nodup.mp (Multiset.nodup_of_le (Multiset.le_add_right _ _) h.once)
  have hrep := h.tracks.represents.2
  exact congrArg Prod.fst
    (List.inj_on_of_nodup_map hnodup ((hrep id p).mp hid) ((hrep id' p).mp hid') rfl)

omit [DecidableEq τ] in
theorem SharedTags.Inv.name (h : w.Inv E l) (hmaking : (t, p, id) ∈ w.making) :
    SharedTags.Inv E { w with
      heap := Function.update w.heap p ((w.heap p).map fun o => { o with value := id }) } l := by
  have hid : l.tag id = some p := h.making _ hmaking
  obtain ⟨o, ho⟩ := h.balanced.exists_object (h.mem_owners hid)
  rw [ho]
  refine ⟨h.tracks, h.balanced.write ho id, h.once, fun id' q hid' => ?_, h.making, h.nodup⟩
  by_cases hq : q = p
  · obtain rfl := h.id_unique hid (hq ▸ hid')
    exact .inl ⟨t, hq ▸ hmaking⟩
  · refine (h.named id' q hid').imp_right fun hval => ?_
    show (Function.update w.heap p (some { o with value := id }) q).map Counted.value = some id'
    rwa [Function.update_of_ne hq]

theorem SharedTags.Inv.step (h : w.Inv E l) {w' : SharedTags τ π} (hstep : TagStep E w w') :
    ∃ l', w'.Inv E l' := by
  cases hstep with
  | construct t p hfree => exact ⟨l, h.construct t hfree⟩
  | discard t p hbuilt => exact ⟨l, h.giveUp hbuilt h.tracks rfl fun _ => rfl⟩
  | map t p hbuilt hid =>
    obtain ⟨l', hadd, htracks⟩ := h.tracks.add p
    obtain ⟨hnone, hput⟩ := hadd.added hid
    exact ⟨l', h.map hbuilt htracks hnone hput⟩
  | mapFailed t p hbuilt hid =>
    obtain ⟨l', hadd, htracks⟩ := h.tracks.add p
    have htag := hadd.not_added h.tracks.next_pos h.tracks.next_le hid
    exact ⟨l', h.giveUp hbuilt htracks htag (h.tracks.first_eq htracks htag)⟩
  | name t p id hmaking => exact ⟨l, h.name hmaking⟩
  | created t p id hmaking hnamed =>
    refine ⟨l, h.tracks, h.balanced, h.once, fun id' q hid' => ?_, fun m hm => ?_, ?_⟩
    · by_cases heq : id' = id
      · subst heq
        obtain rfl := Option.some.inj ((h.making _ hmaking).symm.trans hid')
        exact .inr hnamed
      · refine (h.named id' q hid').imp_left fun ⟨t', ht'⟩ => ⟨t', ?_⟩
        exact (List.mem_erase_of_ne fun hm => heq (congrArg (fun m => m.2.2) hm)).mpr ht'
    · exact h.making m (List.mem_of_mem_erase hm)
    · exact h.nodup.sublist (List.erase_sublist.map _)
  | failed t p id hmaking hnamed =>
    have hout : l.tag id = some p := h.making _ hmaking
    have hne : id ≠ 0 := (h.tracks.bounds id (by rw [hout]; simp)).1.ne'
    refine ⟨_, h.takeOut hout (h.tracks.erase hne) rfl List.erase_sublist
      (fun m hm hid => (List.mem_erase_of_ne fun heq => hid (by rw [heq])).mpr hm) (fun m hm => ?_) t⟩
    have hcons := ((List.perm_cons_erase hmaking).map fun m => m.2.2).nodup_iff.mp h.nodup
    exact fun heq => (List.nodup_cons.mp hcons).1 (List.mem_map.mpr ⟨m, hm, heq⟩)
  | lookup t id p heap hget hinc =>
    have hid := (h.tracks.get id).symm.trans (Option.filter_eq_some_iff.mp hget).1
    exact ⟨l, h.retain t (h.mem_owners hid) hinc⟩
  | take t index p heap hget hinc =>
    obtain ⟨id, hid⟩ := mem_of_hashtableGetIndex hget
    exact ⟨l, h.retain t (h.mem_owners ((h.tracks.represents.2 id p).mpr hid)) hinc⟩
  | destroy t id p hreturned htake =>
    obtain ⟨hout, htable⟩ := takeTag_eq_some h.tracks htake
    have hne : id ≠ 0 := (h.tracks.bounds id (by rw [hout]; simp)).1.ne'
    rw [htable]
    exact ⟨_, h.takeOut hout (h.tracks.erase hne) rfl (List.Sublist.refl _) (fun m hm _ => hm)
      hreturned t⟩
  | release t p heap hheld hdec => exact ⟨l, h.release hheld hdec⟩

omit [DecidableEq τ] in
theorem inv_init {salt : UInt32} (hinit : libInit E salt = some table) :
    SharedTags.Inv E (SharedTags.init table : SharedTags τ π) Live.init := by
  have hempty : table.tags.entries.entries = [] := by
    refine List.eq_nil_iff_forall_not_mem.mpr fun ⟨id, p⟩ hmem => ?_
    exact absurd (((tracks_init hinit).represents.2 id p).mpr hmem) (by simp [Live.init])
  refine ⟨tracks_init hinit, ?_, ?_, fun id p hid => (nomatch hid), fun m hm => (nomatch hm), .nil⟩
  · have howners : (SharedTags.init table : SharedTags τ π).owners = 0 := by
      rw [SharedTags.owners, first, SharedTags.init, hempty]
      rfl
    rw [howners]
    exact balanced_empty
  · rw [first, SharedTags.init, hempty]
    exact Multiset.nodup_zero

theorem reachable_inv {salt : UInt32} (hinit : libInit E salt = some table)
    (hrun : Relation.ReflTransGen (TagStep E) (SharedTags.init table) w) : ∃ l, w.Inv E l := by
  induction hrun with
  | refl => exact ⟨_, inv_init hinit⟩
  | tail _ hstep ih =>
    obtain ⟨l, h⟩ := ih
    exact h.step hstep

/-! ## Runs that are played -/

/-- A critical section and the thread that takes it. -/
inductive TagMove (τ π : Type) where
  | construct (t : τ) (p : π)
  | discard (t : τ) (p : π)
  | map (t : τ) (p : π)
  | name (t : τ) (p : π) (id : ℤ)
  | created (t : τ) (p : π) (id : ℤ)
  | failed (t : τ) (p : π) (id : ℤ)
  | lookup (t : τ) (id : ℤ)
  | take (t : τ) (index : ℤ)
  | destroy (t : τ) (id : ℤ)
  | release (t : τ) (p : π)

/-- `none` when the thread cannot be there. -/
def SharedTags.move (E : HashEnv) (w : SharedTags τ π) : TagMove τ π → Option (SharedTags τ π)
  | .construct t p =>
    if (w.heap p).isNone then
      some { w with heap := Function.update w.heap p (some ⟨1, 0⟩), built := (t, p) :: w.built }
    else none
  | .discard t p =>
    if (t, p) ∈ w.built then
      some { w with built := w.built.erase (t, p), held := (t, p) :: w.held }
    else none
  | .map t p =>
    let (id, table) := addTagLookup E w.table p
    if (t, p) ∈ w.built then
      if 0 ≤ id then
        some { w with
          table := table, built := w.built.erase (t, p), making := (t, p, id) :: w.making }
      else
        some { w with table := table, built := w.built.erase (t, p), held := (t, p) :: w.held }
    else none
  | .name t p id =>
    if (t, p, id) ∈ w.making then
      some { w with
        heap := Function.update w.heap p ((w.heap p).map fun o => { o with value := id }) }
    else none
  | .created t p id =>
    if (t, p, id) ∈ w.making ∧ w.tagId p = some id then
      some { w with making := w.making.erase (t, p, id) }
    else none
  | .failed t p id =>
    if (t, p, id) ∈ w.making ∧ w.tagId p = some id then
      some { w with
        table := ⟨w.table.nextTagId, (hashtableRemove E w.table.tags id).2⟩,
        held := (t, p) :: w.held,
        making := w.making.erase (t, p, id) }
    else none
  | .lookup t id =>
    (w.lookupTag E id).bind fun p =>
      (rcInc w.heap p).map fun heap => { w with heap := heap, held := (t, p) :: w.held }
  | .take t index =>
    (hashtableGetIndex w.table.tags index).bind fun p =>
      (rcInc w.heap p).map fun heap => { w with heap := heap, held := (t, p) :: w.held }
  | .destroy t id =>
    let (_, tag, table) := takeTag E w.table id
    if ∀ m ∈ w.making, m.2.2 ≠ id then
      tag.map fun p => { w with table := table, held := (t, p) :: w.held }
    else none
  | .release t p =>
    if (t, p) ∈ w.held then
      (rcDec w.heap p).map fun heap => { w with heap := heap, held := w.held.erase (t, p) }
    else none

theorem tagStep_move {m : TagMove τ π} {w' : SharedTags τ π} (h : w.move E m = some w') :
    TagStep E w w' := by
  cases m with
  | construct t p =>
    obtain ⟨hfree, ⟨⟩⟩ := Option.ite_none_right_eq_some.mp h
    exact .construct t p (Option.isNone_iff_eq_none.mp hfree)
  | discard t p =>
    obtain ⟨hbuilt, ⟨⟩⟩ := Option.ite_none_right_eq_some.mp h
    exact .discard t p hbuilt
  | map t p =>
    obtain ⟨hbuilt, h⟩ := Option.ite_none_right_eq_some.mp h
    split_ifs at h with hid
    · obtain rfl := Option.some.inj h
      exact .map t p hbuilt hid
    · obtain rfl := Option.some.inj h
      exact .mapFailed t p hbuilt (not_le.mp hid)
  | name t p id =>
    obtain ⟨hmaking, ⟨⟩⟩ := Option.ite_none_right_eq_some.mp h
    exact .name t p id hmaking
  | created t p id =>
    obtain ⟨⟨hmaking, hnamed⟩, ⟨⟩⟩ := Option.ite_none_right_eq_some.mp h
    exact .created t p id hmaking hnamed
  | failed t p id =>
    obtain ⟨⟨hmaking, hnamed⟩, ⟨⟩⟩ := Option.ite_none_right_eq_some.mp h
    exact .failed t p id hmaking hnamed
  | lookup t id =>
    obtain ⟨p, hget, h⟩ := Option.bind_eq_some_iff.mp h
    obtain ⟨heap, hinc, rfl⟩ := Option.map_eq_some_iff.mp h
    exact .lookup t id p heap hget hinc
  | take t index =>
    obtain ⟨p, hget, h⟩ := Option.bind_eq_some_iff.mp h
    obtain ⟨heap, hinc, rfl⟩ := Option.map_eq_some_iff.mp h
    exact .take t index p heap hget hinc
  | destroy t id =>
    obtain ⟨hreturned, h⟩ := Option.ite_none_right_eq_some.mp h
    obtain ⟨p, htake, rfl⟩ := Option.map_eq_some_iff.mp h
    exact .destroy t id p hreturned htake
  | release t p =>
    obtain ⟨hheld, h⟩ := Option.ite_none_right_eq_some.mp h
    obtain ⟨heap, hdec, rfl⟩ := Option.map_eq_some_iff.mp h
    exact .release t p heap hheld hdec

theorem reached_moves {ms : List (TagMove τ π)} {w' : SharedTags τ π}
    (h : ms.foldlM (SharedTags.move E) w = some w') : Relation.ReflTransGen (TagStep E) w w' := by
  induction ms generalizing w with
  | nil =>
    obtain rfl := Option.some.inj h
    exact .refl
  | cons m ms ih =>
    obtain ⟨w₁, hmove, h⟩ := Option.bind_eq_some_iff.mp h
    exact .head (tagStep_move hmove) (ih h)

/-- Three tags get handles. The first one is looked up, the second one destroyed by a thread that
still uses it; a fourth one is constructed. -/
def plainMoves : List (TagMove ℕ ℕ) :=
  [.construct 0 7, .map 0 7, .name 0 7 11, .created 0 7 11, .lookup 2 11,
    .construct 1 8, .map 1 8, .name 1 8 12, .created 1 8 12, .destroy 1 12,
    .construct 0 6, .map 0 6, .name 0 6 13, .created 0 6 13, .construct 1 9]

theorem exists_plainTags : ∃ w : SharedTags ℕ ℕ,
    Relation.ReflTransGen (TagStep plainEnv) (SharedTags.init plainTable) w ∧
      w.built = [(1, 9)] ∧ w.held = [(1, 8), (2, 7)] ∧ w.making = [] ∧
      [11, 12, 13, tagIdMask].map (hashtableGet plainEnv w.table.tags) =
        [some 7, none, some 6, none] := by
  have hend : (plainMoves.foldlM (SharedTags.move plainEnv) (SharedTags.init plainTable)).map
      (fun w => ((w.built, w.held), w.making.length,
        [11, 12, 13, tagIdMask].map (hashtableGet plainEnv w.table.tags))) =
      some (([(1, 9)], [(1, 8), (2, 7)]), 0, [some 7, none, some 6, none]) := by decide +kernel
  obtain ⟨w, hw, hval⟩ := Option.map_eq_some_iff.mp hend
  obtain ⟨hrefs, hval⟩ := Prod.mk.inj hval
  obtain ⟨hbuilt, hheld⟩ := Prod.mk.inj hrefs
  obtain ⟨hmaking, hfound⟩ := Prod.mk.inj hval
  exact ⟨w, reached_moves hw, hbuilt, hheld, List.length_eq_zero_iff.mp hmaking, hfound⟩

/-! ## What threads can rely on -/

/-- Whatever the threads do, and in whatever order: every tag that a thread may use is in memory, and
every `rc_inc` of a tag in the table and every `rc_dec` finds a count. -/
theorem no_use_after_free {salt : UInt32} (hinit : libInit E salt = some table)
    (hrun : Relation.ReflTransGen (TagStep E) (SharedTags.init table) w) :
    (∀ t p, (t, p) ∈ w.built ∨ (t, p) ∈ w.held → rcDec w.heap p ≠ none) ∧
    (∀ t p id, (t, p, id) ∈ w.making → w.heap p ≠ none) ∧
    (∀ id p, hashtableGet E w.table.tags id = some p → rcInc w.heap p ≠ none) ∧
    ∀ index p, hashtableGetIndex w.table.tags index = some p → rcInc w.heap p ≠ none := by
  obtain ⟨l, h⟩ := reachable_inv hinit hrun
  have hinc : ∀ {id p}, l.tag id = some p → rcInc w.heap p ≠ none := by
    intro id p hid
    obtain ⟨heap, hinc, -⟩ := Balanced.rcInc h.balanced (h.mem_owners hid)
    exact Option.ne_none_iff_exists'.mpr ⟨heap, hinc⟩
  refine ⟨fun t p href => ?_, fun t p id hmaking => ?_, fun id p hget => ?_, fun index p hget => ?_⟩
  · have hp : p ∈ w.owners := by
      refine href.elim (fun hbuilt => ?_) SharedTags.held_mem_owners
      rw [SharedTags.owners, first_erase hbuilt]
      exact Multiset.mem_add.mpr (.inl (Multiset.mem_cons_self p _))
    obtain ⟨heap, hdec, -⟩ := Balanced.rcDec h.balanced hp
    exact Option.ne_none_iff_exists'.mpr ⟨heap, hdec⟩
  · exact h.balanced.mem_iff.mp (h.mem_owners (h.making _ hmaking))
  · exact hinc ((h.tracks.get id).symm.trans hget)
  · obtain ⟨id, hid⟩ := mem_of_hashtableGetIndex hget
    exact hinc ((h.tracks.represents.2 id p).mpr hid)

theorem no_use_after_free_plain : ∃ w : SharedTags ℕ ℕ,
    Relation.ReflTransGen (TagStep plainEnv) (SharedTags.init plainTable) w ∧
      rcDec w.heap 7 ≠ none ∧ rcDec w.heap 8 ≠ none ∧ rcInc w.heap 6 ≠ none := by
  obtain ⟨w, hrun, hbuilt, hheld, hmaking, hfound⟩ := exists_plainTags
  obtain ⟨hrefs, -, hget, -⟩ := no_use_after_free libInit_plain hrun
  simp only [List.map_cons, List.cons.injEq] at hfound
  refine ⟨w, hrun, hrefs 2 7 (.inr ?_), hrefs 1 8 (.inr ?_), hget 13 6 hfound.2.2.1⟩
  · rw [hheld]
    exact .tail _ (.head _)
  · rw [hheld]
    exact .head _

omit [DecidableEq τ] in
theorem count_refs {β : Type} (refs : List (β × π)) (p : π) :
    ((refs.map Prod.snd : List π) : Multiset π).count p = refs.countP fun r => r.2 = p := by
  rw [Multiset.coe_count, List.count, List.countP_map]
  exact List.countP_congr fun r _ => by simp

omit [DecidableEq τ] in
theorem SharedTags.Inv.mem_owners_iff (h : w.Inv E l) : p ∈ w.owners ↔
    (∃ id, hashtableGet E w.table.tags id = some p) ∨ ∃ t, (t, p) ∈ w.built ∨ (t, p) ∈ w.held := by
  rw [SharedTags.owners, first]
  simp only [Multiset.mem_add, Multiset.mem_coe, List.mem_map, Prod.exists, exists_eq_right,
    h.tracks.get, h.tracks.represents.2]
  rw [or_assoc, exists_or]

/-- A tag is in memory just as long as it is in the table or a thread has a reference to it, and its
count is the number of those references. -/
theorem freed_with_last_reference {salt : UInt32} (hinit : libInit E salt = some table)
    (hrun : Relation.ReflTransGen (TagStep E) (SharedTags.init table) w) (p : π) :
    ((w.heap p).map Counted.count).getD 0 =
      w.table.tags.entries.entries.countP (fun e => e.2 = p) + w.built.countP (fun r => r.2 = p) +
        w.held.countP (fun r => r.2 = p) ∧
    (w.heap p ≠ none ↔ (∃ id, hashtableGet E w.table.tags id = some p) ∨
      ∃ t, (t, p) ∈ w.built ∨ (t, p) ∈ w.held) := by
  obtain ⟨l, h⟩ := reachable_inv hinit hrun
  constructor
  · rw [h.balanced p, SharedTags.owners, first, Multiset.count_add, Multiset.count_add, count_refs,
      count_refs, count_refs, counted]
    split_ifs with hzero
    · exact hzero.symm
    · rfl
  · rw [← h.balanced.mem_iff, h.mem_owners_iff]

/-- The tag behind handle 11 has two references, the one that was destroyed has one left. -/
theorem freed_with_last_reference_plain : ∃ w : SharedTags ℕ ℕ,
    Relation.ReflTransGen (TagStep plainEnv) (SharedTags.init plainTable) w ∧
      w.heap 7 ≠ none ∧ ((w.heap 8).map Counted.count).getD 0 =
        w.table.tags.entries.entries.countP (fun e => e.2 = 8) + 0 + 1 := by
  obtain ⟨w, hrun, hbuilt, hheld, hmaking, hfound⟩ := exists_plainTags
  simp only [List.map_cons, List.cons.injEq] at hfound
  have hseven := (freed_with_last_reference libInit_plain hrun 7).2.mpr (.inl ⟨11, hfound.1⟩)
  have height := (freed_with_last_reference libInit_plain hrun 8).1
  rw [hbuilt, hheld] at height
  exact ⟨w, hrun, hseven, height⟩

end TagStep

/-! ## Shutdown -/

section Shutdown
variable {τ π : Type} [DecidableEq τ] [DecidableEq π] (E : HashEnv)

/-- One turn of the loop of `plc_tag_shutdown`; nothing comes of it when it uses a freed tag. -/
def shutdownTurn (s : Heap π ℤ × TagTable π) (index : ℕ) : Option (Heap π ℤ × TagTable π) :=
  (hashtableGetIndex s.2.tags index).elim (some s) fun p =>
    (rcInc s.1 p).bind fun heap =>
      ((heap p).map Counted.value).bind fun tagId =>
        -- `plc_tag_destroy`
        let taken := takeTag E s.2 tagId
        (taken.2.1.elim (some heap) (rcDec heap)).bind fun heap =>
          (rcDec heap p).map fun heap => (heap, taken.2.2)

/-- `plc_tag_shutdown`, when no thread puts a tag into the table meanwhile. -/
def plcTagShutdown (s : Heap π ℤ × TagTable π) : Option (Heap π ℤ × TagTable π) :=
  (List.range (hashtableCapacity s.2.tags).toNat).foldlM (shutdownTurn E) s

variable {E} {w : SharedTags τ π} {l : Live π}

/-- The slots before `index` hold nothing but the tag behind `TAG_ID_MASK`. -/
def Swept (table : TagTable π) (index : ℕ) : Prop :=
  ∀ j < index, ∀ key p, table.tags.entries.list[j]? = some ⟨key, some p⟩ → key = tagIdMask

omit [DecidableEq τ] in
theorem shutdownTurn_eq {s : Heap π ℤ × TagTable π} {index : ℕ} {p : π} {heap₁ heap₂ heap₃ : Heap π ℤ}
    {tagId rc : ℤ} {tag : Option π} {table : TagTable π}
    (hget : hashtableGetIndex s.2.tags index = some p) (hinc : rcInc s.1 p = some heap₁)
    (hnamed : (heap₁ p).map Counted.value = some tagId)
    (htake : takeTag E s.2 tagId = (rc, tag, table))
    (hfirst : tag.elim (some heap₁) (rcDec heap₁) = some heap₂)
    (hlast : rcDec heap₂ p = some heap₃) : shutdownTurn E s index = some (heap₃, table) := by
  rw [shutdownTurn, hget, Option.elim_some, hinc, Option.bind_some, hnamed, Option.bind_some, htake]
  dsimp only
  rw [hfirst, Option.bind_some, hlast, Option.map_some]

/-- A tag that can be destroyed: the reference of the table goes, and then the one taken here. -/
theorem shutdownTurn_destroys (h : w.Inv E l) (hmaking : w.making = []) (t : τ) {index : ℕ} {key : ℤ}
    {p : π} (hslot : hashtableGetIndex w.table.tags index = some p) (hid : l.tag key = some p)
    (hkey : Destroyable key) :
    ∃ heap, shutdownTurn E (w.heap, w.table) index =
        some (heap, ⟨w.table.nextTagId, (hashtableRemove E w.table.tags key).2⟩) ∧
      SharedTags.Inv E { w with
        heap := heap, table := ⟨w.table.nextTagId, (hashtableRemove E w.table.tags key).2⟩ }
        ⟨l.next, Function.update l.tag key none⟩ := by
  obtain ⟨heap₁, hinc, -⟩ := Balanced.rcInc h.balanced (h.mem_owners hid)
  have hnamed : (heap₁ p).map Counted.value = some key :=
    (rcInc_value hinc p).trans (h.tagId_of_done hmaking hid)
  have hne : key ≠ 0 := fun hzero => hkey (.inl hzero.le)
  have h₁ := h.retain t (h.mem_owners hid) hinc
  have h₂ := h₁.takeOut hid (h.tracks.erase hne) rfl (List.Sublist.refl _) (fun m hm _ => hm)
    (fun m hm => by rw [hmaking] at hm; nomatch hm) t
  obtain ⟨heap₂, hfirst, -⟩ :=
    Balanced.rcDec h₂.balanced (SharedTags.held_mem_owners List.mem_cons_self)
  have h₃ := h₂.release List.mem_cons_self hfirst
  simp only [List.erase_cons_head] at h₃
  obtain ⟨heap₃, hlast, -⟩ :=
    Balanced.rcDec h₃.balanced (SharedTags.held_mem_owners List.mem_cons_self)
  have h₄ := h₃.release List.mem_cons_self hlast
  simp only [List.erase_cons_head] at h₄
  exact ⟨heap₃,
    shutdownTurn_eq hslot hinc hnamed (takeTag_of_out h.tracks hkey hid) hfirst hlast, h₄⟩

/-- `plc_tag_destroy` refuses, and only the reference taken here goes. -/
theorem shutdownTurn_refused (h : w.Inv E l) (hmaking : w.making = []) (t : τ) {index : ℕ} {key : ℤ}
    {p : π} (hslot : hashtableGetIndex w.table.tags index = some p) (hid : l.tag key = some p)
    (hkey : ¬Destroyable key) :
    ∃ heap, shutdownTurn E (w.heap, w.table) index = some (heap, w.table) ∧
      SharedTags.Inv E { w with heap := heap } l := by
  obtain ⟨heap₁, hinc, -⟩ := Balanced.rcInc h.balanced (h.mem_owners hid)
  have hnamed : (heap₁ p).map Counted.value = some key :=
    (rcInc_value hinc p).trans (h.tagId_of_done hmaking hid)
  have h₁ := h.retain t (h.mem_owners hid) hinc
  obtain ⟨heap₂, hlast, -⟩ :=
    Balanced.rcDec h₁.balanced (SharedTags.held_mem_owners List.mem_cons_self)
  have h₂ := h₁.release List.mem_cons_self hlast
  simp only [List.erase_cons_head] at h₂
  exact ⟨heap₂, shutdownTurn_eq hslot hinc hnamed (if_neg hkey) rfl hlast, h₂⟩

omit [DecidableEq τ] [DecidableEq π] in
theorem Swept.succ {table : TagTable π} {index : ℕ} (h : Swept table index)
    (hindex : ∀ key p, table.tags.entries.list[index]? = some ⟨key, some p⟩ → key = tagIdMask) :
    Swept table (index + 1) := by
  intro j hj key p hp
  rcases Nat.lt_succ_iff_lt_or_eq.mp hj with hj | rfl
  · exact h j hj key p hp
  · exact hindex key p hp

omit [DecidableEq τ] [DecidableEq π] in
/-- The slot whose entry is removed is empty afterwards, and no slot is filled. -/
theorem Swept.remove {table : TagTable π} (htracks : Tracks E table l) {index : ℕ}
    (h : Swept table index) {key : ℤ} {p : π} (hne : key ≠ 0)
    (he : table.tags.entries.list[index]? = some ⟨key, some p⟩) :
    Swept ⟨table.nextTagId, (hashtableRemove E table.tags key).2⟩ (index + 1) := by
  refine Swept.succ (fun j hj key' q hq => ?_) fun key' q hq => ?_
  · rcases hashtableRemove_slot hq with hq | hq
    · exact h j hj key' q hq
    · exact absurd hq (Option.some_ne_none q)
  · rcases hashtableRemove_slot hq with hq' | hq'
    · obtain ⟨rfl, -⟩ := Slot.mk.injEq .. ▸ Option.some.inj (he.symm.trans hq')
      have hgone := ((htracks.erase hne).represents.2 key q).mpr (mem_pairs.mpr ⟨index, hq⟩)
      exact absurd (hgone.symm.trans (Function.update_self ..)) (Option.some_ne_none q)
    · exact absurd hq' (Option.some_ne_none q)

theorem shutdownTurn_spec (h : w.Inv E l) (hmaking : w.making = []) (t : τ) {index : ℕ}
    (hindex : index < w.table.tags.entries.size) (hswept : Swept w.table index) :
    ∃ heap table l', shutdownTurn E (w.heap, w.table) index = some (heap, table) ∧
      SharedTags.Inv E { w with heap := heap, table := table } l' ∧
      table.tags.entries.size = w.table.tags.entries.size ∧ Swept table (index + 1) ∧
      l'.tag tagIdMask = l.tag tagIdMask := by
  obtain ⟨⟨key, data⟩, he⟩ : ∃ e, w.table.tags.entries.list[index]? = some e :=
    ⟨_, List.getElem?_eq_getElem hindex⟩
  have hslot : hashtableGetIndex w.table.tags index = data := by
    rw [hashtableGetIndex_coe hindex, he]
    rfl
  cases data with
  | none =>
    refine ⟨w.heap, w.table, l, by rw [shutdownTurn, hslot]; rfl, h, rfl, ?_, rfl⟩
    refine hswept.succ fun key' p hp => ?_
    rw [he] at hp
    exact absurd (congrArg Slot.data (Option.some.inj hp)) (Option.some_ne_none p).symm
  | some p =>
    have hid : l.tag key = some p := (h.tracks.represents.2 key p).mpr (mem_pairs.mpr ⟨index, he⟩)
    obtain ⟨hpos, hle⟩ := h.tracks.bounds key (by rw [hid]; simp)
    by_cases hkey : Destroyable key
    · obtain ⟨heap, hturn, hinv⟩ := shutdownTurn_destroys h hmaking t hslot hid hkey
      have hmask : tagIdMask ≠ key := fun heq => hkey (.inr heq.le)
      exact ⟨heap, _, _, hturn, hinv, hashtableRemove_size .., hswept.remove h.tracks hpos.ne' he,
        Function.update_of_ne hmask ..⟩
    · obtain ⟨heap, hturn, hinv⟩ := shutdownTurn_refused h hmaking t hslot hid hkey
      refine ⟨heap, _, _, hturn, hinv, rfl, hswept.succ fun key' q hq => ?_, rfl⟩
      obtain ⟨rfl, -⟩ := Slot.mk.injEq .. ▸ Option.some.inj (he.symm.trans hq)
      exact le_antisymm hle ((not_not.mp hkey).resolve_left (not_le.mpr hpos))

/-- After so many turns the slots that were passed are swept. -/
theorem shutdown_turns (h : w.Inv E l) (hmaking : w.making = []) (t : τ) {n : ℕ}
    (hn : n ≤ w.table.tags.entries.size) :
    ∃ heap table l', (List.range n).foldlM (shutdownTurn E) (w.heap, w.table) = some (heap, table) ∧
      SharedTags.Inv E { w with heap := heap, table := table } l' ∧
      table.tags.entries.size = w.table.tags.entries.size ∧ Swept table n ∧
      l'.tag tagIdMask = l.tag tagIdMask := by
  induction n with
  | zero => exact ⟨w.heap, w.table, l, rfl, h, rfl, fun j hj => absurd hj (Nat.not_lt_zero j), rfl⟩
  | succ n ih =>
    obtain ⟨heap, table, l₁, hturns, hinv, hsize, hswept, hmask⟩ := ih (Nat.le_of_succ_le hn)
    obtain ⟨heap', table', l₂, hturn, hinv', hsize', hswept', hmask'⟩ :=
      shutdownTurn_spec hinv hmaking t (hsize.symm ▸ hn) hswept
    refine ⟨heap', table', l₂, ?_, hinv', hsize'.trans hsize, hswept', hmask'.trans hmask⟩
    rw [List.range_succ, List.foldlM_append, hturns]
    simpa using hturn

/-- After `plc_tag_shutdown` no handle is found but `TAG_ID_MASK`, and no tag is in memory but the one
behind it and those that threads still have references to. -/
theorem plcTagShutdown_sweeps {salt : UInt32} {table : TagTable π}
    (hinit : libInit E salt = some table)
    (hrun : Relation.ReflTransGen (TagStep E) (SharedTags.init table) w) (hmaking : w.making = [])
    (t : τ) :
    ∃ heap table', plcTagShutdown E (w.heap, w.table) = some (heap, table') ∧
      (∀ id, hashtableGet E table'.tags id =
        if id = tagIdMask then hashtableGet E w.table.tags id else none) ∧
      ∀ p, heap p ≠ none ↔
        hashtableGet E w.table.tags tagIdMask = some p ∨
          ∃ t', (t', p) ∈ w.built ∨ (t', p) ∈ w.held := by
  obtain ⟨l, h⟩ := reachable_inv hinit hrun
  obtain ⟨heap, table', l', hturns, hinv, hsize, hswept, hmask⟩ := shutdown_turns h hmaking t le_rfl
  have hget : ∀ id, hashtableGet E table'.tags id =
      if id = tagIdMask then hashtableGet E w.table.tags id else none := by
    intro id
    rw [hinv.tracks.get, h.tracks.get]
    split_ifs with hid
    · rw [hid, hmask]
    · cases htag : l'.tag id with
      | none => rfl
      | some p =>
        obtain ⟨j, hj⟩ := mem_pairs.mp ((hinv.tracks.represents.2 id p).mp htag)
        have hlt : j < w.table.tags.entries.size := hsize ▸ (List.getElem?_eq_some_iff.mp hj).1
        exact absurd (hswept j hlt id p hj) hid
  refine ⟨heap, table', hturns, hget, fun p => ?_⟩
  rw [← hinv.balanced.mem_iff, hinv.mem_owners_iff]
  refine or_congr_left ?_
  constructor
  · rintro ⟨id, hid⟩
    have hid' := hget id
    rw [hid] at hid'
    split_ifs at hid' with heq
    exact heq ▸ hid'.symm
  · intro hid
    exact ⟨tagIdMask, by rw [hget, if_pos rfl, hid]⟩

/-- The two handles that are out go. The tag that only the table had is freed. -/
theorem plcTagShutdown_sweeps_plain : ∃ (w : SharedTags ℕ ℕ) (heap : Heap ℕ ℤ) (table' : TagTable ℕ),
    Relation.ReflTransGen (TagStep plainEnv) (SharedTags.init plainTable) w ∧
      [11, 13].map (hashtableGet plainEnv w.table.tags) = [some 7, some 6] ∧
      plcTagShutdown plainEnv (w.heap, w.table) = some (heap, table') ∧
      [11, 13].map (hashtableGet plainEnv table'.tags) = [none, none] ∧
      heap 6 = none ∧ heap 7 ≠ none ∧ heap 8 ≠ none ∧ heap 9 ≠ none := by
  obtain ⟨w, hrun, hbuilt, hheld, hmaking, hfound⟩ := exists_plainTags
  simp only [List.map_cons, List.cons.injEq] at hfound
  obtain ⟨heap, table', hshutdown, hget, hheap⟩ :=
    plcTagShutdown_sweeps libInit_plain hrun hmaking 0
  have hleft : ∀ p, heap p ≠ none ↔ p = 9 ∨ p = 8 ∨ p = 7 := by
    intro p
    rw [hheap p, hfound.2.2.2.1, hbuilt, hheld]
    simp [exists_or]
  refine ⟨w, heap, table', hrun, by simp [hfound], hshutdown, by simp [hget, tagIdMask], ?_, ?_⟩
  · exact not_not.mp fun hne => absurd ((hleft 6).mp hne) (by decide)
  · exact ⟨(hleft 7).mpr (by decide), (hleft 8).mpr (by decide), (hleft 9).mpr (by decide)⟩

end Shutdown
end Plctagt.Tag
