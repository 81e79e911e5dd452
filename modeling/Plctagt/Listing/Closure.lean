import Plctagt.Listing.ListTags
import Plctagt.Listing.Spared

/-! # The UDT closure

What the table holds when the processing loop of a process's first call has consumed its queue.
-/
namespace Plctagt.Listing
open Decimal Tag Worklist Relation
set_option autoImplicit false

/-- The image read for template `id`. -/
def udtImage (plc : Plc) (base : Text) (id : UInt16) : PlcTag :=
  plc.tag (base.take tagStringSize ++ (udtName id).take tagStringSize)

/-- Template `a` has a structured field that is not a system type, with template `b`. -/
def FieldUdt (plc : Plc) (base : Text) (a b : UInt16) : Prop :=
  let tag := udtImage plc base a
  ∃ i < (getUint16 tag 10).toNat,
    isUdtType (getUint16 tag (14 + 8 * i + 2)) ∧ udtId (getUint16 tag (14 + 8 * i + 2)) = b

/-- `id` can be reached from the structured tags that are not of a system type. -/
def Reachable (plc : Plc) (base : Text) (tagList : List TagNode) (id : UInt16) : Prop :=
  ∃ tag ∈ tagList, isUdtType tag.type ∧ ReflTransGen (FieldUdt plc base) (udtId tag.type) id

/-! ## Children and fields -/

theorem mem_fieldUdts_descriptors (tag : PlcTag) (n : ℕ) (offset : ℤ) (b : UInt16) :
    b ∈ fieldUdts (descriptors tag n offset) ↔
      ∃ i < n, isUdtType (getUint16 tag (offset + 8 * i + 2)) ∧
        udtId (getUint16 tag (offset + 8 * i + 2)) = b := by
  induction n generalizing offset with
  | zero => simp [descriptors, fieldUdts]
  | succ n ih =>
    have hcons : b ∈ fieldUdts (descriptors tag (n + 1) offset) ↔
        (isUdtType (getUint16 tag (offset + 2)) ∧ udtId (getUint16 tag (offset + 2)) = b) ∨
          b ∈ fieldUdts (descriptors tag n (offset + 8)) := by
      rw [descriptors, fieldUdts_cons]
      by_cases h : isUdtType (getUint16 tag (offset + 2)) = true
      · rw [if_pos h, List.mem_cons, and_iff_right h]
        exact or_congr_left eq_comm
      · rw [if_neg h]
        exact (or_iff_right fun hb => h hb.1).symm
    have hshift : ∀ i : ℕ, offset + 8 + 8 * i + 2 = offset + 8 * ((i + 1 : ℕ) : ℤ) + 2 := by
      intro i
      push_cast
      ring
    rw [hcons, ih]
    constructor
    · rintro (h | ⟨i, hi, h⟩)
      · exact ⟨0, Nat.succ_pos n, by simpa using h⟩
      · exact ⟨i + 1, Nat.succ_lt_succ hi, by rwa [hshift] at h⟩
    · rintro ⟨i, hi, h⟩
      cases i with
      | zero => exact .inl (by simpa using h)
      | succ i => exact .inr ⟨i, Nat.lt_of_succ_lt_succ hi, by rwa [hshift]⟩

/-- A visit without an end brings the ids with `P`; no visit brings others. -/
def Brings (v : Visit UInt16 Stop) (P : UInt16 → Prop) : Prop :=
  (∀ b ∈ v.children, P b) ∧ (v.ending = none → ∀ b, P b → b ∈ v.children)

theorem brings_ending (e : Stop) (P : UInt16 → Prop) : Brings ⟨[], some e⟩ P :=
  ⟨fun _ hb => absurd hb List.not_mem_nil, fun he => absurd he (Option.some_ne_none e)⟩

theorem templateVisit_brings (plc : Plc) (base : Text) (a : UInt16) :
    Brings (templateVisit plc (base.take tagStringSize ++ (udtName a).take tagStringSize) a)
      (FieldUdt plc base a) := by
  set tagString := base.take tagStringSize ++ (udtName a).take tagStringSize with htagString
  set tag := plc.tag tagString with htag
  have hfield : ∀ b, FieldUdt plc base a b ↔
      b ∈ fieldUdts (descriptors tag (getUint16 tag 10).toNat 14) := by
    intro b
    rw [mem_fieldUdts_descriptors]
    rfl
  unfold templateVisit
  by_cases hid : getUint16 tag 0 ≠ a
  · rw [if_pos hid]
    exact brings_ending _ _
  rw [if_neg hid]
  by_cases hcalloc : plc.calloc tagString 14 (24 + 24 * (getUint16 tag 10).toNat) = false
  · rw [if_pos hcalloc]
    exact brings_ending _ _
  · rw [if_neg hcalloc]
    exact ⟨fun b hb => (hfield b).mpr hb, fun _ b hb => (hfield b).mp hb⟩

theorem visit_brings (plc : Plc) (base : Text) (a : UInt16) :
    Brings (visit plc base a) (FieldUdt plc base a) := by
  unfold visit openTag
  by_cases hsize : tagStringSize <
      (base.take tagStringSize ++ (udtName a).take tagStringSize).length
  · rw [if_pos hsize]
    exact brings_ending _ _
  rw [if_neg hsize]
  by_cases hcreate : plc.create (base.take tagStringSize ++ (udtName a).take tagStringSize) < 0
  · rw [if_pos hcreate]
    exact brings_ending _ _
  rw [if_neg hcreate]
  dsimp only
  split_ifs
  · exact brings_ending _ _
  · exact brings_ending _ _
  · exact templateVisit_brings plc base a

/-! ## The first call -/

theorem cleared_fresh : Cleared fresh := ⟨⟨le_rfl, Nat.zero_le _⟩, fun _ => rfl, rfl⟩

theorem mem_seeds (tagList : List TagNode) (id : UInt16) :
    id ∈ seeds tagList ↔ ∃ tag ∈ tagList, isUdtType tag.type ∧ udtId tag.type = id := by
  simp [seeds, and_assoc]

theorem listWithUdts_ok {plc : Plc} {turns : ℕ} {gateway path base : Text}
    {tagList : List TagNode} (h : tagListing plc turns gateway path = .ok (base, tagList))
    {s s' : Statics} {x : Text × List TagNode}
    (hx : listWithUdts plc turns gateway path s = .ok x s') : x = (base, tagList) := by
  rw [listWithUdts_eq h] at hx
  cases hc : collectUdts plc base tagList { s with udts := fun _ => none } with
  | error e s₁ =>
    rw [bind_of_error _ hc] at hx
    exact nomatch hx
  | ok _ s₁ =>
    rw [bind_of_ok _ hc] at hx
    exact (EStateM.Result.ok.inj hx).1.symm

theorem mem_seen_iff_reachable (plc : Plc) (base : Text) (tagList : List TagNode)
    {w : Work UInt16 Stop} (hrun : Turns (visit plc base) (Worklist.start (seeds tagList)) w)
    (hcursor : w.cursor = w.queue.length) (id : UInt16) :
    id ∈ w.seen ↔ Reachable plc base tagList id := by
  rw [mem_seen_iff hrun hcursor (fun a => (visit_brings plc base a).1)
    (fun a b he hb => (visit_brings plc base a).2 he b hb)]
  constructor
  · rintro ⟨a, ha, hab⟩
    obtain ⟨tag, htag, htype, rfl⟩ := (mem_seeds tagList a).mp ha
    exact ⟨tag, htag, htype, hab⟩
  · rintro ⟨tag, htag, htype, hab⟩
    exact ⟨_, (mem_seeds tagList _).mpr ⟨tag, htag, htype, rfl⟩, hab⟩

/-- When the loop of the first call has consumed its queue, the table holds what can be reached, and
each of these templates has been opened once. The loop always comes to an end. -/
theorem listWithUdts_fresh (plc : Plc) (turns : ℕ) (gateway path base : Text)
    (tagList : List TagNode)
    (hlist : tagListing plc turns gateway path = .ok (base, tagList)) :
    (∀ s, listWithUdts plc turns gateway path fresh = .ok (base, tagList) s →
      s.currentUdt = s.lastUdt →
        (∀ id, (s.udts id).isSome = true ↔ Reachable plc base tagList id) ∧
        (∀ id, id ∈ s.opened ↔ Reachable plc base tagList id) ∧ s.opened.Nodup) ∧
    ∀ s, listWithUdts plc turns gateway path fresh ≠ .error .turns s := by
  rw [listWithUdts_eq hlist]
  show (∀ s, (collectUdts plc base tagList >>= fun _ => pure (base, tagList)) fresh = _ → _) ∧
    ∀ s, (collectUdts plc base tagList >>= fun _ => pure (base, tagList)) fresh ≠ _
  by_cases hroom : SeedRoom fresh (seeds tagList)
  · obtain ⟨w, hrun, ⟨hover, hw, hres⟩ | ⟨-, s', hs'⟩⟩ :=
      collectUdts_run plc base tagList cleared_fresh hroom
    · unfold Result at hres
      have hseeds : pending fresh ++ seeds tagList = seeds tagList := rfl
      rw [hseeds] at hrun
      cases hend : w.ended with
      | none =>
        rw [hend] at hres
        obtain ⟨s, hs, hm⟩ := hres
        rw [bind_of_ok _ hs]
        refine ⟨?_, nofun⟩
        rintro _ ⟨⟩ hdone
        have hcursor : w.cursor = w.queue.length := by
          rw [hm.current, hm.lastUdt] at hdone
          exact Nat.add_left_cancel hdone
        have hreach := mem_seen_iff_reachable plc base tagList hrun hcursor
        exact ⟨fun id => (hm.udts id).trans (hreach id), fun id => hm.opened ▸ hreach id,
          hm.opened ▸ (sound_turns _ hrun).nodup⟩
      | some e =>
        rw [hend] at hres
        cases e with
        | unsupported =>
          obtain ⟨s, hs, -, hlt, -⟩ := hres
          rw [bind_of_ok _ hs]
          refine ⟨?_, nofun⟩
          rintro _ ⟨⟩ hdone
          exact absurd hdone (Nat.ne_of_lt hlt)
        | halt e =>
          obtain ⟨s, hs, -⟩ := hres
          rw [bind_of_error _ hs]
          refine ⟨nofun, ?_⟩
          rintro _ ⟨⟩
          obtain ⟨a, ha⟩ := ended_of_turns _ hrun hend
          exact visit_spares (by decide) (by decide) plc base a ha
    · rw [bind_of_error _ hs']
      exact ⟨nofun, nofun⟩
  · obtain ⟨s', -, hs'⟩ := collectUdts_full plc base tagList cleared_fresh.toBounded hroom
    rw [bind_of_error _ hs', if_pos (by decide)]
    exact ⟨nofun, nofun⟩

def cyclicBase : Text := tagStringBase (text "g") (text "1")

def cyclicPlc : Plc := imagePlc
  [(cyclicBase ++ text "@tags", listingTagLogixByteOrder,
      [1, 0, 0, 0, 1, 0x80, 4, 0, 0, 0, 0, 0, 0, 0, 0, 0, 0, 0, 0, 0, 1, 0, 65]),
    (cyclicBase ++ text "@udt/1", udtTagLogixByteOrder,
      [1, 0, 0, 0, 0, 0, 4, 0, 0, 0, 1, 0, 0, 0, 0, 0, 2, 0x80, 0, 0, 0, 0, 85, 59, 0, 86, 0]),
    (cyclicBase ++ text "@udt/2", udtTagLogixByteOrder,
      [2, 0, 0, 0, 0, 0, 4, 0, 0, 0, 1, 0, 0, 0, 0, 0, 1, 0x80, 0, 0, 0, 0, 85, 59, 0, 86, 0])]

theorem listWithUdts_fresh_cyclic :
    ∃ tagList s, listWithUdts cyclicPlc 1 (text "g") (text "1") fresh = .ok (cyclicBase, tagList) s ∧
      s.opened = [1, 2] ∧ ∀ id, id ∈ s.opened ↔ Reachable cyclicPlc cyclicBase tagList id := by
  have hlist : ∃ tagList, tagListing cyclicPlc 1 (text "g") (text "1") = .ok (cyclicBase, tagList) :=
    ⟨_, rfl⟩
  obtain ⟨tagList, hlist⟩ := hlist
  have hrun : (match listWithUdts cyclicPlc 1 (text "g") (text "1") fresh with
      | .ok x s => decide (x.1 = cyclicBase ∧ s.opened = [1, 2] ∧ s.currentUdt = s.lastUdt)
      | .error _ _ => false) = true := by decide +kernel
  obtain ⟨hclosed, -⟩ := listWithUdts_fresh cyclicPlc 1 _ _ _ tagList hlist
  cases hr : listWithUdts cyclicPlc 1 (text "g") (text "1") fresh with
  | error e s =>
    rw [hr] at hrun
    exact absurd hrun Bool.false_ne_true
  | ok x s =>
    rw [hr] at hrun
    obtain ⟨-, hopened, hdone⟩ := of_decide_eq_true hrun
    obtain rfl := listWithUdts_ok hlist hr
    exact ⟨tagList, s, rfl, hopened, (hclosed s hr hdone).2.1⟩

end Plctagt.Listing
