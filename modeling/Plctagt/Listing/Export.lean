import Plctagt.Listing.Payload
import Plctagt.Listing.ListTags

/-! # What a listing exports

For a controller whose payloads are well-formed, the exported entries are those of the records that
are kept, the last program's first, with the controller's own in front of nothing. They are all the
records of all the payloads exactly when there is memory for each of them.
-/
namespace Plctagt.Listing
open Bytes Decimal Tag
set_option autoImplicit false

/-! ## Tag strings that fit -/

theorem openTag_fits {plc : Plc} {base tagName tagString : Text} {tag : ℤ} (hbase : base ≠ [])
    (hname : tagName ≠ []) (h : openTag plc base tagName = .ok (tagString, tag)) :
    tagString = base ++ tagName ∧ tagName.length < tagStringSize := by
  unfold openTag at h
  dsimp only at h
  split_ifs at h with hsize hcreate
  have hb : 0 < base.length := List.length_pos_of_ne_nil hbase
  have hn : 0 < tagName.length := List.length_pos_of_ne_nil hname
  rw [List.length_append, List.length_take, List.length_take] at hsize
  have hfit : base.length ≤ tagStringSize ∧ tagName.length < tagStringSize := by
    unfold tagStringSize at hsize ⊢
    omega
  refine ⟨?_, hfit.2⟩
  have hstring := (Prod.mk.inj (Except.ok.inj h)).1
  rw [← hstring, List.take_of_length_le hfit.1, List.take_of_length_le (by omega)]

theorem tagStringBase_ne_nil (gateway path : Text) : tagStringBase gateway path ≠ [] := by
  unfold tagStringBase snprintf
  rw [Ne, List.take_eq_nil_iff]
  rintro (h | h)
  · exact absurd h (by decide)
  · have hprefix := (List.append_eq_nil_iff.mp h).1
    simp only [List.append_eq_nil_iff] at hprefix
    exact absurd hprefix.1.1.1 (by decide)

theorem ok_of_bind {α β : Type} {x : Except Halt α} {f : α → Except Halt β} {b : β}
    (h : x >>= f = .ok b) : ∃ a, x = .ok a ∧ f a = .ok b := by
  cases x with
  | error e => exact nomatch h
  | ok a => exact ⟨a, rfl, h⟩

/-! ## Controller and programs -/

def Record.isProgram (r : Record) : Bool := Listing.isProgram r.name

def ctrlString (base : Text) : Text := base ++ text "@tags"

def progString (base name : Text) : Text := base ++ (name ++ text ".@tags")

section Programs
variable {plc : Plc} {turns : ℕ} {base : Text} {prog : Text → List Record}

/-- The entries of the program with the record `p`. -/
def programNodes (plc : Plc) (base : Text) (prog : Text → List Record) (p : Record) :
    List TagNode :=
  ((kept plc (progString base p.name) 0 (prog p.name)).map (Record.node (some p.name))).reverse

theorem programTags_records (hbase : base ≠ []) (rs : List Record)
    (hprog : ∀ p ∈ rs, p.isProgram = true →
      Holds (plc.tag (progString base p.name)) (prog p.name))
    {tagList tagList' : List TagNode}
    (hok : programTags plc turns base (rs.map (Record.node none)) tagList = .ok tagList') :
    tagList' = (rs.filter Record.isProgram).reverse.flatMap (programNodes plc base prog) ++
      tagList := by
  induction rs generalizing tagList with
  | nil => exact (Except.ok.inj hok).symm
  | cons p rs ih =>
    have htail : ∀ q ∈ rs, q.isProgram = true →
        Holds (plc.tag (progString base q.name)) (prog q.name) :=
      fun q hq => hprog q (List.mem_cons_of_mem p hq)
    change (if p.isProgram = true then _ else _ : Except Halt (List TagNode)) = _ at hok
    by_cases hp : p.isProgram = true
    · rw [if_pos hp] at hok
      rw [List.filter_cons_of_pos hp, List.reverse_cons, List.flatMap_append, List.append_assoc]
      obtain ⟨⟨tagString, tag⟩, hopen, hok⟩ := ok_of_bind hok
      change (if tag ≤ 0 then _ else _ : Except Halt (List TagNode)) = _ at hok
      split_ifs at hok with htag
      obtain ⟨tagList₁, hget, hrest⟩ := ok_of_bind hok
      obtain ⟨rfl, hshort⟩ := openTag_fits hbase (by simp [snprintf, text]) hopen
      -- a name that fits the buffer of 200 has not been cut at 256
      have hname : snprintf 256 (p.name ++ text ".@tags") = p.name ++ text ".@tags" := by
        refine List.take_of_length_le ?_
        by_contra hlong
        rw [snprintf, List.length_take, tagStringSize] at hshort
        omega
      rw [hname] at hget
      have hnodes := getTagList_records (hprog p List.mem_cons_self hp) hget
      rw [ih htail hrest, hnodes]
      simp [programNodes, progString]
    · rw [if_neg hp] at hok
      rw [List.filter_cons_of_neg hp]
      exact ih htail hok

theorem tagListing_records {gateway path : Text} {tagList : List TagNode} {ctrl : List Record}
    (hctrl : Holds (plc.tag (ctrlString (tagStringBase gateway path))) ctrl)
    (hprog : ∀ p ∈ ctrl, p.isProgram = true →
      Holds (plc.tag (progString (tagStringBase gateway path) p.name)) (prog p.name))
    (hok : tagListing plc turns gateway path = .ok (base, tagList)) :
    base = tagStringBase gateway path ∧
    tagList = ((kept plc (ctrlString base) 0 ctrl).filter Record.isProgram).flatMap
        (programNodes plc base prog) ++
      ((kept plc (ctrlString base) 0 ctrl).map (Record.node none)).reverse := by
  obtain ⟨base', hbase', hok⟩ := ok_of_bind hok
  unfold setupTagString at hbase'
  split_ifs at hbase'
  obtain rfl := Except.ok.inj hbase'
  have hbase := tagStringBase_ne_nil gateway path
  obtain ⟨⟨tagString, tag⟩, hopen, hok⟩ := ok_of_bind hok
  change (if tag ≤ 0 then _ else _ : Except Halt (Text × List TagNode)) = _ at hok
  split_ifs at hok with htag
  obtain ⟨rfl, -⟩ := openTag_fits hbase (by decide) hopen
  obtain ⟨controller, hget, hrest⟩ := ok_of_bind hok
  obtain ⟨tagList', hprograms, hend⟩ := ok_of_bind hrest
  obtain ⟨rfl, rfl⟩ := Prod.mk.inj (Except.ok.inj hend)
  have hnodes : controller =
      ((kept plc (ctrlString (tagStringBase gateway path)) 0 ctrl).reverse).map (Record.node none) := by
    rw [getTagList_records hctrl hget, List.append_nil, List.map_reverse]
  refine ⟨rfl, ?_⟩
  rw [hnodes] at hprograms
  rw [programTags_records hbase _ (fun p hp => hprog p ?_) hprograms, List.filter_reverse,
    List.reverse_reverse, List.map_reverse]
  exact (kept_initial _ _ _ _).subset (List.mem_reverse.mp hp)

end Programs

/-! ## Entries -/

/-- What an entry says of its record. -/
structure Reported where
  name : Text
  parentName : Text
  instanceId : UInt16
  type : UInt16
  elemSize : UInt16
  numDimensions : UInt16
  deriving DecidableEq

def reported (e : TagEntry) : Reported :=
  ⟨e.name, e.parentName, e.instanceId, e.type, e.elemSize, e.numDimensions⟩

/-- The entry a record should get: the low 16 bits of its id, and its dimensions from its type. -/
def Record.report (parentName : Text) (r : Record) : Reported :=
  ⟨r.name, parentName, r.instanceId.toUInt16, r.type, r.elementLength, (r.type >>> 13) &&& 3⟩

/-- Each entry names the one after it; the last one names nothing. -/
def Linked : List TagEntry → Prop
  | [] => True
  | e :: es => e.nextName = (es.head?.map TagEntry.name).getD [] ∧ Linked es

/-- One entry for each record of each payload, and nothing else. -/
structure Complete (ctrl : List Record) (prog : Text → List Record) (entries : List TagEntry) :
    Prop where
  perm : (entries.map reported).Perm (ctrl.map (Record.report []) ++
    (ctrl.filter Record.isProgram).flatMap fun p => (prog p.name).map (Record.report p.name))
  linked : Linked entries

/-- What is reported of an entry of the list. -/
def TagNode.report (tag : TagNode) : Reported :=
  ⟨tag.name.getD [], tag.parent.getD [], tag.instanceId, tag.type, tag.elemSize, tag.numDimensions⟩

theorem exportEntries_report (heap : ℕ → UInt16) (i : ℕ) (tagList : List TagNode)
    {entries : List TagEntry} (h : exportEntries heap i tagList = .ok entries) :
    entries.map reported = tagList.map TagNode.report ∧ Linked entries := by
  induction tagList generalizing i entries with
  | nil =>
    obtain rfl := Except.ok.inj h
    exact ⟨rfl, trivial⟩
  | cons tag tagList ih =>
    obtain ⟨nextName, hnext, h⟩ := ok_of_bind h
    obtain ⟨name, hname, h⟩ := ok_of_bind h
    obtain ⟨es, hes, h⟩ := ok_of_bind h
    obtain rfl := Except.ok.inj h
    obtain ⟨hmap, hlinked⟩ := ih (i + 1) hes
    have hget : ∀ (x : Option Text) (y : Text), defined x = .ok y → y = x.getD [] := by
      intro x y hxy
      cases x with
      | none => exact nomatch hxy
      | some x => exact (Except.ok.inj hxy).symm
    refine ⟨?_, ?_, hlinked⟩
    · rw [List.map_cons, List.map_cons, hmap, hget _ _ hname]
      rfl
    · show nextName = _
      cases tagList with
      | nil =>
        obtain rfl := Except.ok.inj hes
        exact (Except.ok.inj hnext).symm
      | cons next rest =>
        cases es with
        | nil => exact nomatch hmap
        | cons e es =>
          have hname' := congrArg Reported.name (List.cons.inj hmap).1
          exact (hget _ _ hnext).trans hname'.symm

theorem report_node (parent : Option Text) (r : Record) :
    (r.node parent).report = r.report (parent.getD []) := by
  have hid : UInt16.ofNat r.instanceId.toNat = r.instanceId.toUInt16 := rfl
  have hdims : (r.type &&& tagDimMask) >>> 13 = (r.type >>> 13) &&& 3 :=
    UInt16.shiftRight_and
  unfold Record.node TagNode.report Record.report
  rw [hid, hdims]
  rfl

/-! ## Complete listings -/

/-- Memory for every record of every payload. -/
def EnoughMemory (plc : Plc) (base : Text) (ctrl : List Record) (prog : Text → List Record) : Prop :=
  AllAllocated plc (ctrlString base) 0 ctrl ∧
    ∀ p ∈ ctrl, p.isProgram = true → AllAllocated plc (progString base p.name) 0 (prog p.name)

theorem length_flatMap_le {α β : Type} (f g : α → List β) (l : List α)
    (hle : ∀ a ∈ l, (f a).length ≤ (g a).length) : (l.flatMap f).length ≤ (l.flatMap g).length := by
  rw [List.length_flatMap, List.length_flatMap]
  exact List.sum_le_sum hle

theorem length_eq_of_flatMap {α β : Type} (f g : α → List β) (l : List α)
    (hle : ∀ a ∈ l, (f a).length ≤ (g a).length)
    (h : (l.flatMap g).length ≤ (l.flatMap f).length) : ∀ a ∈ l, (f a).length = (g a).length := by
  induction l with
  | nil => exact fun a ha => absurd ha List.not_mem_nil
  | cons b l ih =>
    have hrest := length_flatMap_le f g l fun a ha => hle a (List.mem_cons_of_mem b ha)
    have hb := hle b List.mem_cons_self
    rw [List.flatMap_cons, List.flatMap_cons, List.length_append, List.length_append] at h
    intro a ha
    rcases List.mem_cons.mp ha with rfl | ha
    · omega
    · exact ih (fun c hc => hle c (List.mem_cons_of_mem b hc)) (by omega) a ha

section Complete
variable {plc : Plc} {turns : ℕ} {gateway path : Text} {ctrl : List Record}
  {prog : Text → List Record} {s s' : Statics} {entries : List TagEntry}

/-- What the entries of a call report is what is kept of the payloads. -/
theorem listTags_report {base : Text} (hbase : base = tagStringBase gateway path)
    (hctrl : Holds (plc.tag (ctrlString base)) ctrl)
    (hprog : ∀ p ∈ ctrl, p.isProgram = true → Holds (plc.tag (progString base p.name)) (prog p.name))
    (hok : listTags plc turns gateway path s = .ok (0, entries) s') :
    entries.map reported =
      ((kept plc (ctrlString base) 0 ctrl).filter Record.isProgram).flatMap (fun p =>
        ((kept plc (progString base p.name) 0 (prog p.name)).map (Record.report p.name)).reverse) ++
      ((kept plc (ctrlString base) 0 ctrl).map (Record.report [])).reverse ∧ Linked entries := by
  subst hbase
  have hversion : plc.checkLibVersion = plctagStatusOk := by
    by_contra hversion
    rw [listTags_version s hversion] at hok
    exact Int.one_ne_zero (congrArg Prod.fst (EStateM.Result.ok.inj hok).1)
  obtain ⟨-, base, tagList, s₁, hlist, -, hexport, -⟩ := listTags_ok s hok hversion
  obtain ⟨rfl, rfl⟩ := tagListing_records hctrl hprog hlist
  obtain ⟨hmap, hlinked⟩ := exportEntries_report plc.heap 0 _ hexport
  refine ⟨?_, hlinked⟩
  have hprogram : ∀ p, (programNodes plc (tagStringBase gateway path) prog p).map TagNode.report =
      ((kept plc (progString (tagStringBase gateway path) p.name) 0 (prog p.name)).map
        (Record.report p.name)).reverse := by
    intro p
    rw [programNodes, List.map_reverse, List.map_map]
    exact congrArg List.reverse (List.map_congr_left fun r _ => report_node _ r)
  have hcontroller : ∀ rs : List Record,
      (rs.map (Record.node none)).map TagNode.report = rs.map (Record.report []) := by
    intro rs
    rw [List.map_map]
    exact List.map_congr_left fun r _ => report_node none r
  rw [hmap, List.map_append, List.map_reverse, hcontroller, List.map_flatMap]
  simp only [hprogram]

/-- A call that returns 0 has exported every record of every payload, and nothing else, if and only
if there was memory for each record. -/
theorem listTags_complete_iff {base : Text} (hbase : base = tagStringBase gateway path)
    (hctrl : Holds (plc.tag (ctrlString base)) ctrl)
    (hprog : ∀ p ∈ ctrl, p.isProgram = true → Holds (plc.tag (progString base p.name)) (prog p.name))
    (hok : listTags plc turns gateway path s = .ok (0, entries) s') :
    Complete ctrl prog entries ↔ EnoughMemory plc base ctrl prog := by
  obtain ⟨hreport, hlinked⟩ := listTags_report hbase hctrl hprog hok
  set keptCtrl := kept plc (ctrlString base) 0 ctrl with hkeptCtrl
  set keptProg : Record → List Record :=
    fun p => kept plc (progString base p.name) 0 (prog p.name) with hkeptProg
  constructor
  · rintro ⟨hperm, -⟩
    -- counting is enough: no payload gives more entries than it has records
    have hlen : ((keptCtrl.filter Record.isProgram).flatMap
          fun p => ((keptProg p).map (Record.report p.name)).reverse).length + keptCtrl.length =
        ctrl.length + ((ctrl.filter Record.isProgram).flatMap
          fun p => (prog p.name).map (Record.report p.name)).length := by
      have h := hperm.length_eq
      rw [hreport, List.length_append, List.length_append, List.length_reverse, List.length_map,
        List.length_map] at h
      exact h
    have hle : ∀ p ∈ ctrl.filter Record.isProgram,
        ((keptProg p).map (Record.report p.name)).reverse.length ≤
          ((prog p.name).map (Record.report p.name)).length := by
      intro p _
      rw [List.length_reverse, List.length_map, List.length_map]
      exact (kept_initial _ _ _ _).length_le
    have hkept : ((keptCtrl.filter Record.isProgram).flatMap
          fun p => ((keptProg p).map (Record.report p.name)).reverse).length ≤
        ((ctrl.filter Record.isProgram).flatMap
          fun p => ((keptProg p).map (Record.report p.name)).reverse).length := by
      obtain ⟨t, ht⟩ : keptCtrl <+: ctrl := kept_initial _ _ _ _
      rw [← ht, List.filter_append, List.flatMap_append, List.length_append]
      exact Nat.le_add_right _ _
    have hprogs := length_flatMap_le _ _ _ hle
    have hctrlLen : keptCtrl.length ≤ ctrl.length := (kept_initial _ _ _ _).length_le
    have hctrlEq : keptCtrl.length = ctrl.length := by omega
    have hall : keptCtrl = ctrl := (kept_initial _ _ _ _).eq_of_length hctrlEq
    refine ⟨(kept_eq_iff _ _ _ _).mp hall, fun p hmem hprogram => ?_⟩
    have hp := length_eq_of_flatMap _ _ _ hle (by omega) p (List.mem_filter.mpr ⟨hmem, hprogram⟩)
    rw [List.length_reverse, List.length_map, List.length_map] at hp
    exact (kept_eq_iff _ _ _ _).mp ((kept_initial _ _ _ _).eq_of_length hp)
  · rintro ⟨hc, hp⟩
    refine ⟨?_, hlinked⟩
    have hall : keptCtrl = ctrl := (kept_eq_iff _ _ _ _).mpr hc
    rw [hreport, hall]
    refine (List.perm_append_comm).trans (List.Perm.append (List.reverse_perm _) ?_)
    refine List.Perm.flatMap_left _ fun p hmem => ?_
    obtain ⟨hmem, hprogram⟩ := List.mem_filter.mp hmem
    have hall : keptProg p = prog p.name := (kept_eq_iff _ _ _ _).mpr (hp p hmem hprogram)
    show ((keptProg p).map _).reverse.Perm _
    rw [hall]
    exact List.reverse_perm _

end Complete

/-! ## A controller with a program -/

def sampleBase : Text := tagStringBase (text "g") (text "1")

def sampleCtrl : List Record :=
  [⟨1, 0x00C4, 4, fun _ => 0, text "A", by decide, by decide⟩,
    ⟨0x10002, 0x1068, 4, fun _ => 0, text "Program:P", by decide, by decide⟩]

def sampleProg : Text → List Record :=
  fun _ => [⟨3, 0x20C3, 2, fun _ => 7, text "B", by decide, by decide⟩]

def samplePlc : Plc := imagePlc
  [(ctrlString sampleBase, listingTagLogixByteOrder, sampleCtrl.flatMap Record.encode),
    (progString sampleBase (text "Program:P"), listingTagLogixByteOrder,
      (sampleProg (text "Program:P")).flatMap Record.encode)]

theorem holds_sampleCtrl : Holds (samplePlc.tag (ctrlString sampleBase)) sampleCtrl :=
  ⟨rfl, rfl, rfl, by decide, by decide +kernel⟩

theorem holds_sampleProg : ∀ p ∈ sampleCtrl, p.isProgram = true →
    Holds (samplePlc.tag (progString sampleBase p.name)) (sampleProg p.name) := by
  intro p hp hprogram
  simp only [sampleCtrl, List.mem_cons, List.not_mem_nil, or_false] at hp
  rcases hp with rfl | rfl
  · exact absurd hprogram (by decide)
  · exact ⟨by decide +kernel, by decide +kernel, rfl, by decide, by decide +kernel⟩

theorem listTags_complete_sample : ∃ entries s,
    listTags samplePlc 2 (text "g") (text "1") fresh = .ok (0, entries) s ∧ entries.length = 3 ∧
      Complete sampleCtrl sampleProg entries := by
  have hrun : (EStateM.run' (listTags samplePlc 2 (text "g") (text "1")) fresh).any
      (fun x => decide (x.1 = 0 ∧ x.2.length = 3)) = true := by decide +kernel
  obtain ⟨⟨rc, entries⟩, s, hok, htest⟩ := exists_ok_of_any hrun
  obtain ⟨rfl, hlen⟩ : rc = 0 ∧ entries.length = 3 := of_decide_eq_true htest
  refine ⟨entries, s, hok, hlen,
    (listTags_complete_iff rfl holds_sampleCtrl holds_sampleProg hok).mpr ⟨?_, ?_⟩⟩
  · exact ⟨rfl, rfl, trivial⟩
  · exact fun p _ _ => ⟨rfl, trivial⟩

def shortCtrl : List Record :=
  [⟨1, 0x00C4, 4, fun _ => 0, text "A", by decide, by decide⟩,
    ⟨2, 0x00C4, 4, fun _ => 0, text "B", by decide, by decide⟩]

def shortPlc : Plc :=
  { imagePlc [(ctrlString sampleBase, listingTagLogixByteOrder, shortCtrl.flatMap Record.encode)] with
    calloc := fun _ offset _ => offset < 43 }

/-- `get_tag_list` drops the status of `process_tag_entry`: the call returns 0 with the first record
only. -/
theorem listTags_drops_record : ¬ ∀ (plc : Plc) (turns : ℕ) (gateway path : Text)
    (ctrl : List Record) (prog : Text → List Record) (s s' : Statics) (entries : List TagEntry),
    Holds (plc.tag (ctrlString (tagStringBase gateway path))) ctrl →
    (∀ p ∈ ctrl, p.isProgram = true →
      Holds (plc.tag (progString (tagStringBase gateway path) p.name)) (prog p.name)) →
    listTags plc turns gateway path s = .ok (0, entries) s' → Complete ctrl prog entries := by
  intro h
  have hrun : (EStateM.run' (listTags shortPlc 2 (text "g") (text "1")) fresh).any
      (fun x => decide (x.1 = 0 ∧ x.2.length = 1)) = true := by decide +kernel
  obtain ⟨⟨rc, entries⟩, s, hok, htest⟩ := exists_ok_of_any hrun
  obtain ⟨rfl, hlen⟩ : rc = 0 ∧ entries.length = 1 := of_decide_eq_true htest
  have hcomplete := h shortPlc 2 (text "g") (text "1") shortCtrl (fun _ => []) fresh s entries
    ⟨rfl, rfl, rfl, by decide, by decide +kernel⟩
    (by
      intro p hp hprogram
      simp only [shortCtrl, List.mem_cons, List.not_mem_nil, or_false] at hp
      rcases hp with rfl | rfl <;> exact absurd hprogram (by decide))
    hok
  have hcount := hcomplete.perm.length_eq
  rw [List.length_map, hlen] at hcount
  exact absurd hcount (by decide)

end Plctagt.Listing
