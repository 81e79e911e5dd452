import Plctagt.Listing.Export
import Plctagt.Listing.Closure
import Plctagt.Listing.Template

/-! # When a first call succeeds

A well-formed controller with nothing going wrong is not enough for `list_tags` to return 0. A
program without tags has an empty payload, which `get_tag_list` takes for an error, and the queue of
the UDT phase has a place for each structured tag and each child that is queued, not for each id.
-/
namespace Plctagt.Listing
open Bytes Decimal Tag Worklist Relation
set_option autoImplicit false

/-! ## Well-formed controllers -/

/-- The tag string fits its buffer, and the tag can be created and read. -/
structure Answers (plc : Plc) (tagString : Text) : Prop where
  fits : tagString.length ≤ tagStringSize
  create : 0 < plc.create tagString
  read : plc.read tagString = plctagStatusOk

structure Lists (tag : PlcTag) (records : List Record) : Prop where
  data : tag.data = some (records.flatMap Record.encode)
  isBit : tag.isBit = false
  byteOrder : tag.byteOrder = listingTagLogixByteOrder
  size : (records.flatMap Record.encode).length < 2 ^ 31

/-- The list of a controller and its programs, in the order of its links. -/
def nodes (ctrl : List Record) (prog : Text → List Record) : List TagNode :=
  (ctrl.filter Record.isProgram).flatMap (fun p =>
    ((prog p.name).map (Record.node (some p.name))).reverse) ++ (ctrl.map (Record.node none)).reverse

/-- What the worklist meets when every template is well formed. -/
def templateVisits (templates : UInt16 → Template) (id : UInt16) : Visit UInt16 Stop :=
  ⟨fieldUdts ((templates id).fields.map Descriptor.field), none⟩

/-- A controller with the records `ctrl`, programs with the records `prog`, and a template for each
id that can be reached from their tags. -/
structure WellFormed (plc : Plc) (gateway path : Text) (ctrl : List Record)
    (prog : Text → List Record) (templates : UInt16 → Template) : Prop where
  version : plc.checkLibVersion = plctagStatusOk
  gatewayGiven : gateway ≠ []
  pathGiven : path ≠ []
  calloc : ∀ tagString offset size, plc.calloc tagString offset size = true
  nonempty : ctrl ≠ []
  ctrlAnswers : Answers plc (ctrlString (tagStringBase gateway path))
  ctrlLists : Lists (plc.tag (ctrlString (tagStringBase gateway path))) ctrl
  progAnswers : ∀ p ∈ ctrl, p.isProgram = true →
    Answers plc (progString (tagStringBase gateway path) p.name)
  progLists : ∀ p ∈ ctrl, p.isProgram = true →
    Lists (plc.tag (progString (tagStringBase gateway path) p.name)) (prog p.name)
  udtAnswers : ∀ a ∈ seeds (nodes ctrl prog), ∀ id,
    ReflTransGen (Child (templateVisits templates)) a id →
      Answers plc (tagStringBase gateway path ++ udtName id)
  udtHolds : ∀ a ∈ seeds (nodes ctrl prog), ∀ id,
    ReflTransGen (Child (templateVisits templates)) a id → (templates id).id = id ∧
      HoldsTemplate (plc.tag (tagStringBase gateway path ++ udtName id)) (templates id)

/-- Every program has tags. -/
def EveryProgramListed (ctrl : List Record) (prog : Text → List Record) : Prop :=
  ∀ p ∈ ctrl, p.isProgram = true → prog p.name ≠ []

/-- The worklist of the templates never holds more than the array does. -/
def StaysInside (templates : UInt16 → Template) (ids : List UInt16) : Prop :=
  ∀ w, Turns (templateVisits templates) (start ids) w → w.queue.length ≤ maxUdts

/-! ## Listings -/

section Lists
variable {plc : Plc} {turns : ℕ}
  (hcalloc : ∀ tagString offset size, plc.calloc tagString offset size = true)

theorem openTag_answers {base tagName : Text} (h : Answers plc (base ++ tagName)) :
    openTag plc base tagName = .ok (base ++ tagName, plc.create (base ++ tagName)) := by
  have hfits := h.fits
  have hcreate := h.create
  rw [List.length_append] at hfits
  have htake : base.take tagStringSize ++ tagName.take tagStringSize = base ++ tagName := by
    rw [List.take_of_length_le (by omega), List.take_of_length_le (by omega)]
  unfold openTag
  rw [htake]
  dsimp only
  rw [if_neg (by rw [List.length_append]; omega), if_neg (by omega)]

include hcalloc

theorem allAllocated (tagString : Text) (offset : ℕ) (rs : List Record) :
    AllAllocated plc tagString offset rs := by
  induction rs generalizing offset with
  | nil => trivial
  | cons r rs ih =>
    refine ⟨?_, ih _⟩
    simp [Allocated, hcalloc]

theorem getTagList_lists {tagString : Text} {rs : List Record} (ha : Answers plc tagString)
    (h : Lists (plc.tag tagString) rs) (hturns : rs.length ≤ turns) (parent : Option Text)
    (tagList : List TagNode) :
    (rs ≠ [] → getTagList plc turns tagString parent tagList =
      .ok ((rs.map (Record.node parent)).reverse ++ tagList)) ∧
    (rs = [] → getTagList plc turns tagString parent tagList = .error .exit) := by
  have hsize : (plc.tag tagString).size = (rs.flatMap Record.encode).length := by
    rw [PlcTag.size_eq h.data]
  unfold getTagList
  rw [if_neg (not_not.mpr ha.read), hsize]
  dsimp only
  constructor
  · intro hne
    have hfour : ¬ ((rs.flatMap Record.encode).length : ℤ) < 4 := by
      cases rs with
      | nil => exact absurd rfl hne
      | cons r rs =>
        rw [List.flatMap_cons, List.length_append, r.encode_length]
        push_cast
        omega
    rw [if_neg hfour]
    rcases tagEntries_records plc tagString parent h.isBit h.byteOrder _ h.data h.size turns rs hne
      [] rfl tagList with hrun | ⟨hlt, -⟩
    · have hkept : kept plc tagString 0 rs = rs :=
        (kept_eq_iff plc tagString 0 rs).mpr (allAllocated hcalloc tagString 0 rs)
      rw [List.length_nil, hkept] at hrun
      exact hrun
    · omega
  · rintro rfl
    simp

theorem programTags_lists {base : Text} {prog : Text → List Record} (rs : List Record)
    (ha : ∀ p ∈ rs, p.isProgram = true → Answers plc (progString base p.name))
    (h : ∀ p ∈ rs, p.isProgram = true →
      Lists (plc.tag (progString base p.name)) (prog p.name))
    (hturns : ∀ p ∈ rs, (prog p.name).length ≤ turns) (tagList : List TagNode) :
    (EveryProgramListed rs prog →
      programTags plc turns base (rs.map (Record.node none)) tagList =
        .ok ((rs.filter Record.isProgram).reverse.flatMap (fun p =>
          ((prog p.name).map (Record.node (some p.name))).reverse) ++ tagList)) ∧
    (¬ EveryProgramListed rs prog →
      programTags plc turns base (rs.map (Record.node none)) tagList = .error .exit) := by
  induction rs generalizing tagList with
  | nil =>
    refine ⟨fun _ => rfl, fun hnot => ?_⟩
    exact absurd (fun p hp => absurd hp List.not_mem_nil) hnot
  | cons p rs ih =>
    have htail := ih (fun q hq => ha q (List.mem_cons_of_mem p hq))
      (fun q hq => h q (List.mem_cons_of_mem p hq))
      (fun q hq => hturns q (List.mem_cons_of_mem p hq))
    have hlisted : EveryProgramListed (p :: rs) prog ↔
        (p.isProgram = true → prog p.name ≠ []) ∧ EveryProgramListed rs prog := by
      simp [EveryProgramListed]
    have hstep : programTags plc turns base ((p :: rs).map (Record.node none)) tagList =
        if p.isProgram = true then
          openTag plc base (snprintf 256 (p.name ++ text ".@tags")) >>= fun opened =>
            if opened.2 ≤ 0 then .error .exit
            else getTagList plc turns opened.1 (some p.name) tagList >>= fun tagList =>
              programTags plc turns base (rs.map (Record.node none)) tagList
        else programTags plc turns base (rs.map (Record.node none)) tagList := rfl
    rw [hstep, hlisted]
    by_cases hp : p.isProgram = true
    · have hanswers := ha p List.mem_cons_self hp
      -- a name that fits the buffer of 200 is not cut at 256
      have hname : snprintf 256 (p.name ++ text ".@tags") = p.name ++ text ".@tags" := by
        have hfits := hanswers.fits
        rw [progString, List.length_append, tagStringSize] at hfits
        exact List.take_of_length_le (by omega)
      have hcreate := hanswers.create
      obtain ⟨hsome, hnone⟩ := getTagList_lists hcalloc hanswers (h p List.mem_cons_self hp)
        (hturns p List.mem_cons_self) (some p.name) tagList
      unfold progString at hanswers hcreate hsome hnone
      rw [if_pos hp, hname, openTag_answers hanswers]
      show (_ → (if plc.create (base ++ (p.name ++ text ".@tags")) ≤ 0 then _ else _ :
          Except Halt (List TagNode)) = _) ∧
        (_ → (if plc.create (base ++ (p.name ++ text ".@tags")) ≤ 0 then _ else _ :
          Except Halt (List TagNode)) = _)
      rw [if_neg (by omega)]
      by_cases hempty : prog p.name = []
      · rw [hnone hempty]
        exact ⟨fun hall => absurd hempty (hall.1 hp), fun _ => rfl⟩
      · rw [hsome hempty]
        obtain ⟨hok, herr⟩ := htail (((prog p.name).map (Record.node (some p.name))).reverse ++
          tagList)
        refine ⟨fun hall => ?_, fun hnot => herr fun hall => hnot ⟨fun _ => hempty, hall⟩⟩
        show programTags plc turns base (rs.map (Record.node none)) _ = _
        rw [hok hall.2, List.filter_cons_of_pos hp, List.reverse_cons, List.flatMap_append]
        simp
    · rw [if_neg hp, List.filter_cons_of_neg hp]
      obtain ⟨hok, herr⟩ := htail tagList
      exact ⟨fun hall => hok hall.2, fun hnot => herr fun hall => hnot ⟨fun h => absurd h hp, hall⟩⟩

end Lists

theorem exportEntries_named (heap : ℕ → UInt16) (i : ℕ) (tagList : List TagNode)
    (hnames : ∀ tag ∈ tagList, ∃ name, tag.name = some name) :
    ∃ entries, exportEntries heap i tagList = .ok entries := by
  induction tagList generalizing i with
  | nil => exact ⟨[], rfl⟩
  | cons tag tagList ih =>
    obtain ⟨entries, hentries⟩ := ih (i + 1) fun t ht => hnames t (List.mem_cons_of_mem tag ht)
    obtain ⟨name, hname⟩ := hnames tag List.mem_cons_self
    have hnext : ∃ next, (tagList.head?.map fun next => defined next.name).getD (pure []) =
        (.ok next : Except Halt Text) := by
      cases tagList with
      | nil => exact ⟨[], rfl⟩
      | cons next rest =>
        obtain ⟨nextName, hnext⟩ := hnames next (List.mem_cons_of_mem tag List.mem_cons_self)
        refine ⟨nextName, ?_⟩
        show defined next.name = _
        rw [hnext]
        rfl
    obtain ⟨next, hnext⟩ := hnext
    unfold exportEntries
    rw [hnext, hname, hentries]
    exact ⟨_, rfl⟩

theorem nodes_named (ctrl : List Record) (prog : Text → List Record) :
    ∀ tag ∈ nodes ctrl prog, ∃ name, tag.name = some name := by
  intro tag htag
  unfold nodes at htag
  rw [List.mem_append, List.mem_flatMap] at htag
  rcases htag with ⟨p, -, htag⟩ | htag
  · obtain ⟨r, -, rfl⟩ := List.mem_map.mp (List.mem_reverse.mp htag)
    exact ⟨r.name, rfl⟩
  · obtain ⟨r, -, rfl⟩ := List.mem_map.mp (List.mem_reverse.mp htag)
    exact ⟨r.name, rfl⟩

/-! ## The first call -/

/-- Turns enough for every payload. -/
def payloadTurns (ctrl : List Record) (prog : Text → List Record) : ℕ :=
  ctrl.length + (ctrl.map fun p => (prog p.name).length).sum

theorem turns_enough {ctrl : List Record} {prog : Text → List Record} {turns : ℕ}
    (hturns : payloadTurns ctrl prog ≤ turns) :
    ctrl.length ≤ turns ∧ ∀ p ∈ ctrl, (prog p.name).length ≤ turns := by
  unfold payloadTurns at hturns
  refine ⟨by omega, fun p hp => ?_⟩
  have hle := List.single_le_sum (fun _ _ => Nat.zero_le _) _
    (List.mem_map.mpr ⟨p, hp, rfl⟩ : (prog p.name).length ∈ ctrl.map fun p => (prog p.name).length)
  omega

section Call
variable {plc : Plc} {gateway path : Text} {ctrl : List Record} {prog : Text → List Record}
  {templates : UInt16 → Template} (h : WellFormed plc gateway path ctrl prog templates)
include h

theorem tagListing_wellFormed {turns : ℕ} (hctrl : ctrl.length ≤ turns)
    (hprog : ∀ p ∈ ctrl, (prog p.name).length ≤ turns) :
    (EveryProgramListed ctrl prog →
      tagListing plc turns gateway path = .ok (tagStringBase gateway path, nodes ctrl prog)) ∧
    (¬ EveryProgramListed ctrl prog → tagListing plc turns gateway path = .error .exit) := by
  set base := tagStringBase gateway path with hbase
  have hsetup : setupTagString gateway path = .ok base := by
    unfold setupTagString
    rw [if_neg h.gatewayGiven, if_neg h.pathGiven]
  have hanswers : Answers plc (base ++ text "@tags") := h.ctrlAnswers
  have hcreate := hanswers.create
  have hget := (getTagList_lists h.calloc hanswers h.ctrlLists hctrl none []).1 h.nonempty
  have hlisting : tagListing plc turns gateway path = (do
      let tagList ← programTags plc turns base (ctrl.reverse.map (Record.node none))
        ((ctrl.map (Record.node none)).reverse)
      pure (base, tagList)) := by
    unfold tagListing
    rw [hsetup]
    show (openTag plc base (text "@tags") >>= _ : Except Halt (Text × List TagNode)) = _
    rw [openTag_answers hanswers]
    show (if plc.create (base ++ text "@tags") ≤ 0 then _ else _ :
      Except Halt (Text × List TagNode)) = _
    rw [if_neg (by omega), hget, List.append_nil, List.map_reverse]
    rfl
  have hreverse : EveryProgramListed ctrl.reverse prog ↔ EveryProgramListed ctrl prog := by
    simp [EveryProgramListed]
  obtain ⟨hok, herr⟩ := programTags_lists h.calloc ctrl.reverse
    (fun p hp => h.progAnswers p (List.mem_reverse.mp hp))
    (fun p hp => h.progLists p (List.mem_reverse.mp hp))
    (fun p hp => hprog p (List.mem_reverse.mp hp)) ((ctrl.map (Record.node none)).reverse)
  rw [hreverse] at hok herr
  rw [hlisting]
  constructor
  · intro hall
    rw [hok hall, List.filter_reverse, List.reverse_reverse]
    rfl
  · intro hnot
    rw [herr hnot]
    rfl

/-- What the code visits are the templates. -/
theorem visit_wellFormed (id : UInt16)
    (hid : ∃ a ∈ seeds (nodes ctrl prog), ReflTransGen (Child (templateVisits templates)) a id) :
    visit plc (tagStringBase gateway path) id = templateVisits templates id := by
  obtain ⟨a, ha, hreach⟩ := hid
  have hanswers := h.udtAnswers a ha id hreach
  obtain ⟨hname, hholds⟩ := h.udtHolds a ha id hreach
  have hopen : openTag plc (tagStringBase gateway path) (udtName (templates id).id) =
      .ok (tagStringBase gateway path ++ udtName id,
        plc.create (tagStringBase gateway path ++ udtName id)) := by
    rw [hname]
    exact openTag_answers hanswers
  have hvisit := visit_template hopen hanswers.read hholds (h.calloc _)
  rw [hname] at hvisit
  exact hvisit

theorem collectUdts_wellFormed (hseeds : (seeds (nodes ctrl prog)).length < maxUdts)
    (hinside : StaysInside templates (seeds (nodes ctrl prog))) :
    ∃ s, collectUdts plc (tagStringBase gateway path) (nodes ctrl prog) fresh = .ok () s := by
  have hroom : SeedRoom fresh (seeds (nodes ctrl prog)) := by
    apply Or.inr
    show 0 + _ < maxUdts
    rw [Nat.zero_add]
    exact hseeds
  obtain ⟨w, hrun, hw⟩ := collectUdts_run plc (tagStringBase gateway path) (nodes ctrl prog)
    cleared_fresh hroom
  have hturns : Turns (templateVisits templates) (start (seeds (nodes ctrl prog))) w :=
    turns_congr _ (visit_wellFormed h) hrun
  rcases hw with ⟨-, -, hres⟩ | ⟨hfull, -⟩
  · have hend : w.ended = none := by
      cases hend : w.ended with
      | none => rfl
      | some e =>
        obtain ⟨a, ha⟩ := ended_of_turns _ hturns hend
        cases ha
    unfold Result at hres
    rw [hend] at hres
    obtain ⟨s, hs, -⟩ := hres
    exact ⟨s, hs⟩
  · have hle := hinside w hturns
    apply absurd _ hfull
    show 0 + w.queue.length ≤ maxUdts
    omega

theorem listTags_exit (hnot : ¬ (EveryProgramListed ctrl prog ∧
    (seeds (nodes ctrl prog)).length < maxUdts)) :
    ∃ n, ∀ turns, n ≤ turns → ∃ s, listTags plc turns gateway path fresh = .error .exit s := by
  refine ⟨payloadTurns ctrl prog, fun turns hturns => ?_⟩
  obtain ⟨hctrl, hprog⟩ := turns_enough hturns
  obtain ⟨hlist, hempty⟩ := tagListing_wellFormed h hctrl hprog
  by_cases hall : EveryProgramListed ctrl prog
  · have hroom : ¬ SeedRoom fresh (seeds (nodes ctrl prog)) := by
      rintro (hnil | hlt)
      · exact hnot ⟨hall, by rw [hnil]; decide⟩
      · rw [fresh, Statics.lastUdt, List.length_nil, Nat.zero_add] at hlt
        exact hnot ⟨hall, hlt⟩
    obtain ⟨s, -, hs⟩ := collectUdts_full plc (tagStringBase gateway path) (nodes ctrl prog)
      cleared_fresh.toBounded hroom
    rw [if_pos (by decide)] at hs
    refine ⟨s, ?_⟩
    rw [listTags_listing fresh h.version (hlist hall)]
    exact bind_of_error _ hs
  · exact ⟨_, listTags_error fresh h.version (hempty hall)⟩

/-- The first call on a well-formed controller returns 0 when every program has tags and the queue
has room; it exits when a program has none, or too many tags are structured. -/
theorem listTags_succeeds :
    (EveryProgramListed ctrl prog ∧ (seeds (nodes ctrl prog)).length < maxUdts →
      StaysInside templates (seeds (nodes ctrl prog)) →
        ∃ n, ∀ turns, n ≤ turns →
          ∃ entries s, listTags plc turns gateway path fresh = .ok (0, entries) s) ∧
    (¬ (EveryProgramListed ctrl prog ∧ (seeds (nodes ctrl prog)).length < maxUdts) →
      ∃ n, ∀ turns, n ≤ turns → ∃ s, listTags plc turns gateway path fresh = .error .exit s) := by
  refine ⟨fun ⟨hall, hseeds⟩ hinside => ⟨payloadTurns ctrl prog, fun turns hturns => ?_⟩,
    listTags_exit h⟩
  obtain ⟨hctrl, hprog⟩ := turns_enough hturns
  have hlist := (tagListing_wellFormed h hctrl hprog).1 hall
  obtain ⟨s, hs⟩ := collectUdts_wellFormed h hseeds hinside
  obtain ⟨entries, hentries⟩ := exportEntries_named plc.heap 0 _ (nodes_named ctrl prog)
  refine ⟨entries, { s with udts := fun _ => none }, ?_⟩
  rw [listTags_listing fresh h.version hlist]
  have hclear : clear fresh = fresh := rfl
  rw [hclear, bind_of_ok _ hs, hentries]
  rfl

end Call

/-! ## Three controllers -/

def oneField (id type : UInt16) (hid : id.toNat < maxUdts) : Template where
  id := id
  memberDescSize := 5
  instanceSize := 4
  structHandle := 0x4321
  fields := [⟨0, type, 0⟩]
  name := text "ONE"
  memberNames := [text "V"]
  id_lt := hid
  fields_length := Nat.lt_of_sub_eq_succ rfl
  name_nul := by simp [text]
  names_le := le_rfl
  names_length := by simp [text]
  names_nul := by simp [text]

def nestedTemplates (id : UInt16) : Template :=
  if id = 17 then oneField 17 0x8012 (by decide) else oneField 18 0x00C4 (by decide)

def nestedCtrl : List Record :=
  [⟨1, 0x8011, 4, fun _ => 0, text "OUTER", by simp [text], by simp [text]⟩,
    ⟨2, 0x1068, 4, fun _ => 0, text "Program:MAIN", by simp [text], by simp [text]⟩]

def nestedProg : Text → List Record :=
  fun _ => [⟨3, 0x00C4, 4, fun _ => 0, text "INNER", by simp [text], by simp [text]⟩]

def nestedPlc : Plc := imagePlc
  [(ctrlString sampleBase, listingTagLogixByteOrder, nestedCtrl.flatMap Record.encode),
    (progString sampleBase (text "Program:MAIN"), listingTagLogixByteOrder,
      (nestedProg (text "Program:MAIN")).flatMap Record.encode),
    (sampleBase ++ udtName 17, udtTagLogixByteOrder, (nestedTemplates 17).encode),
    (sampleBase ++ udtName 18, udtTagLogixByteOrder, (nestedTemplates 18).encode)]

theorem nested_reach {id : UInt16}
    (h : ReflTransGen (Child (templateVisits nestedTemplates)) 17 id) : id = 17 ∨ id = 18 := by
  induction h with
  | refl => exact .inl rfl
  | tail _ hchild ih =>
    apply Or.inr
    rcases ih with rfl | rfl
    · exact List.mem_singleton.mp hchild
    · exact absurd hchild List.not_mem_nil

theorem wellFormed_nested : WellFormed nestedPlc (text "g") (text "1") nestedCtrl nestedProg
    nestedTemplates where
  version := rfl
  gatewayGiven := by simp [text]
  pathGiven := by simp [text]
  calloc _ _ _ := rfl
  nonempty := List.cons_ne_nil _ _
  ctrlAnswers := ⟨by decide +kernel, Int.one_pos, by decide +kernel⟩
  ctrlLists := ⟨rfl, rfl, rfl, by decide +kernel⟩
  progAnswers := by
    intro p hp hprogram
    simp only [nestedCtrl, List.mem_cons, List.not_mem_nil, or_false] at hp
    rcases hp with rfl | rfl
    · exact absurd hprogram (by decide)
    · exact ⟨by decide +kernel, Int.one_pos, by decide +kernel⟩
  progLists := by
    intro p hp hprogram
    simp only [nestedCtrl, List.mem_cons, List.not_mem_nil, or_false] at hp
    rcases hp with rfl | rfl
    · exact absurd hprogram (by decide)
    · exact ⟨by decide +kernel, by decide +kernel, rfl, by decide +kernel⟩
  udtAnswers := by
    intro a ha id hreach
    obtain rfl : a = 17 := List.mem_singleton.mp ha
    rcases nested_reach hreach with rfl | rfl
    · exact ⟨by decide +kernel, Int.one_pos, by decide +kernel⟩
    · exact ⟨by decide +kernel, Int.one_pos, by decide +kernel⟩
  udtHolds := by
    intro a ha id hreach
    obtain rfl : a = 17 := List.mem_singleton.mp ha
    rcases nested_reach hreach with rfl | rfl
    · exact ⟨rfl, ⟨[], by decide +kernel, fun _ => rfl, by decide +kernel⟩, by decide +kernel, rfl⟩
    · exact ⟨rfl, ⟨[], by decide +kernel, fun _ => rfl, by decide +kernel⟩, by decide +kernel, rfl⟩

theorem staysInside_nested : StaysInside nestedTemplates [17] := by
  set visits := templateVisits nestedTemplates with hvisits
  have hrun : Turns visits (start [17]) (next visits (next visits (start [17]) 17) 18) :=
    .tail (.single ⟨rfl, 17, rfl, rfl⟩) ⟨rfl, 18, rfl, rfl⟩
  intro w hw
  have hle := queue_le_of_turns _ (turns_of_over _ hrun (.inr le_rfl) hw)
  apply hle.trans
  decide

theorem listTags_succeeds_nested : ∃ n, ∀ turns, n ≤ turns →
    ∃ entries s, listTags nestedPlc turns (text "g") (text "1") fresh = .ok (0, entries) s := by
  apply (listTags_succeeds wellFormed_nested).1 _ staysInside_nested
  refine ⟨fun p _ _ => List.cons_ne_nil _ _, ?_⟩
  decide

def emptyCtrl : List Record :=
  [⟨1, 0x1068, 4, fun _ => 0, text "Program:IDLE", by simp [text], by simp [text]⟩]

def emptyPlc : Plc := imagePlc
  [(ctrlString sampleBase, listingTagLogixByteOrder, emptyCtrl.flatMap Record.encode),
    (progString sampleBase (text "Program:IDLE"), listingTagLogixByteOrder, [])]

theorem wellFormed_empty : WellFormed emptyPlc (text "g") (text "1") emptyCtrl (fun _ => [])
    nestedTemplates where
  version := rfl
  gatewayGiven := by simp [text]
  pathGiven := by simp [text]
  calloc _ _ _ := rfl
  nonempty := List.cons_ne_nil _ _
  ctrlAnswers := ⟨by decide +kernel, Int.one_pos, by decide +kernel⟩
  ctrlLists := ⟨rfl, rfl, rfl, by decide +kernel⟩
  progAnswers := by
    intro p hp _
    obtain rfl := List.mem_singleton.mp hp
    exact ⟨by decide +kernel, Int.one_pos, by decide +kernel⟩
  progLists := by
    intro p hp _
    obtain rfl := List.mem_singleton.mp hp
    exact ⟨by decide +kernel, by decide +kernel, rfl, by decide +kernel⟩
  udtAnswers a ha := absurd ha List.not_mem_nil
  udtHolds a ha := absurd ha List.not_mem_nil

def crowdedRecord (i : ℕ) : Record where
  instanceId := UInt32.ofNat (i + 1)
  type := 0x8012
  elementLength := 4
  dims := fun _ => 0
  name := [UInt8.ofNat (65 + i / 64 % 64), UInt8.ofNat (65 + i % 64)]
  name_length := by simp
  name_nul := by
    have hletter : ∀ n < 64, (0 : UInt8) ≠ UInt8.ofNat (65 + n) := by decide
    rw [List.mem_cons, List.mem_singleton, not_or]
    exact ⟨hletter _ (Nat.mod_lt _ (by decide)), hletter _ (Nat.mod_lt _ (by decide))⟩

def crowdedCtrl : List Record := (List.range maxUdts).map crowdedRecord

def crowdedPlc : Plc := imagePlc
  [(ctrlString sampleBase, listingTagLogixByteOrder, crowdedCtrl.flatMap Record.encode),
    (sampleBase ++ udtName 18, udtTagLogixByteOrder, (nestedTemplates 18).encode)]

theorem crowded_no_program : ∀ p ∈ crowdedCtrl, p.isProgram = false := by
  intro p hp
  obtain ⟨i, -, rfl⟩ := List.mem_map.mp hp
  simp [Record.isProgram, isProgram, crowdedRecord, text, List.isPrefixOf]

theorem seeds_crowded (prog : Text → List Record) :
    seeds (nodes crowdedCtrl prog) = List.replicate maxUdts 18 := by
  have hnone : crowdedCtrl.filter Record.isProgram = [] := by
    apply List.filter_eq_nil_iff.mpr
    intro p hp
    simp [crowded_no_program p hp]
  have hnodes : nodes crowdedCtrl prog =
      ((List.range maxUdts).map fun i => (crowdedRecord i).node none).reverse := by
    unfold nodes
    rw [hnone, List.flatMap_nil, List.nil_append, crowdedCtrl, List.map_map]
    rfl
  unfold seeds
  rw [hnodes, List.filter_reverse, List.map_reverse, List.filter_map, List.map_map]
  have hall : (List.range maxUdts).filter
      ((fun tag : TagNode => isUdtType tag.type) ∘ fun i => (crowdedRecord i).node none) =
      List.range maxUdts := by
    apply List.filter_eq_self.mpr
    intro i _
    have htype : isUdtType 0x8012 = true := by decide
    show isUdtType (crowdedRecord i).type = true
    rw [crowdedRecord, htype]
  have hconst : ((fun tag : TagNode => udtId tag.type) ∘ fun i => (crowdedRecord i).node none) =
      fun _ => 18 := by
    funext i
    have hid : udtId 0x8012 = 18 := by decide
    exact hid
  rw [hall, hconst, List.map_const', List.length_range, List.reverse_replicate]

theorem crowded_size : (crowdedCtrl.flatMap Record.encode).length < 2 ^ 31 := by
  have hlengths : crowdedCtrl.map (fun r => r.encode.length) = List.replicate maxUdts 24 := by
    rw [crowdedCtrl, List.map_map]
    have hconst : (fun r : Record => r.encode.length) ∘ crowdedRecord = fun _ => 24 := by
      funext i
      simp [Record.encode_length, crowdedRecord]
    rw [hconst, List.map_const', List.length_range]
  rw [List.length_flatMap, hlengths, List.sum_replicate]
  decide

theorem wellFormed_crowded : WellFormed crowdedPlc (text "g") (text "1") crowdedCtrl (fun _ => [])
    nestedTemplates where
  version := rfl
  gatewayGiven := by simp [text]
  pathGiven := by simp [text]
  calloc _ _ _ := rfl
  nonempty := by simp [crowdedCtrl, maxUdts]
  ctrlAnswers := ⟨by decide +kernel, Int.one_pos, by rfl⟩
  ctrlLists := ⟨rfl, rfl, rfl, crowded_size⟩
  progAnswers p hp hprogram := by
    rw [crowded_no_program p hp] at hprogram
    cases hprogram
  progLists p hp hprogram := by
    rw [crowded_no_program p hp] at hprogram
    cases hprogram
  udtAnswers := by
    intro a ha id hreach
    rw [seeds_crowded] at ha
    obtain rfl := List.eq_of_mem_replicate ha
    rcases ReflTransGen.cases_head hreach with rfl | ⟨b, hchild, -⟩
    · exact ⟨by decide +kernel, Int.one_pos, by rfl⟩
    · exact absurd hchild List.not_mem_nil
  udtHolds := by
    intro a ha id hreach
    rw [seeds_crowded] at ha
    obtain rfl := List.eq_of_mem_replicate ha
    rcases ReflTransGen.cases_head hreach with rfl | ⟨b, hchild, -⟩
    · exact ⟨rfl, ⟨[], rfl, fun _ => rfl, by decide +kernel⟩, rfl, rfl⟩
    · exact absurd hchild List.not_mem_nil

/-- Neither a program without tags nor many tags of one structure are accepted. -/
theorem listTags_refuses :
    (WellFormed emptyPlc (text "g") (text "1") emptyCtrl (fun _ => []) nestedTemplates ∧
      ∃ n, ∀ turns, n ≤ turns →
        ∃ s, listTags emptyPlc turns (text "g") (text "1") fresh = .error .exit s) ∧
    (WellFormed crowdedPlc (text "g") (text "1") crowdedCtrl (fun _ => []) nestedTemplates ∧
      ∃ n, ∀ turns, n ≤ turns →
        ∃ s, listTags crowdedPlc turns (text "g") (text "1") fresh = .error .exit s) := by
  refine ⟨⟨wellFormed_empty, listTags_exit wellFormed_empty ?_⟩,
    ⟨wellFormed_crowded, listTags_exit wellFormed_crowded ?_⟩⟩
  · rintro ⟨hall, -⟩
    exact hall _ List.mem_cons_self (by decide) rfl
  · rintro ⟨-, hlt⟩
    rw [seeds_crowded, List.length_replicate] at hlt
    exact Nat.lt_irrefl _ hlt

end Plctagt.Listing
