import Plctagt.Listing.Records

/-! # Any outcome of the calls of a listing

`process_tag_entry` and `get_tag_list` as programs: the library and the allocator may answer each
call as they like. With a library that works they are the functions of the same names on the tag
behind the handle (`eval_getTagList`).

The loop of `get_tag_list` ends when a record is refused as it does when the payload is consumed,
and what it returns is OK in both cases.
-/
namespace Plctagt.Listing.Outcomes
open Effects Decimal Tag
set_option autoImplicit false

def timeoutMs : ℤ := 5000

def getUint16 (tag offset : ℤ) : Program UInt16 := do
  let v ← (perform (Call.getNum .uint16 tag offset) : Program (BitVec 16))
  pure (UInt16.ofNat v.toNat)

/-- `(uint16_t)plc_tag_get_uint32(tag, offset)`. -/
def getUint32Low (tag offset : ℤ) : Program UInt16 := do
  let v ← (perform (Call.getNum .uint32 tag offset) : Program (BitVec 32))
  pure (UInt16.ofNat v.toNat)

/-- `process_tag_entry` from the reading of the name on, with the fields before it read. -/
def nameEntry (tag offset : ℤ) (node : Option Text → TagNode) :
    Program (ℤ × ℤ × Option TagNode) := do
  let tagNameLen ← replied (← perform (.getStringLength tag offset))
  let allocated ← perform (.malloc (toUnsigned (tagNameLen + 1)))
  if allocated = false then pure (plctagErrNoMem, offset, none)
  else do
    let (rc, tagName) ← replied (← perform (.getString tag offset (tagNameLen + 1)))
    if rc ≠ plctagStatusOk then pure (rc, offset, none)
    else do
      let total ← replied (← perform (.getStringTotalLength tag offset))
      let allocated ← perform (.malloc 40)
      if allocated = false then pure (plctagErrNoMem, offset + total, none)
      else
        let name := if tagNameLen + 1 = 0 then none else some (cstr tagName)
        pure (plctagStatusOk, offset + total, some (node name))

/-- `process_tag_entry`: the status, the offset after it, and the entry it has linked. -/
def processTagEntry (tag offset : ℤ) (parent : Option Text) : Program (ℤ × ℤ × Option TagNode) := do
  let lastTagId ← getUint32Low tag offset
  let tagType ← getUint16 tag (offset + 4)
  let elementLength ← getUint16 tag (offset + 6)
  let dim0 ← getUint32Low tag (offset + 8)
  let dim1 ← getUint32Low tag (offset + 12)
  let dim2 ← getUint32Low tag (offset + 16)
  let arrayDims : Fin 3 → UInt16 := ![dim0, dim1, dim2]
  let numDimensions := (tagType &&& tagDimMask) >>> 13
  nameEntry tag (offset + 20) fun name =>
    { name := name
      parent := parent
      instanceId := lastTagId
      type := tagType
      elemSize := elementLength
      elemCount := dimProduct numDimensions arrayDims
      numDimensions := numDimensions
      dimensions := arrayDims }

/-- The loop of `get_tag_list`. -/
def tagEntries (tag payloadSize : ℤ) (parent : Option Text) :
    ℕ → (offset : ℤ) → List TagNode → Program (List TagNode)
  | 0, _, _ => .stop .fuel
  | turns + 1, offset, tagList => do
    let (rc, offset, entry) ← processTagEntry tag offset parent
    let tagList := entry.toList ++ tagList
    if rc = plctagStatusOk ∧ offset < payloadSize then
      tagEntries tag payloadSize parent turns offset tagList
    else pure tagList

/-- `get_tag_list`: the status, and the list. -/
def getTagList (turns : ℕ) (tag : ℤ) (parent : Option Text) (tagList : List TagNode) :
    Program (ℤ × List TagNode) := do
  let rc ← perform (.read tag timeoutMs)
  if rc ≠ plctagStatusOk then .stop .exit
  else do
    let payloadSize ← perform (.getSize tag)
    if payloadSize < 0 then .stop .exit
    else if payloadSize < 4 then .stop .exit
    else do
      let tagList ← tagEntries tag payloadSize parent turns 0 tagList
      pure (plctagStatusOk, tagList)

/-! ## What the runs do -/

/-- A call that ends the processing of a record: no memory, or an error for the name. -/
def Refuses : Event Call.Reply → Prop
  | ⟨.malloc _, r⟩ => r = false
  | ⟨.getString _ _ _, r⟩ => ∃ rc name, r = some (rc, name) ∧ rc ≠ plctagStatusOk
  | _ => False

/-- From `offset` on, the calls of the trace take all of the payload as records, and each of these is
linked in front of the list. -/
inductive Consumed (tag payloadSize : ℤ) (parent : Option Text) :
    ℤ → Trace → List TagNode → List TagNode → Prop
  | last (offset offset' : ℤ) (tr : Trace) (node : TagNode) (tagList : List TagNode)
      (h : Runs (processTagEntry tag offset parent) tr (.ok (plctagStatusOk, offset', some node)))
      (hend : payloadSize ≤ offset') :
      Consumed tag payloadSize parent offset tr tagList (node :: tagList)
  | more (offset offset' : ℤ) (tr tr' : Trace) (node : TagNode) (tagList tagList' : List TagNode)
      (h : Runs (processTagEntry tag offset parent) tr (.ok (plctagStatusOk, offset', some node)))
      (hlt : offset' < payloadSize)
      (hrest : Consumed tag payloadSize parent offset' tr' (node :: tagList) tagList') :
      Consumed tag payloadSize parent offset (tr ++ tr') tagList tagList'

/-- What is left of one record: accepted and linked, or refused. -/
def Processed (tr : Trace) (o : Except Fault (ℤ × ℤ × Option TagNode)) : Prop :=
  ∀ rc offset entry, o = .ok (rc, offset, entry) →
    (rc = plctagStatusOk ∧ (∃ node, entry = some node) ∧ ∀ ev ∈ tr, ¬Refuses ev) ∨
      (rc ≠ plctagStatusOk ∧ ∃ ev ∈ tr, Refuses ev)

theorem Processed.cons {tr : Trace} {o : Except Fault (ℤ × ℤ × Option TagNode)}
    (h : Processed tr o) {ev : Event Call.Reply} (hev : ¬Refuses ev) : Processed (ev :: tr) o := by
  intro rc offset entry ho
  rcases h rc offset entry ho with ⟨hrc, hentry, hall⟩ | ⟨hrc, ev', hmem, hrefuses⟩
  · refine .inl ⟨hrc, hentry, ?_⟩
    intro ev' hev'
    rcases List.mem_cons.mp hev' with rfl | hev'
    · exact hev
    · exact hall ev' hev'
  · exact .inr ⟨hrc, ev', List.mem_cons_of_mem _ hmem, hrefuses⟩

theorem processed_noMem (size : ℕ) (offset : ℤ) :
    Processed [⟨.malloc size, false⟩] (.ok (plctagErrNoMem, offset, none)) := by
  intro rc offset' entry ho
  cases ho
  exact .inr ⟨by decide, _, List.mem_cons_self, rfl⟩

theorem processed_fault {tr : Trace} {e : Fault} : Processed tr (.error e) := by
  intro rc offset entry ho
  cases ho

theorem meets_nameEntry (tag offset : ℤ) (node : Option Text → TagNode) :
    Meets (nameEntry tag offset node) Processed := by
  unfold nameEntry
  apply meets_call
  intro length
  refine Meets.weaken ?_ fun tr o h => Processed.cons h id
  cases length with
  | none => exact meets_stop processed_fault
  | some tagNameLen =>
    apply meets_call
    intro allocated
    cases allocated with
    | false => exact meets_pure (processed_noMem _ _)
    | true =>
      refine Meets.weaken ?_ fun tr o h => Processed.cons h Bool.false_ne_true.symm
      apply meets_call
      intro got
      cases got with
      | none => exact meets_stop processed_fault
      | some x =>
        obtain ⟨rc, tagName⟩ := x
        by_cases hrc : rc = plctagStatusOk
        · subst hrc
          refine Meets.weaken ?_ fun tr o h => Processed.cons h ?_
          · apply meets_call
            intro total
            refine Meets.weaken ?_ fun tr o h => Processed.cons h id
            cases total with
            | none => exact meets_stop processed_fault
            | some total =>
              apply meets_call
              intro allocated
              cases allocated with
              | false => exact meets_pure (processed_noMem _ _)
              | true =>
                apply meets_pure
                intro rc' offset' entry ho
                cases ho
                refine .inl ⟨rfl, ⟨_, rfl⟩, ?_⟩
                intro ev hev
                obtain rfl := List.mem_singleton.mp hev
                exact Bool.false_ne_true.symm
          · rintro ⟨rc, name, heq, hrc⟩
            cases heq
            exact hrc rfl
        · show Meets (if rc ≠ plctagStatusOk then _ else _) _
          rw [if_pos hrc]
          apply meets_pure
          intro rc' offset' entry ho
          cases ho
          exact .inr ⟨hrc, _, List.mem_cons_self, rc, tagName, rfl, hrc⟩

theorem meets_getUint16 (tag offset : ℤ) {f : UInt16 → Program (ℤ × ℤ × Option TagNode)}
    (hf : ∀ v, Meets (f v) Processed) : Meets (getUint16 tag offset >>= f) Processed :=
  meets_call fun _ => (hf _).weaken fun _ _ h => h.cons id

theorem meets_getUint32Low (tag offset : ℤ) {f : UInt16 → Program (ℤ × ℤ × Option TagNode)}
    (hf : ∀ v, Meets (f v) Processed) : Meets (getUint32Low tag offset >>= f) Processed :=
  meets_call fun _ => (hf _).weaken fun _ _ h => h.cons id

theorem meets_processTagEntry (tag offset : ℤ) (parent : Option Text) :
    Meets (processTagEntry tag offset parent) Processed := by
  unfold processTagEntry
  apply meets_getUint32Low
  intro lastTagId
  apply meets_getUint16
  intro tagType
  apply meets_getUint16
  intro elementLength
  apply meets_getUint32Low
  intro dim0
  apply meets_getUint32Low
  intro dim1
  apply meets_getUint32Low
  intro dim2
  exact meets_nameEntry tag (offset + 20) _

theorem consumed_iff {tag payloadSize : ℤ} {parent : Option Text} {turns : ℕ} {offset : ℤ}
    {tr : Trace} {tagList tagList' : List TagNode}
    (h : Runs (tagEntries tag payloadSize parent turns offset tagList) tr (.ok tagList')) :
    Consumed tag payloadSize parent offset tr tagList tagList' ↔ ∀ ev ∈ tr, ¬Refuses ev := by
  constructor
  · intro hconsumed
    clear h
    induction hconsumed with
    | last offset offset' tr node tagList h _ =>
      rcases meets_processTagEntry tag offset parent tr _ h _ _ _ rfl with ⟨-, -, hall⟩ | ⟨hrc, -⟩
      · exact hall
      · exact absurd rfl hrc
    | more offset offset' tr tr' node tagList tagList' h _ _ ih =>
      rcases meets_processTagEntry tag offset parent tr _ h _ _ _ rfl with ⟨-, -, hall⟩ | ⟨hrc, -⟩
      · intro ev hev
        rcases List.mem_append.mp hev with hev | hev
        · exact hall ev hev
        · exact ih ev hev
      · exact absurd rfl hrc
  · intro haccepted
    induction turns generalizing offset tr tagList with
    | zero =>
      obtain ⟨-, h⟩ := h
      cases h
    | succ turns ih =>
      unfold tagEntries at h
      rcases (runs_bind _ _ _ _).mp h with ⟨tr₁, tr₂, x, rfl, h₁, h₂⟩ | ⟨e, he, -⟩
      · obtain ⟨rc, offset', entry⟩ := x
        have haccepted₁ : ∀ ev ∈ tr₁, ¬Refuses ev :=
          fun ev hev => haccepted ev (List.mem_append_left _ hev)
        rcases meets_processTagEntry tag offset parent tr₁ _ h₁ _ _ _ rfl with
          ⟨rfl, ⟨node, rfl⟩, -⟩ | ⟨-, ev, hev, hrefuses⟩
        · dsimp only at h₂
          by_cases hlt : offset' < payloadSize
          · rw [if_pos ⟨rfl, hlt⟩] at h₂
            exact .more offset offset' tr₁ tr₂ node tagList tagList' h₁ hlt
              (ih h₂ fun ev hev => haccepted ev (List.mem_append_right _ hev))
          · rw [if_neg fun hboth => hlt hboth.2] at h₂
            obtain ⟨rfl, hlist⟩ := h₂
            cases hlist
            rw [List.append_nil]
            exact .last offset offset' tr₁ node tagList h₁ (not_lt.mp hlt)
        · exact absurd hrefuses (haccepted₁ ev hev)
      · cases he

/-- A run of `get_tag_list` that returns returns OK; the payload has then been consumed and all of it
linked, if and only if no allocation failed and no name was refused. -/
theorem getTagList_complete_iff {turns : ℕ} {tag : ℤ} {parent : Option Text}
    {tagList tagList' : List TagNode} {tr : Trace} {rc : ℤ}
    (h : Runs (getTagList turns tag parent tagList) tr (.ok (rc, tagList'))) :
    (rc = plctagStatusOk → ∃ (payloadSize : ℤ) (rest : Trace), 4 ≤ payloadSize ∧
        tr = ⟨.read tag timeoutMs, plctagStatusOk⟩ :: ⟨.getSize tag, payloadSize⟩ :: rest ∧
        Consumed tag payloadSize parent 0 rest tagList tagList') ↔
      ∀ ev ∈ tr, ¬Refuses ev := by
  obtain ⟨rcRead, tr₁, rfl, h⟩ := h
  dsimp only [Prog.bind] at h
  by_cases hread : rcRead = plctagStatusOk
  · rw [if_neg (not_not.mpr hread)] at h
    obtain ⟨(payloadSize : ℤ), tr₂, rfl, h⟩ := h
    dsimp only [Prog.bind] at h
    by_cases hsize : 4 ≤ payloadSize
    · have hneg : ¬payloadSize < 0 := by omega
      rw [if_neg hneg, if_neg (not_lt.mpr hsize)] at h
      rcases (runs_bind _ _ _ _).mp h with ⟨tr₃, tr₄, list, rfl, hloop, hret⟩ | ⟨e, he, -⟩
      · obtain ⟨rfl, hret⟩ := hret
        cases hret
        rw [List.append_nil, hread]
        have hiff := consumed_iff hloop
        constructor
        · intro hconsumed
          obtain ⟨size, rest, -, htr, hrest⟩ := hconsumed rfl
          cases htr
          intro ev hev
          rcases List.mem_cons.mp hev with rfl | hev
          · exact id
          · rcases List.mem_cons.mp hev with rfl | hev
            · exact id
            · exact hiff.mp hrest ev hev
        · intro haccepted _
          refine ⟨payloadSize, tr₃, hsize, rfl, hiff.mpr fun ev hev => ?_⟩
          exact haccepted ev (List.mem_cons_of_mem _ (List.mem_cons_of_mem _ hev))
      · cases he
    · split at h
      · obtain ⟨-, h⟩ := h
        cases h
      · rw [if_pos (not_le.mp hsize)] at h
        obtain ⟨-, h⟩ := h
        cases h
  · rw [if_pos hread] at h
    obtain ⟨-, h⟩ := h
    cases h

theorem Consumed.length_lt {tag payloadSize : ℤ} {parent : Option Text} {offset : ℤ} {tr : Trace}
    {tagList tagList' : List TagNode}
    (h : Consumed tag payloadSize parent offset tr tagList tagList') :
    tagList.length < tagList'.length := by
  induction h with
  | last => exact Nat.lt_succ_self _
  | more _ _ _ _ _ _ _ _ _ _ ih => exact Nat.lt_of_succ_lt ih

/-! ## A library that works -/

/-- How a program says that a listing halts. -/
def fault : Halt → Fault
  | .exit => .exit
  | .undefined => .undefined
  | .overrun => .undefined
  | .turns => .fuel

section World
variable {w : World} {tag : ℤ} {tagString : Text} {plc : Plc} {d : Device}
  (hw : w.Connected tag tagString (plc.tag tagString) d)
include hw

theorem eval_getUint16 {α : Type} (offset : ℤ) (f : UInt16 → Program α) :
    eval World.serve (getUint16 tag offset >>= f) w =
      eval World.serve (f (Listing.getUint16 (plc.tag tagString) offset)) w := by
  show eval World.serve (f (UInt16.ofNat (World.serve (.getNum .uint16 tag offset) w).1.toNat))
    (World.serve (.getNum .uint16 tag offset) w).2 = _
  simp only [World.serve, World.look_connected hw]
  rfl

theorem eval_getUint32Low {α : Type} (offset : ℤ) (f : UInt16 → Program α) :
    eval World.serve (getUint32Low tag offset >>= f) w =
      eval World.serve (f (Listing.getUint32Low (plc.tag tagString) offset)) w := by
  show eval World.serve (f (UInt16.ofNat (World.serve (.getNum .uint32 tag offset) w).1.toNat))
    (World.serve (.getNum .uint32 tag offset) w).2 = _
  simp only [World.serve, World.look_connected hw]
  rfl

theorem eval_processTagEntry
    (hcalloc : ∀ offset size, plc.calloc tagString offset size = w.malloc (toUnsigned size))
    (offset : ℤ) (parent : Option Text) :
    eval World.serve (processTagEntry tag offset parent) w =
      ((Listing.processTagEntry plc tagString offset parent).mapError fault, w) := by
  unfold processTagEntry
  rw [eval_getUint32Low hw, eval_getUint16 hw, eval_getUint16 hw, eval_getUint32Low hw,
    eval_getUint32Low hw, eval_getUint32Low hw]
  have hdims : ![Listing.getUint32Low (plc.tag tagString) (offset + 8),
      Listing.getUint32Low (plc.tag tagString) (offset + 12),
      Listing.getUint32Low (plc.tag tagString) (offset + 16)] =
        fun i : Fin 3 => Listing.getUint32Low (plc.tag tagString) (offset + 8 + 4 * i) := by
    funext i
    fin_cases i
    · simp
    · simp [add_assoc]
    · simp [add_assoc]
  dsimp only
  rw [hdims]
  unfold nameEntry Listing.processTagEntry
  dsimp only
  rw [eval_perform_bind, World.serve, World.look_connected hw]
  dsimp only
  cases plcTagGetStringLength (plc.tag tagString) (offset + 20) with
  | none => rfl
  | some tagNameLen =>
    show eval World.serve (if w.malloc (toUnsigned (tagNameLen + 1)) = false then _ else _) w =
      (Except.mapError fault (if plc.calloc tagString (offset + 20) (tagNameLen + 1) = false then _
        else _), w)
    rw [hcalloc]
    by_cases hname : w.malloc (toUnsigned (tagNameLen + 1)) = false
    · rw [if_pos hname, if_pos hname]
      rfl
    rw [if_neg hname, if_neg hname, eval_perform_bind, World.serve, World.look_connected hw]
    dsimp only
    cases plcTagGetString (plc.tag tagString) (offset + 20) (tagNameLen + 1) with
    | none => rfl
    | some got =>
      obtain ⟨rc, tagName⟩ := got
      show eval World.serve (if rc ≠ plctagStatusOk then _ else _) w =
        (Except.mapError fault (if rc ≠ plctagStatusOk then _ else _), w)
      by_cases hrc : rc ≠ plctagStatusOk
      · rw [if_pos hrc, if_pos hrc]
        rfl
      rw [if_neg hrc, if_neg hrc, eval_perform_bind, World.serve, World.look_connected hw]
      dsimp only
      cases plcTagGetStringTotalLength (plc.tag tagString) (offset + 20) with
      | none => rfl
      | some total =>
        show eval World.serve (if w.malloc (toUnsigned 40) = false then _ else _) w =
          (Except.mapError fault (if plc.calloc tagString (offset + 20 + total) 40 = false then _
            else _), w)
        rw [hcalloc]
        by_cases hentry : w.malloc (toUnsigned 40) = false
        · rw [if_pos hentry, if_pos hentry]
          rfl
        · rw [if_neg hentry, if_neg hentry]
          rfl

theorem eval_tagEntries
    (hcalloc : ∀ offset size, plc.calloc tagString offset size = w.malloc (toUnsigned size))
    (payloadSize : ℤ) (parent : Option Text) (turns : ℕ) (offset : ℤ) (tagList : List TagNode) :
    eval World.serve (tagEntries tag payloadSize parent turns offset tagList) w =
      ((Listing.tagEntries plc tagString parent payloadSize turns offset tagList).mapError fault,
        w) := by
  induction turns generalizing offset tagList with
  | zero => rfl
  | succ turns ih =>
    unfold tagEntries Listing.tagEntries
    have hentry := eval_processTagEntry hw hcalloc offset parent
    cases hrun : Listing.processTagEntry plc tagString offset parent with
    | error e =>
      rw [hrun] at hentry
      change _ = (Except.error (fault e), w) at hentry
      rw [eval_bind_error _ _ hentry]
      rfl
    | ok x =>
      obtain ⟨rc, offset', entry⟩ := x
      rw [hrun] at hentry
      change _ = (Except.ok (rc, offset', entry), w) at hentry
      rw [eval_bind_ok _ _ hentry]
      show eval World.serve (if rc = plctagStatusOk ∧ offset' < payloadSize then _ else _) w =
        (Except.mapError fault (if rc = plctagStatusOk ∧ offset' < payloadSize then _ else _), w)
      by_cases hagain : rc = plctagStatusOk ∧ offset' < payloadSize
      · rw [if_pos hagain, if_pos hagain]
        exact ih offset' _
      · rw [if_neg hagain, if_neg hagain]
        rfl

end World

theorem eval_getTagList {w : World} {tag : ℤ} {tagString : Text} {plc : Plc} {d : Device}
    {p : PlcTag} (hw : w.Connected tag tagString p d)
    (hread : plc.read tagString = d.readStatus)
    (htag : plc.tag tagString = { p with data := some d.memory })
    (hcalloc : ∀ offset size, plc.calloc tagString offset size = w.malloc (toUnsigned size))
    (turns : ℕ) (parent : Option Text) (tagList : List TagNode) :
    (eval World.serve (getTagList turns tag parent tagList) w).1 =
      ((Listing.getTagList plc turns tagString parent tagList).map fun list =>
        (plctagStatusOk, list)).mapError fault := by
  unfold getTagList Listing.getTagList
  rw [eval_perform_bind, hread]
  by_cases hok : d.readStatus = plctagStatusOk
  · have hw' : (w.setData tag tagString p d.memory).Connected tag tagString (plc.tag tagString) d :=
      htag ▸ hw.setData d.memory
    rw [World.serve, World.read_connected hw hok, if_neg (not_not.mpr hok)]
    dsimp only
    rw [if_neg (not_not.mpr rfl), eval_perform_bind, World.serve, World.look_connected hw']
    dsimp only
    rw [if_neg (by simp)]
    by_cases hsize : ((plc.tag tagString).size : ℤ) < 4
    · rw [if_pos hsize, if_pos hsize]
      rfl
    · rw [if_neg hsize, if_neg hsize]
      have hloop := eval_tagEntries hw' hcalloc ((plc.tag tagString).size : ℤ) parent turns 0 tagList
      cases hrun : Listing.tagEntries plc tagString parent (plc.tag tagString).size turns 0 tagList with
      | error e =>
        rw [hrun] at hloop
        change _ = (Except.error (fault e), _) at hloop
        rw [eval_bind_error _ _ hloop]
        rfl
      | ok list =>
        rw [hrun] at hloop
        change _ = (Except.ok list, _) at hloop
        rw [eval_bind_ok _ _ hloop]
        rfl
  · have hstatus : World.serve (.read tag timeoutMs) w = (d.readStatus, w) := by
      simp [World.serve, World.read, hw.session, hw.device, hok]
    rw [hstatus, if_pos hok]
    dsimp only
    rw [if_pos hok]
    rfl

/-! ## One record -/

def recordWorld : World :=
  World.single 1 (text "@tags") ⟨none, false, 0, false, listingTagLogixByteOrder⟩
    { memory := [1, 0, 0, 0, 0xC4, 0, 4, 0, 0, 0, 0, 0, 0, 0, 0, 0, 0, 0, 0, 0, 1, 0, 65]
      elemSize := 23, elemCount := 1, readStatus := 0, writeStatus := 0 }

theorem getTagList_complete_record : ∃ tr tagList',
    Runs (getTagList 1 1 none []) tr (.ok (plctagStatusOk, tagList')) ∧ tagList'.length = 1 ∧
      ((plctagStatusOk = plctagStatusOk → ∃ (payloadSize : ℤ) (rest : Trace), 4 ≤ payloadSize ∧
        tr = ⟨.read 1 timeoutMs, plctagStatusOk⟩ :: ⟨.getSize 1, payloadSize⟩ :: rest ∧
        Consumed 1 payloadSize none 0 rest [] tagList') ↔ ∀ ev ∈ tr, ¬Refuses ev) := by
  obtain ⟨tr, h⟩ := runs_eval World.serve (getTagList 1 1 none []) recordWorld
  have heval : ∃ tagList', (eval World.serve (getTagList 1 1 none []) recordWorld).1 =
      .ok (plctagStatusOk, tagList') ∧ tagList'.length = 1 := ⟨_, rfl, rfl⟩
  obtain ⟨tagList', heval, hlength⟩ := heval
  rw [heval] at h
  exact ⟨tr, tagList', h, hlength, getTagList_complete_iff h⟩

/-- With no memory for the name of the record, the list is empty and the status OK. -/
theorem getTagList_refused : ¬∀ (turns : ℕ) (tag : ℤ) (parent : Option Text)
    (tagList tagList' : List TagNode) (tr : Trace) (rc : ℤ),
    Runs (getTagList turns tag parent tagList) tr (.ok (rc, tagList')) → rc = plctagStatusOk →
      ∃ (payloadSize : ℤ) (rest : Trace), 4 ≤ payloadSize ∧
        tr = ⟨.read tag timeoutMs, plctagStatusOk⟩ :: ⟨.getSize tag, payloadSize⟩ :: rest ∧
        Consumed tag payloadSize parent 0 rest tagList tagList' := by
  intro hall
  obtain ⟨tr, h⟩ := runs_eval World.serve (getTagList 1 1 none [])
    { recordWorld with malloc := fun _ => false }
  have heval : (eval World.serve (getTagList 1 1 none [])
      { recordWorld with malloc := fun _ => false }).1 = .ok (plctagStatusOk, []) := rfl
  rw [heval] at h
  obtain ⟨_, _, -, -, hconsumed⟩ := hall 1 1 none [] [] tr _ h rfl
  exact absurd hconsumed.length_lt (Nat.lt_irrefl 0)

end Plctagt.Listing.Outcomes
