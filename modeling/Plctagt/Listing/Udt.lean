import Plctagt.Listing.Records

/-! # Listing a controller: UDT templates

`get_udt_definition` and the processing loop of `list_tags.cpp`, over the statics of the file: the
table `udts` and the queue `udts_to_process`, whose length is `last_udt`. The statics outlive a
call. `opened` logs the ids whose `@udt/<id>` tag the current call has opened.
-/
namespace Plctagt.Listing
open Decimal Tag
set_option autoImplicit false

def maxUdts : ℕ := 4096

structure UdtField where
  name : Option Text
  type : UInt16
  metadata : UInt16
  offset : UInt32

structure UdtEntry where
  name : Option Text
  id : UInt16
  numFields : UInt16
  structHandle : UInt16
  instanceSize : UInt32
  fields : List UdtField

structure Statics where
  udts : UInt16 → Option UdtEntry
  udtsToProcess : List UInt16
  currentUdt : ℕ
  opened : List UInt16

def Statics.lastUdt (s : Statics) : ℕ := s.udtsToProcess.length

/-- A process that has not listed any tags. -/
def fresh : Statics := ⟨fun _ => none, [], 0, []⟩

/-- Code that runs over the statics; what it did to them stays when it halts. -/
abbrev Step (α : Type) : Type := EStateM Halt Statics α

def lift {α : Type} : Except Halt α → Step α
  | .ok a => pure a
  | .error e => throw e

/-- `udts_to_process[last_udt] = id; last_udt++`, a store outside the array when it is full. -/
def pushUdt (id : UInt16) : Step Unit := do
  let s ← get
  if s.lastUdt < maxUdts then set { s with udtsToProcess := s.udtsToProcess ++ [id] }
  else throw .overrun

def defineUdt (id : UInt16) (entry : UdtEntry) : Step Unit :=
  modify fun s => { s with udts := Function.update s.udts id (some entry) }

/-! ## Templates -/

def getUint32 (tag : PlcTag) (offset : ℤ) : UInt32 :=
  UInt32.ofNat (plcTagGetUint32 tag offset).toNat

/-- The field descriptors, from `offset` on. A child that is not in the table is queued. -/
def scanFields (tag : PlcTag) : ℕ → (offset : ℤ) → Step (List UdtField)
  | 0, _ => pure []
  | n + 1, offset => do
    let fieldMetadata := getUint16 tag offset
    let fieldElementType := getUint16 tag (offset + 2)
    let fieldOffset := getUint32 tag (offset + 4)
    let s ← get
    if isUdtType fieldElementType ∧ (s.udts (udtId fieldElementType)).isNone then
      pushUdt (udtId fieldElementType)
    let fields ← scanFields tag n (offset + 8)
    pure (⟨none, fieldElementType, fieldMetadata, fieldOffset⟩ :: fields)

/-- A string of the template image: its length, and its bytes up to the first NUL. -/
def templateString (plc : Plc) (tagString : Text) (offset : ℤ) : Except Halt Text := do
  let tag := plc.tag tagString
  let nameLen ← defined (plcTagGetStringLength tag offset)
  if plc.calloc tagString offset (nameLen + 1) = false then .error .exit
  else do
    let (rc, nameStr) ← defined (plcTagGetString tag offset (nameLen + 1))
    if rc ≠ plctagStatusOk then .error .exit else pure nameStr

/-- The names of the fields, from `offset` on; fields past the end of the image have none. -/
def fieldNames (plc : Plc) (tagString : Text) :
    List UdtField → (offset : ℤ) → Except Halt (List UdtField)
  | [], _ => pure []
  | field :: fields, offset =>
    let tag := plc.tag tagString
    if offset < tag.size then do
      let nameLen ← defined (plcTagGetStringLength tag offset)
      if nameLen < 0 ∨ 256 ≤ nameLen then .error .exit
      else if 0 < nameLen then do
        let nameStr ← templateString plc tagString offset
        let total ← defined (plcTagGetStringTotalLength tag offset)
        let fields ← fieldNames plc tagString fields (offset + total)
        pure ({ field with name := some (cstr nameStr) } :: fields)
      else do
        let fields ← fieldNames plc tagString fields (offset + 1)
        pure ({ field with name := none } :: fields)
    else pure (field :: fields)

/-- The second part of a template image, from `offset` on: its name up to the first semicolon, and
the names of its fields. -/
def templateNames (plc : Plc) (tagString : Text) (fields : List UdtField) (offset : ℤ) :
    Except Halt (Text × List UdtField) := do
  let nameStr ← templateString plc tagString offset
  let total ← defined (plcTagGetStringTotalLength (plc.tag tagString) offset)
  let fields ← fieldNames plc tagString fields (offset + total)
  pure (cstr (nameStr.takeWhile (· ≠ 59)), fields)

def udtName (id : UInt16) : Text := text "@udt/" ++ printNat id.toNat

/-- `get_udt_definition` once the template has been read. -/
def readTemplate (plc : Plc) (tagString : Text) (id : UInt16) : Step ℤ := do
  let tag := plc.tag tagString
  let templateId := getUint16 tag 0
  let udtInstanceSize := getUint32 tag 6
  let numMembers := getUint16 tag 10
  let structHandle := getUint16 tag 12
  if templateId ≠ id then throw .exit
  else if plc.calloc tagString 14 (24 + 24 * numMembers.toNat) = false then throw .exit
  else do
    let entry : UdtEntry := ⟨none, id, numMembers, structHandle, udtInstanceSize,
      List.replicate numMembers.toNat ⟨none, 0, 0, 0⟩⟩
    -- the table is filled before the fields are scanned: a template is no child of its own
    defineUdt id entry
    let fields ← scanFields tag numMembers.toNat 14
    let (name, fields) ← lift (templateNames plc tagString fields (14 + 8 * numMembers.toNat))
    defineUdt id { entry with name := some name, fields := fields }
    pure plctagStatusOk

/-- `get_udt_definition`. -/
def getUdtDefinition (plc : Plc) (base : Text) (id : UInt16) : Step ℤ := do
  let s ← get
  if (s.udts id).isSome then pure plctagStatusOk
  else do
    set { s with opened := s.opened ++ [id] }
    let (tagString, _) ← lift (openTag plc base (udtName id))
    let rc := plc.read tagString
    if rc = plctagErrUnsupported then pure rc
    else if rc ≠ plctagStatusOk then throw .exit
    else readTemplate plc tagString id

/-! ## The worklist of one call -/

/-- The walk over the tag list that queues the template of every structured tag. -/
def seedUdts : List TagNode → Step Unit
  | [] => pure ()
  | entry :: entries => do
    if isUdtType entry.type then
      pushUdt (udtId entry.type)
      let s ← get
      if maxUdts ≤ s.lastUdt then throw .exit
    seedUdts entries

/-- The processing loop; a controller without templates ends it early. -/
def processUdts (plc : Plc) (base : Text) : ℕ → Step Unit
  | 0 => throw .turns
  | turns + 1 => do
    let s ← get
    match s.udtsToProcess[s.currentUdt]? with
    | none => pure ()
    | some id =>
      if (s.udts id).isNone then do
        let rc ← getUdtDefinition plc base id
        if rc = plctagErrUnsupported then pure ()
        else if rc ≠ plctagStatusOk then throw .exit
        else do
          modify fun s => { s with currentUdt := s.currentUdt + 1 }
          processUdts plc base turns
      else do
        modify fun s => { s with currentUdt := s.currentUdt + 1 }
        processUdts plc base turns

end Plctagt.Listing
