import Plctagt.Tag.Calls
import Plctagt.Tag.Numeric

/-! # Listing a controller: tag strings and listing records

`setup_tag_string`, `open_tag`, `process_tag_entry` and `get_tag_list` of `list_tags.cpp`. A `Plc`
is what one call of `list_tags` meets: how libplctag answers for each tag string, and the buffer a
read leaves in the tag. `usage` prints a text and exits, so it is a `Halt`.

The entries of the C list are never changed once linked, so a parent pointer is the parent's name.
Memory is allocated in zeroed arrays; `calloc` is asked with the tag string and the buffer offset
the code is at, so that each request may have an answer of its own.
-/
namespace Plctagt.Listing
open Decimal Tag
set_option autoImplicit false

inductive Halt
  /-- `usage()`: the process exits with status 1. -/
  | exit
  /-- C and C++ leave what happens here undefined. -/
  | undefined
  /-- A store past the end of `udts_to_process`. -/
  | overrun
  /-- More turns of a loop than were allowed for. -/
  | turns
  deriving DecidableEq

structure Plc where
  checkLibVersion : ℤ
  create : Text → ℤ
  read : Text → ℤ
  tag : Text → PlcTag
  calloc : Text → (offset size : ℤ) → Bool
  /-- The two bytes behind the last dimension of the `i`th entry of the list. -/
  heap : ℕ → UInt16

/-! ## What libplctag says of the special tags -/

/-- `listing_tag_logix_byte_order`. -/
def listingTagLogixByteOrder : TagByteOrder where
  strIsDefined := true
  strIsCounted := true
  strIsFixedLength := false
  strIsZeroTerminated := false
  strIsByteSwapped := false
  strCountWordBytes := 2
  strMaxCapacity := 0
  strTotalLength := 0
  strPadBytes := 0
  int16Order := .little 2
  int32Order := .little 4
  int64Order := .little 8
  float32Order := .little 4
  float64Order := .little 8

/-- `udt_tag_logix_byte_order`. -/
def udtTagLogixByteOrder : TagByteOrder :=
  { listingTagLogixByteOrder with
    strIsCounted := false
    strIsZeroTerminated := true
    strCountWordBytes := 0 }

def tagStringSize : ℕ := 200

def typeIsStruct : UInt16 := 0x8000
def typeIsSystem : UInt16 := 0x1000
def typeUdtIdMask : UInt16 := 0x0FFF
def tagDimMask : UInt16 := 0x6000

/-- `struct tag_entry_s` without its link; the name is `none` when its array has no bytes. -/
structure TagNode where
  name : Option Text
  parent : Option Text
  instanceId : UInt16
  type : UInt16
  elemSize : UInt16
  elemCount : UInt16
  numDimensions : UInt16
  dimensions : Fin 3 → UInt16

/-- `struct` and not `system`. -/
def isUdtType (type : UInt16) : Bool :=
  type &&& typeIsStruct ≠ 0 ∧ type &&& typeIsSystem = 0

def udtId (type : UInt16) : UInt16 := type &&& typeUdtIdMask

/-! ## Tag strings -/

/-- `TAG_STRING_TEMPLATE`, filled in. -/
def tagStringBase (gateway path : Text) : Text :=
  snprintf tagStringSize (text "protocol=ab-eip&gateway=" ++ gateway ++ text "&path=" ++ path ++
    text "&plc=ControlLogix&name=")

/-- `setup_tag_string`. -/
def setupTagString (gateway path : Text) : Except Halt Text :=
  if gateway = [] then .error .exit
  else if path = [] then .error .exit
  else .ok (tagStringBase gateway path)

/-- `open_tag`: the tag string and the handle. Base and name may not fit the buffer together. -/
def openTag (plc : Plc) (base tagName : Text) : Except Halt (Text × ℤ) :=
  let tagString := base.take tagStringSize ++ tagName.take tagStringSize
  if tagStringSize < tagString.length then .error .undefined
  else
    let tag := plc.create tagString
    if tag < 0 then .error .exit else .ok (tagString, tag)

/-- A controller with the given images, by tag string; it refuses to read any other tag. -/
def imagePlc (images : List (Text × TagByteOrder × List UInt8)) : Plc where
  checkLibVersion := plctagStatusOk
  create _ := 1
  read tagString :=
    if images.any fun image => image.1 = tagString then plctagStatusOk else plctagErrUnsupported
  tag tagString :=
    match images.find? fun image => image.1 = tagString with
    | some (_, byteOrder, data) => ⟨some data, false, 0, false, byteOrder⟩
    | none => ⟨none, false, 0, false, listingTagLogixByteOrder⟩
  calloc _ _ _ := true
  heap _ := 0

/-! ## Records -/

def getUint16 (tag : PlcTag) (offset : ℤ) : UInt16 :=
  UInt16.ofNat (plcTagGetUint16 tag offset).toNat

/-- `(uint16_t)plc_tag_get_uint32(tag, offset)`. -/
def getUint32Low (tag : PlcTag) (offset : ℤ) : UInt16 :=
  UInt16.ofNat (plcTagGetUint32 tag offset).toNat

/-- A library call whose reads may leave the buffer. -/
def defined {α : Type} : Option α → Except Halt α
  | none => .error .undefined
  | some a => .ok a

def dimProduct (n : UInt16) (dims : Fin 3 → UInt16) : UInt16 :=
  ((List.finRange 3).take n.toNat).foldl (fun count i => count * dims i) 1

/-- `process_tag_entry`: the status, the offset after it, and the entry to link. -/
def processTagEntry (plc : Plc) (tagString : Text) (offset : ℤ) (parent : Option Text) :
    Except Halt (ℤ × ℤ × Option TagNode) := do
  let tag := plc.tag tagString
  let lastTagId := getUint32Low tag offset
  let tagType := getUint16 tag (offset + 4)
  let elementLength := getUint16 tag (offset + 6)
  let arrayDims : Fin 3 → UInt16 := fun i => getUint32Low tag (offset + 8 + 4 * i)
  let offset := offset + 20
  let tagNameLen ← defined (plcTagGetStringLength tag offset)
  if plc.calloc tagString offset (tagNameLen + 1) = false then pure (plctagErrNoMem, offset, none)
  else do
    let (rc, tagName) ← defined (plcTagGetString tag offset (tagNameLen + 1))
    if rc ≠ plctagStatusOk then pure (rc, offset, none)
    else do
      let total ← defined (plcTagGetStringTotalLength tag offset)
      let offset := offset + total
      if plc.calloc tagString offset 40 = false then pure (plctagErrNoMem, offset, none)
      else
        let numDimensions := (tagType &&& tagDimMask) >>> 13
        pure (plctagStatusOk, offset, some
          { name := if tagNameLen + 1 = 0 then none else some (cstr tagName)
            parent := parent
            instanceId := lastTagId
            type := tagType
            elemSize := elementLength
            elemCount := dimProduct numDimensions arrayDims
            numDimensions := numDimensions
            dimensions := arrayDims })

/-- The loop of `get_tag_list`; new entries are linked at the front. -/
def tagEntries (plc : Plc) (tagString : Text) (parent : Option Text) (payloadSize : ℤ) :
    ℕ → (offset : ℤ) → List TagNode → Except Halt (List TagNode)
  | 0, _, _ => .error .turns
  | turns + 1, offset, tagList => do
    let (rc, offset, entry) ← processTagEntry plc tagString offset parent
    let tagList := entry.toList ++ tagList
    if rc = plctagStatusOk ∧ offset < payloadSize then
      tagEntries plc tagString parent payloadSize turns offset tagList
    else pure tagList

/-- `get_tag_list`; its status is always OK. -/
def getTagList (plc : Plc) (turns : ℕ) (tagString : Text) (parent : Option Text)
    (tagList : List TagNode) : Except Halt (List TagNode) :=
  if plc.read tagString ≠ plctagStatusOk then .error .exit
  else
    let payloadSize : ℤ := (plc.tag tagString).size
    if payloadSize < 4 then .error .exit
    else tagEntries plc tagString parent payloadSize turns 0 tagList

/-! ## Programs -/

def isProgram (name : Text) : Bool := (text "Program:").isPrefixOf name

/-- The walk over the controller's entries: each program's tags are linked in front of the list,
with the program as their parent. -/
def programTags (plc : Plc) (turns : ℕ) (base : Text) :
    List TagNode → List TagNode → Except Halt (List TagNode)
  | [], tagList => pure tagList
  | entry :: entries, tagList => do
    let name ← defined entry.name
    if isProgram name then do
      let (tagString, tag) ← openTag plc base (snprintf 256 (name ++ text ".@tags"))
      if tag ≤ 0 then .error .exit
      else do
        let tagList ← getTagList plc turns tagString (some name) tagList
        programTags plc turns base entries tagList
    else programTags plc turns base entries tagList

/-- The tag list of controller and programs, and the base of the tag strings. -/
def tagListing (plc : Plc) (turns : ℕ) (gateway path : Text) :
    Except Halt (Text × List TagNode) := do
  let base ← setupTagString gateway path
  let (tagString, tag) ← openTag plc base (text "@tags")
  if tag ≤ 0 then .error .exit
  else do
    let controller ← getTagList plc turns tagString none []
    let tagList ← programTags plc turns base controller controller
    pure (base, tagList)

/-! ## Export -/

/-- The entries `list_tags` appends, from position `i` of the list on. The initializer's last item
is `tag->dimensions[3]`, one past the array, and goes to `dimensions[0]`. -/
def exportEntries (heap : ℕ → UInt16) : ℕ → List TagNode → Except Halt (List TagEntry)
  | _, [] => pure []
  | i, tag :: tags => do
    let nextName ← (tags.head?.map fun next => defined next.name).getD (pure [])
    let name ← defined tag.name
    let entries ← exportEntries heap (i + 1) tags
    pure
      ({ nextName := nextName
         name := name
         parentName := tag.parent.getD []
         instanceId := tag.instanceId
         type := tag.type
         elemSize := tag.elemSize
         elemCount := tag.elemCount
         numDimensions := tag.numDimensions
         dimensions := fun j => if j = 0 then heap i else 0 } :: entries)

end Plctagt.Listing
