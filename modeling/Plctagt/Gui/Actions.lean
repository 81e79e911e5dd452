import Plctagt.Gui.Section3
import Plctagt.Gui.Expand
import Plctagt.Tag.StringTag

/-! # What the buttons and the menu do

[Read], [Write], the tag listing and the profile run. Each takes the state of the screen and leaves
a new one; progress figures on the screen and the texts of failures that nothing shows are left out.
-/
namespace Plctagt.Gui
open Effects Decimal Tag
set_option autoImplicit false

def popupMessage (message : Text) : Program Unit := perform (Call.popupMessage message)

/-- `list_tags`, whose status the callers do not look at. -/
def listTags (gateway path : Text) : Program (List TagEntry) := do
  let reply ← perform (Call.listTags (cstr gateway) (cstr path))
  pure reply.2

namespace NCursesUI
variable (con : Console)

/-! ## [Read] and [Write] -/

/-- `readTagAndUpdateSection3<T>` for a numeric `T`: the status, and the screen. -/
def readTagAndUpdateSection3 (t : ElemType) (tag : ℤ) (ui : NCursesUI) :
    Program (ℤ × NCursesUI) := do
  let (rc, es, values) ← readNumericTag t [] tag [] dataTimeout
  if rc < 0 then do
    popupMessage es
    pure (rc, ui)
  else pure (rc, ui.updateSection3FromVector con (values.map (toString con.float t)))

/-- `readTagAndUpdateSection3<string>`. -/
def readStringsAndUpdateSection3 (tag : ℤ) (ui : NCursesUI) : Program (ℤ × NCursesUI) := do
  let (rc, es, values) ← readStringTag con.turns [] tag [] dataTimeout
  if rc < 0 then do
    popupMessage es
    pure (rc, ui)
  else pure (rc, ui.updateSection3FromVector con values)

/-- `writeTagFromSection3<T>` for a numeric `T`. -/
def writeTagFromSection3 (t : ElemType) (tag : ℤ) (ui : NCursesUI) : Program ℤ := do
  let values := toNumericVector con.float t ui.getSection3Values
  let (rc, es) ← writeNumericTag t [] tag values dataTimeout
  if rc < 0 then popupMessage es else pure ()
  pure rc

/-- `writeTagFromSection3<string>`. -/
def writeStringsFromSection3 (tag : ℤ) (ui : NCursesUI) : Program ℤ := do
  let (rc, es) ← writeStringTag [] tag ui.getSection3Values dataTimeout
  if rc < 0 then popupMessage es else pure ()
  pure rc

/-- The branches of `handleEnterKey` on [Read]. -/
def readTag (tag : ℤ) (ui : NCursesUI) : Program NCursesUI :=
  match tagKind ui.getType with
  | some (.elem t) => do
    let (_, ui) ← ui.readTagAndUpdateSection3 con t tag
    pure ui
  | some .string => do
    let (_, ui) ← ui.readStringsAndUpdateSection3 con tag
    pure ui
  | none => pure ui

/-- The branches of `handleEnterKey` on [Write]. -/
def writeTag (tag : ℤ) (ui : NCursesUI) : Program NCursesUI :=
  match tagKind ui.getType with
  | some (.elem t) => do
    let _ ← ui.writeTagFromSection3 con t tag
    pure ui
  | some .string => do
    let _ ← ui.writeStringsFromSection3 tag
    pure ui
  | none => pure ui

def useTag (f : Field) (tag : ℤ) (ui : NCursesUI) : Program NCursesUI :=
  if f.label = text "[Read]" then ui.readTag con tag else ui.writeTag con tag

def handleEnterKey (f : Field) (ui : NCursesUI) : Program NCursesUI :=
  if f.editable = false ∧ (f.label = text "[Read]" ∨ f.label = text "[Write]") then do
    let tagstring :=
      buildTagstring ui.getGateway ui.getTagname ui.getCount ui.getPath ui.getCpu ui.getProtocol
    let (tag, es) ← createTag [] tagstring dataTimeout
    if tag < 0 then do
      popupMessage es
      pure ui
    else do
      let ui ← ui.useTag con f tag
      let _ ← perform (.destroy tag)
      pure ui
  else pure ui

/-! ## Listing tags -/

/-- `sections[1]->fields[0].value = "STRING"; updateSection3Widths();` -/
def setStringType (ui : NCursesUI) : NCursesUI :=
  (ui.setType (text "STRING")).updateSection3Widths con

def displayTags (ui : NCursesUI) : Program NCursesUI := do
  let ui := ui.setStringType con
  let tagentries ← listTags ui.getGateway ui.getPath
  pure (ui.updateSection3FromVector con (tagentries.map fun e => formatTagDisplay e 18))

/-! ## Profiling tags -/

/-- What the create loop keeps of an entry whose type is wanted, before `createTag`. -/
def profiledEntry (e : TagEntry) : TagEntry := { e with name := makeTagName e, elemCount := 1 }

/-- `types.size() > 0 && types.find(type)` skips the entry: `find` is 0 at a prefix only. -/
def wanted (types : Text) (e : TagEntry) : Bool :=
  types.isEmpty || (getTagType e.type []).isPrefixOf types

/-- The create loop over the entries that are wanted: `tags_created` and `teRead`. The handle is
kept in `instance_id`. -/
def createTags (ui : NCursesUI) : List TagEntry → Program (List Text × List TagEntry)
  | [] => pure ([], [])
  | e :: es => do
    let tagstring :=
      buildTagstring ui.getGateway e.name (e.elemCount.toNat) ui.getPath ui.getCpu ui.getProtocol
    let (tag, _) ← createTag [] tagstring dataTimeout
    let (tagsCreated, teRead) ← ui.createTags es
    if tag < 0 then pure (tagsCreated, teRead)
    else
      pure (formatTagDisplay e 10 :: tagsCreated,
        { e with instanceId := UInt16.ofInt tag } :: teRead)

/-- The `T` the read loop takes for a type. -/
def profiledKind (type : Text) : Option TagKind :=
  if type = text "BIT" then some (.elem .bool)
  else if type = text "SINT" then some (.elem (.num .int8))
  else if type = text "INT" then some (.elem (.num .int16))
  else if type = text "DINT" then some (.elem (.num .int32))
  else if type = text "LINT" then some (.elem (.num .int64))
  else if type = text "REAL" then some (.elem (.num .float32))
  else if type = text "STRING_LGX" then some .string
  else none

/-- One turn of the read loop, with the handle `tag`. -/
def profileRead (kind : Option TagKind) (tag : ℤ) : Program Unit :=
  match kind with
  | some (.elem t) => do
    let _ ← readNumericTag t [] tag [] dataTimeout
    pure ()
  | some .string => do
    let _ ← readStringTag con.turns [] tag [] dataTimeout
    pure ()
  | none => .stop .sigtrap

def readTags : List TagEntry → Program Unit
  | [] => pure ()
  | e :: es => do
    profileRead con (profiledKind (getTagType e.type [])) e.instanceId.toNat
    readTags es

def destroyTags : List TagEntry → Program Unit
  | [] => pure ()
  | e :: es => do
    let _ ← perform (.destroy e.instanceId.toNat)
    destroyTags es

/-- The read loop, the destroy loop and the last popup of `profileTags`. -/
def readAndDestroy (types : Text) (teRead : List TagEntry) (ui : NCursesUI) :
    Program NCursesUI := do
  readTags con teRead
  destroyTags teRead
  let _ ← perform (Call.profileReport types teRead.length ui.tobefleshed)
  pure ui

/-- The entries the create loop asks `createTag` for. -/
def profiled (types : Text) (tagentries : List TagEntry) : List TagEntry :=
  (tagentries.filter (wanted types)).map profiledEntry

def profileTags (types : Text) (ui : NCursesUI) : Program NCursesUI := do
  let tagentries ← listTags ui.getGateway ui.getPath
  match expandTags tagentries with
  | none => .stop .sigtrap
  | some (tagentries, fleshed) => do
    let ui := { ui with tobefleshed := ui.tobefleshed + fleshed }
    let (tagsCreated, teRead) ← ui.createTags (profiled types tagentries)
    let ui ← ((ui.setStringType con).updateSection3FromVector con tagsCreated).updateUI con
    ui.readAndDestroy con types teRead

end NCursesUI

end Plctagt.Gui
