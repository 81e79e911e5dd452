import Plctagt.Foundations.Effects
import Plctagt.Tag.Strings

/-! # What the program asks of its surroundings

The code of the repository above libplctag is written against the calls below: the library's entry
points with the handle they work on, the allocator, and what the screen shows. A run that is to
hold for every outcome of every call uses these calls as they stand (`Effects.Runs`); a run against
a library that works uses `World`, where a handle is a tag connected to a device.
-/
namespace Plctagt.Tag
open Effects Decimal
set_option autoImplicit false

/-! ## Calls -/

-- The tables of fields and dimensions are indexed by literals, which take these.
instance three_ne_zero : NeZero 3 := ⟨by decide⟩
instance four_ne_zero : NeZero 4 := ⟨by decide⟩
instance five_ne_zero : NeZero 5 := ⟨by decide⟩

/-- `struct TagEntry` of `list_tags.h`. -/
structure TagEntry where
  nextName : Text
  name : Text
  parentName : Text
  instanceId : UInt16
  type : UInt16
  elemSize : UInt16
  elemCount : UInt16
  numDimensions : UInt16
  dimensions : Fin 3 → UInt16
  deriving DecidableEq

/-- The attributes the program asks for. -/
inductive Attribute
  | elemSize | elemCount
  deriving DecidableEq

inductive Call
  | checkLibVersion
  | create (tagstring : Text) (timeOutMs : ℤ)
  | destroy (tag : ℤ)
  | read (tag timeOutMs : ℤ)
  | write (tag timeOutMs : ℤ)
  | getIntAttribute (tag : ℤ) (name : Attribute) (defaultValue : ℤ)
  | getSize (tag : ℤ)
  | getNum (t : NumType) (tag offset : ℤ)
  | setNum (t : NumType) (tag offset : ℤ) (val : t.Word)
  | getBit (tag offsetBit : ℤ)
  | setBit (tag offsetBit : ℤ) (val : Bool)
  | getStringLength (tag offset : ℤ)
  | getStringTotalLength (tag offset : ℤ)
  | getString (tag offset bufferLength : ℤ)
  | setString (tag offset : ℤ) (s : Text)
  | malloc (size : ℕ)
  /-- `list_tags` of this repository, which the UI takes as it comes. -/
  | listTags (gateway path : Text)
  | popupMessage (message : Text)
  /-- The choice made in a menu; `none` when it was left with ESC. -/
  | popupSelect (options : List Text) (title : Text)
  | popupSelectOptions (label value : Text) (options : List Text)
  /-- The last popup of a profile run, less its timing figures. -/
  | profileReport (types : Text) (commCount : ℕ) (tobefleshed : ℤ)
  | saveTagHistory (tags : List Text)

/-- `none` is a read or write outside the tag's buffer that the library does not check. -/
@[reducible] def Call.Reply : Call → Type
  | .checkLibVersion => ℤ
  | .create _ _ => ℤ
  | .destroy _ => ℤ
  | .read _ _ => ℤ
  | .write _ _ => ℤ
  | .getIntAttribute _ _ _ => ℤ
  | .getSize _ => ℤ
  | .getNum t _ _ => t.Word
  | .setNum _ _ _ _ => ℤ
  | .getBit _ _ => ℤ
  | .setBit _ _ _ => ℤ
  | .getStringLength _ _ => Option ℤ
  | .getStringTotalLength _ _ => Option ℤ
  | .getString _ _ _ => Option (ℤ × Text)
  | .setString _ _ _ => Option ℤ
  | .malloc _ => Bool
  | .listTags _ _ => ℤ × List TagEntry
  | .popupMessage _ => Unit
  | .popupSelect options _ => Option (Fin options.length)
  | .popupSelectOptions _ _ options => Option (Fin options.length)
  | .profileReport _ _ _ => Unit
  | .saveTagHistory _ => Unit

/-- The ways a run ends without a result. -/
inductive Fault
  /-- C and C++ leave what happens here undefined. -/
  | undefined
  /-- `values[i]` past the end of the vector. -/
  | vectorIndex
  /-- `fields[act_field]` past the end of the vector. -/
  | fieldIndex
  /-- A remainder by the size of an empty vector. -/
  | moduloZero
  /-- A position past the end of the string given to `insert` or `erase`. -/
  | stringPosition
  /-- A loop that no step leads out of. -/
  | endless
  /-- More turns of a loop than were allowed for. -/
  | fuel
  /-- `raise(SIGTRAP)`. -/
  | sigtrap
  /-- `usage()`: the process exits with status 1. -/
  | exit
  deriving DecidableEq

abbrev Program (α : Type) : Type := Prog Call Call.Reply Fault α

abbrev Trace : Type := List (Event Call.Reply)

def replied {α : Type} : Option α → Program α
  | none => .stop .undefined
  | some a => pure a

def Call.handle : Call → Option ℤ
  | .destroy tag => some tag
  | .read tag _ => some tag
  | .write tag _ => some tag
  | .getIntAttribute tag _ _ => some tag
  | .getSize tag => some tag
  | .getNum _ tag _ => some tag
  | .setNum _ tag _ _ => some tag
  | .getBit tag _ => some tag
  | .setBit tag _ _ => some tag
  | .getStringLength tag _ => some tag
  | .getStringTotalLength tag _ => some tag
  | .getString tag _ _ => some tag
  | .setString tag _ _ => some tag
  | _ => none

/-! ## A library that works -/

/-- What is behind a tag string: the memory of the PLC, and how it answers. -/
structure Device where
  memory : List UInt8
  elemSize : ℤ
  elemCount : ℤ
  readStatus : ℤ
  writeStatus : ℤ

/-- `sessions` are the tags behind the handles, with the tag string each was created from. -/
structure World where
  devices : Text → Option Device
  sessions : ℤ → Option (Text × PlcTag)
  /-- What the next `plc_tag_create` on a tag string returns, and the tag it makes. -/
  connect : Text → ℤ × PlcTag
  malloc : ℕ → Bool
  realloc : ℕ → Bool
  listing : Text → Text → ℤ × List TagEntry
  choice : (options : List Text) → Option (Fin options.length)

namespace World

def setSession (w : World) (tag : ℤ) (s : Option (Text × PlcTag)) : World :=
  { w with sessions := Function.update w.sessions tag s }

/-- The world with the buffer of the tag `p` replaced. -/
def setData (w : World) (tag : ℤ) (name : Text) (p : PlcTag) (data : List UInt8) : World :=
  w.setSession tag (some (name, { p with data := some data }))

def setDevice (w : World) (name : Text) (d : Device) : World :=
  { w with devices := Function.update w.devices name (some d) }

/-- `plc_tag_read`: a read that succeeds replaces the buffer by what the device holds. -/
def read (w : World) (tag : ℤ) : ℤ × World :=
  match w.sessions tag with
  | none => (plctagErrNotFound, w)
  | some (name, t) =>
    match w.devices name with
    | none => (plctagErrNotFound, w)
    | some d =>
      if d.readStatus = plctagStatusOk then
        (plctagStatusOk, w.setSession tag (some (name, { t with data := some d.memory })))
      else (d.readStatus, w)

/-- `plc_tag_write`: a write that succeeds stores the buffer in the device. -/
def write (w : World) (tag : ℤ) : ℤ × World :=
  match w.sessions tag with
  | none => (plctagErrNotFound, w)
  | some (name, t) =>
    match w.devices name with
    | none => (plctagErrNotFound, w)
    | some d =>
      if d.writeStatus = plctagStatusOk then
        (plctagStatusOk, w.setDevice name { d with memory := t.data.getD [] })
      else (d.writeStatus, w)

def getIntAttribute (w : World) (tag : ℤ) (name : Attribute) (defaultValue : ℤ) : ℤ :=
  match (w.sessions tag).bind fun s => w.devices s.1 with
  | none => defaultValue
  | some d =>
    match name with
    | .elemSize => d.elemSize
    | .elemCount => d.elemCount

/-- A call that only looks at the tag. -/
def look {α : Type} (w : World) (tag : ℤ) (notFound : α) (f : PlcTag → α) : α × World :=
  ((w.sessions tag).elim notFound fun s => f s.2, w)

/-- A call that may change the tag's buffer. -/
def modify {α : Type} (w : World) (tag : ℤ) (notFound : α) (f : PlcTag → α × PlcTag) : α × World :=
  match w.sessions tag with
  | none => (notFound, w)
  | some (name, t) => ((f t).1, w.setSession tag (some (name, (f t).2)))

def serve : (c : Call) → World → c.Reply × World
  | .checkLibVersion, w => (plctagStatusOk, w)
  | .create tagstring _, w =>
    let (tag, t) := w.connect tagstring
    (tag, if tag < 0 then w else w.setSession tag (some (tagstring, t)))
  | .destroy tag, w =>
    match w.sessions tag with
    | none => (plctagErrNotFound, w)
    | some _ => (plctagStatusOk, w.setSession tag none)
  | .read tag _, w => w.read tag
  | .write tag _, w => w.write tag
  | .getIntAttribute tag name defaultValue, w => (w.getIntAttribute tag name defaultValue, w)
  | .getSize tag, w => w.look tag plctagErrNotFound fun t => t.size
  | .getNum t tag offset, w => w.look tag t.sentinel fun p => plcTagGet t p offset
  | .setNum t tag offset val, w => w.modify tag plctagErrNotFound fun p => plcTagSet t p offset val
  | .getBit tag offsetBit, w => w.look tag plctagErrNotFound fun t => plcTagGetBit t offsetBit
  | .setBit tag offsetBit val, w =>
    w.modify tag plctagErrNotFound fun t => plcTagSetBit t offsetBit val
  | .getStringLength tag offset, w =>
    w.look tag (some plctagErrNotFound) fun t => plcTagGetStringLength t offset
  | .getStringTotalLength tag offset, w =>
    w.look tag (some plctagErrNotFound) fun t => plcTagGetStringTotalLength t offset
  | .getString tag offset bufferLength, w =>
    w.look tag (some (plctagErrNotFound, [])) fun t => plcTagGetString t offset bufferLength
  | .setString tag offset s, w =>
    w.modify tag (some plctagErrNotFound) fun t =>
      match plcTagSetString w.realloc t offset s with
      | none => (none, t)
      | some (rc, t') => (some rc, t')
  | .malloc size, w => (w.malloc size, w)
  | .listTags gateway path, w => (w.listing gateway path, w)
  | .popupMessage _, w => ((), w)
  | .popupSelect options _, w => (w.choice options, w)
  | .popupSelectOptions _ _ options, w => (w.choice options, w)
  | .profileReport _ _ _, w => ((), w)
  | .saveTagHistory _, w => ((), w)

/-! ## One tag in the world -/

/-- Behind the handle is the tag `p`, created from the tag string `name`, with the device `d`. -/
structure Connected (w : World) (tag : ℤ) (name : Text) (p : PlcTag) (d : Device) : Prop where
  session : w.sessions tag = some (name, p)
  device : w.devices name = some d

/-- A world of one tag, which no call can add to. -/
def single (tag : ℤ) (name : Text) (p : PlcTag) (d : Device) : World where
  devices := fun s => if s = name then some d else none
  sessions := fun i => if i = tag then some (name, p) else none
  connect := fun _ => (plctagErrNotFound, p)
  malloc := fun _ => true
  realloc := fun _ => true
  listing := fun _ _ => (plctagErrNotFound, [])
  choice := fun _ => none

/-- A world where every tag string opens the tag `p` on the device `d`, and the first line is chosen
in every menu. -/
def bench (tag : ℤ) (p : PlcTag) (d : Device) (entries : List TagEntry) : World where
  devices := fun _ => some d
  sessions := fun _ => none
  connect := fun _ => (tag, p)
  malloc := fun _ => true
  realloc := fun _ => true
  listing := fun _ _ => (plctagStatusOk, entries)
  choice := fun options => if h : 0 < options.length then some ⟨0, h⟩ else none

variable {w : World} {tag : ℤ} {name : Text} {p : PlcTag} {d : Device}

theorem single_connected : (single tag name p d).Connected tag name p d :=
  ⟨if_pos rfl, if_pos rfl⟩

theorem setSession_self (h : w.Connected tag name p d) :
    w.setSession tag (some (name, p)) = w := by
  unfold setSession
  rw [← h.session, Function.update_eq_self]

@[simp] theorem setSession_setSession (s s' : Option (Text × PlcTag)) :
    (w.setSession tag s).setSession tag s' = w.setSession tag s' := by
  simp only [setSession, Function.update_idem]

theorem Connected.setSession (h : w.Connected tag name p d) (p' : PlcTag) :
    (w.setSession tag (some (name, p'))).Connected tag name p' d :=
  ⟨Function.update_self _ _ _, h.device⟩

theorem Connected.setData (h : w.Connected tag name p d) (data : List UInt8) :
    (w.setData tag name p data).Connected tag name { p with data := some data } d :=
  h.setSession _

theorem Connected.setDevice (h : w.Connected tag name p d) (d' : Device) :
    (w.setDevice name d').Connected tag name p d' :=
  ⟨h.session, Function.update_self _ _ _⟩

theorem look_connected {α : Type} (h : w.Connected tag name p d) (notFound : α) (f : PlcTag → α) :
    w.look tag notFound f = (f p, w) := by
  simp [look, h.session]

theorem modify_connected {α : Type} (h : w.Connected tag name p d) (notFound : α)
    (f : PlcTag → α × PlcTag) :
    w.modify tag notFound f = ((f p).1, w.setSession tag (some (name, (f p).2))) := by
  simp [modify, h.session]

theorem read_connected (h : w.Connected tag name p d) (hr : d.readStatus = plctagStatusOk) :
    w.read tag = (plctagStatusOk, w.setData tag name p d.memory) := by
  simp [read, setData, h.session, h.device, hr]

theorem write_connected (h : w.Connected tag name p d) :
    w.write tag =
      if d.writeStatus = plctagStatusOk then
        (plctagStatusOk, w.setDevice name { d with memory := p.data.getD [] })
      else (d.writeStatus, w) := by
  simp [write, h.session, h.device]

theorem getIntAttribute_connected (h : w.Connected tag name p d) (a : Attribute) (v : ℤ) :
    w.getIntAttribute tag a v =
      match a with
      | .elemSize => d.elemSize
      | .elemCount => d.elemCount := by
  simp [getIntAttribute, h.session, h.device]

end World

end Plctagt.Tag
