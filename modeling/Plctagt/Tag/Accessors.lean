import Plctagt.Foundations.Bytes

/-! # libplctag: the data accessors of `lib.c`

A tag is its buffer with the byte order that places each word in it. The accessors take a buffer
offset; a tag that stands for a single bit ignores the offset and works on its own bit.

Values of the numeric types are bit patterns of the right width: `int32_t` and `uint32_t` differ in
how they are printed and parsed, not in how they are stored. Floats are their IEEE patterns, placed
by the float byte order. C `int` offsets are exact integers here. A tag without a buffer has size 0.
-/
namespace Plctagt.Tag
open Bytes
set_option autoImplicit false

/-! ## Status codes -/

abbrev plctagStatusPending : ℤ := 1
abbrev plctagStatusOk : ℤ := 0
abbrev plctagErrBadConfig : ℤ := -2
abbrev plctagErrNotAllowed : ℤ := -18
abbrev plctagErrNotFound : ℤ := -19
abbrev plctagErrNoData : ℤ := -21
abbrev plctagErrNoMem : ℤ := -23
abbrev plctagErrOutOfBounds : ℤ := -27
abbrev plctagErrTooLarge : ℤ := -33
abbrev plctagErrUnsupported : ℤ := -35

/-! ## Tags -/

/-- `tag_byte_order_t`. Each table of byte indices uses every cell of its word once. -/
structure TagByteOrder where
  strIsDefined : Bool
  strIsCounted : Bool
  strIsFixedLength : Bool
  strIsZeroTerminated : Bool
  strIsByteSwapped : Bool
  strCountWordBytes : ℕ
  strMaxCapacity : ℕ
  strTotalLength : ℕ
  strPadBytes : ℕ
  int16Order : Lanes 2
  int32Order : Lanes 4
  int64Order : Lanes 8
  float32Order : Lanes 4
  float64Order : Lanes 8

/-- What the accessors use of `struct plc_tag_t`. -/
structure PlcTag where
  data : Option (List UInt8)
  isBit : Bool
  bit : ℤ
  allowFieldResize : Bool
  byteOrder : TagByteOrder

def PlcTag.size (tag : PlcTag) : ℕ := (tag.data.getD []).length

theorem PlcTag.size_eq {tag : PlcTag} {data : List UInt8} (hd : tag.data = some data) :
    tag.size = data.length := by
  rw [PlcTag.size, hd, Option.getD_some]

/-! ## Numeric types -/

inductive NumType
  | int8 | uint8 | int16 | uint16 | int32 | uint32 | int64 | uint64 | float32 | float64
  deriving DecidableEq, Repr

namespace NumType

def bytes : NumType → ℕ
  | .int8 | .uint8 => 1
  | .int16 | .uint16 => 2
  | .int32 | .uint32 | .float32 => 4
  | .int64 | .uint64 | .float64 => 8

def isFloat : NumType → Bool
  | .float32 | .float64 => true
  | _ => false

abbrev Word (t : NumType) : Type := BitVec (8 * t.bytes)

/-- The byte order table an accessor of this type uses; one byte needs none. -/
def order (b : TagByteOrder) : (t : NumType) → Lanes t.bytes
  | .int8 => .little 1
  | .uint8 => .little 1
  | .int16 => b.int16Order
  | .uint16 => b.int16Order
  | .int32 => b.int32Order
  | .uint32 => b.int32Order
  | .int64 => b.int64Order
  | .uint64 => b.int64Order
  | .float32 => b.float32Order
  | .float64 => b.float64Order

/-- What a getter returns when the tag or the offset is no good: `INTn_MIN`, `UINTn_MAX`, `FLT_MIN`
and `DBL_MIN`. -/
def sentinel : (t : NumType) → t.Word
  | .int8 => BitVec.intMin 8
  | .uint8 => BitVec.allOnes 8
  | .int16 => BitVec.intMin 16
  | .uint16 => BitVec.allOnes 16
  | .int32 => BitVec.intMin 32
  | .uint32 => BitVec.allOnes 32
  | .int64 => BitVec.intMin 64
  | .uint64 => BitVec.allOnes 64
  | .float32 => (0x00800000 : BitVec 32)
  | .float64 => (0x0010000000000000 : BitVec 64)

/-- What a getter returns when the tag has no buffer: the signed ones return the status code. -/
def noData : (t : NumType) → t.Word
  | .int8 => BitVec.ofInt 8 plctagErrNoData
  | .int16 => BitVec.ofInt 16 plctagErrNoData
  | .int32 => BitVec.ofInt 32 plctagErrNoData
  | .int64 => BitVec.ofInt 64 plctagErrNoData
  | t => t.sentinel

end NumType

/-! ## Bits -/

/-- `plc_tag_get_bit_impl`. -/
def plcTagGetBitImpl (tag : PlcTag) (offsetBit : ℤ) : ℤ :=
  match tag.data with
  | none => plctagErrNoData
  | some data =>
    let realOffset := if tag.isBit then tag.bit else offsetBit
    if 0 ≤ realOffset ∧ realOffset / 8 < data.length then (bitAt data realOffset.toNat).toNat
    else plctagErrOutOfBounds

/-- `plc_tag_set_bit_impl`. -/
def plcTagSetBitImpl (tag : PlcTag) (offsetBit : ℤ) (val : Bool) : ℤ × PlcTag :=
  match tag.data with
  | none => (plctagErrNoData, tag)
  | some data =>
    let realOffset := if tag.isBit then tag.bit else offsetBit
    if 0 ≤ realOffset ∧ realOffset / 8 < data.length then
      (plctagStatusOk, { tag with data := some (setBit data realOffset.toNat val) })
    else (plctagErrOutOfBounds, tag)

/-- `plc_tag_get_bit` on a tag that exists. -/
def plcTagGetBit (tag : PlcTag) (offsetBit : ℤ) : ℤ := plcTagGetBitImpl tag offsetBit

/-- `plc_tag_set_bit` on a tag that exists. -/
def plcTagSetBit (tag : PlcTag) (offsetBit : ℤ) (val : Bool) : ℤ × PlcTag :=
  plcTagSetBitImpl tag offsetBit val

/-! ## Words -/

section Words
variable (t : NumType) (tag : PlcTag) (offset : ℤ)

/-- The body the integer getters share. -/
def getWord : t.Word :=
  match tag.data with
  | none => t.noData
  | some data =>
    if tag.isBit then
      let rc := plcTagGetBitImpl tag tag.bit
      if 0 ≤ rc then BitVec.ofInt _ rc else t.sentinel
    else if 0 ≤ offset ∧ offset + t.bytes ≤ data.length then
      BitVec.ofNat _ (load data offset.toNat (t.order tag.byteOrder))
    else t.sentinel

/-- The body the float getters share: a single bit has no float value. -/
def getFloatWord : t.Word :=
  if tag.isBit then t.sentinel else getWord t tag offset

/-- The body the integer setters share. -/
def setWord (val : t.Word) : ℤ × PlcTag :=
  match tag.data with
  | none => (plctagErrNoData, tag)
  | some data =>
    if tag.isBit then plcTagSetBitImpl tag 0 (val ≠ 0)
    else if 0 ≤ offset ∧ offset + t.bytes ≤ data.length then
      (plctagStatusOk,
        { tag with data := some (store data offset.toNat (t.order tag.byteOrder) val.toNat) })
    else (plctagErrOutOfBounds, tag)

/-- The body the float setters share. -/
def setFloatWord (val : t.Word) : ℤ × PlcTag :=
  match tag.data with
  | none => (plctagErrNoData, tag)
  | some _ => if tag.isBit then (plctagErrUnsupported, tag) else setWord t tag offset val

end Words

def plcTagGetUint64 := getWord .uint64
def plcTagGetInt64 := getWord .int64
def plcTagGetUint32 := getWord .uint32
def plcTagGetInt32 := getWord .int32
def plcTagGetUint16 := getWord .uint16
def plcTagGetInt16 := getWord .int16
def plcTagGetUint8 := getWord .uint8
def plcTagGetInt8 := getWord .int8
def plcTagGetFloat64 := getFloatWord .float64
def plcTagGetFloat32 := getFloatWord .float32

def plcTagSetUint64 := setWord .uint64

/-- `plc_tag_set_int64`: without a buffer it does not stop, and the later test overwrites the
status. -/
def plcTagSetInt64 (tag : PlcTag) (offset : ℤ) (val : BitVec 64) : ℤ × PlcTag :=
  match tag.data with
  | none => if tag.isBit then plcTagSetBitImpl tag 0 (val ≠ 0) else (plctagErrOutOfBounds, tag)
  | some _ => setWord .int64 tag offset val

def plcTagSetUint32 := setWord .uint32
def plcTagSetInt32 := setWord .int32
def plcTagSetUint16 := setWord .uint16
def plcTagSetInt16 := setWord .int16
def plcTagSetUint8 := setWord .uint8
def plcTagSetInt8 := setWord .int8
def plcTagSetFloat64 := setFloatWord .float64
def plcTagSetFloat32 := setFloatWord .float32

/-- The getter of a type. -/
def plcTagGet : (t : NumType) → PlcTag → ℤ → t.Word
  | .int8 => plcTagGetInt8
  | .uint8 => plcTagGetUint8
  | .int16 => plcTagGetInt16
  | .uint16 => plcTagGetUint16
  | .int32 => plcTagGetInt32
  | .uint32 => plcTagGetUint32
  | .int64 => plcTagGetInt64
  | .uint64 => plcTagGetUint64
  | .float32 => plcTagGetFloat32
  | .float64 => plcTagGetFloat64

/-- The setter of a type. -/
def plcTagSet : (t : NumType) → PlcTag → ℤ → t.Word → ℤ × PlcTag
  | .int8 => plcTagSetInt8
  | .uint8 => plcTagSetUint8
  | .int16 => plcTagSetInt16
  | .uint16 => plcTagSetUint16
  | .int32 => plcTagSetInt32
  | .uint32 => plcTagSetUint32
  | .int64 => plcTagSetInt64
  | .uint64 => plcTagSetUint64
  | .float32 => plcTagSetFloat32
  | .float64 => plcTagSetFloat64

/-! ## What the accessors do on a tag with a buffer that is no single bit -/

section Buffer
variable (tag : PlcTag) (data : List UInt8)

theorem getWord_data (t : NumType) (offset : ℤ) (hd : tag.data = some data)
    (hb : tag.isBit = false) :
    getWord t tag offset =
      if 0 ≤ offset ∧ offset + t.bytes ≤ data.length then
        BitVec.ofNat _ (load data offset.toNat (t.order tag.byteOrder))
      else t.sentinel := by
  unfold getWord
  rw [hd]
  simp only [hb, Bool.false_eq_true, if_false]

theorem setWord_data (t : NumType) (offset : ℤ) (val : t.Word) (hd : tag.data = some data)
    (hb : tag.isBit = false) :
    setWord t tag offset val =
      if 0 ≤ offset ∧ offset + t.bytes ≤ data.length then
        (plctagStatusOk,
          { tag with data := some (store data offset.toNat (t.order tag.byteOrder) val.toNat) })
      else (plctagErrOutOfBounds, tag) := by
  unfold setWord
  rw [hd]
  simp only [hb, Bool.false_eq_true, if_false]

theorem plcTagGet_eq (t : NumType) (offset : ℤ) (hb : tag.isBit = false) :
    plcTagGet t tag offset = getWord t tag offset := by
  have hf : getFloatWord t tag offset = getWord t tag offset := by
    unfold getFloatWord
    rw [hb]
    rfl
  cases t
  case float32 => exact hf
  case float64 => exact hf
  all_goals rfl

theorem plcTagSet_eq (t : NumType) (offset : ℤ) (val : t.Word) (hd : tag.data = some data)
    (hb : tag.isBit = false) : plcTagSet t tag offset val = setWord t tag offset val := by
  have hf : setFloatWord t tag offset val = setWord t tag offset val := by
    unfold setFloatWord
    rw [hd]
    simp only [hb, Bool.false_eq_true, if_false]
  cases t
  case float32 => exact hf
  case float64 => exact hf
  case int64 =>
    show plcTagSetInt64 tag offset val = _
    unfold plcTagSetInt64
    rw [hd]
  all_goals rfl

theorem plcTagGetBit_data (offsetBit : ℤ) (hd : tag.data = some data) (hb : tag.isBit = false) :
    plcTagGetBit tag offsetBit =
      if 0 ≤ offsetBit ∧ offsetBit / 8 < data.length then
        ((bitAt data offsetBit.toNat).toNat : ℤ)
      else plctagErrOutOfBounds := by
  unfold plcTagGetBit plcTagGetBitImpl
  rw [hd]
  simp only [hb, Bool.false_eq_true, if_false]

theorem plcTagSetBit_data (offsetBit : ℤ) (val : Bool) (hd : tag.data = some data)
    (hb : tag.isBit = false) :
    plcTagSetBit tag offsetBit val =
      if 0 ≤ offsetBit ∧ offsetBit / 8 < data.length then
        (plctagStatusOk, { tag with data := some (setBit data offsetBit.toNat val) })
      else (plctagErrOutOfBounds, tag) := by
  unfold plcTagSetBit plcTagSetBitImpl
  rw [hd]
  simp only [hb, Bool.false_eq_true, if_false]

end Buffer

end Plctagt.Tag
