import Plctagt.Tag.Accessors
import Plctagt.Foundations.Decimal

/-! # libplctag: the string accessors of `lib.c`

How long a string is, and where its characters lie, comes from the tag's string definition: an
optional count word, the characters (in swapped pairs for some controllers), an optional NUL, and
padding. A result `none` stands for a read or write outside the buffer that the code does not
check; C leaves what happens then undefined.

Left out are the definition's `str_pad_to_multiple_bytes`, which no accessor reads, and the tag's
status and dirty flags.
-/
namespace Plctagt.Tag
open Bytes Decimal
set_option autoImplicit false

/-- The C conversion to `unsigned int`. -/
def toUnsigned (x : ℤ) : ℕ := (x % 2 ^ 32).toNat

theorem toUnsigned_natCast (n : ℕ) (h : n < 2 ^ 32) : toUnsigned n = n := by
  unfold toUnsigned
  omega

/-- Where character `i` lies among the characters: `i ^ str_is_byte_swapped`. -/
def TagByteOrder.charIndex (b : TagByteOrder) (i : ℕ) : ℕ :=
  if b.strIsByteSwapped then (if i % 2 = 0 then i + 1 else i - 1) else i

/-! ## Lengths -/

/-- A word at a place that is not checked against the buffer. -/
def wordUnsafe {w : ℕ} (data : List UInt8) (offset : ℤ) (lanes : Lanes w) :
    Option (BitVec (8 * w)) :=
  if 0 ≤ offset ∧ offset + w ≤ data.length then
    some (BitVec.ofNat _ (load data offset.toNat lanes))
  else none

/-- The scan for the NUL, with `n` bytes left before the end of the buffer; `len` characters have
been passed. -/
def terminatedLength (b : TagByteOrder) (data : List UInt8) (offset : ℤ) : ℕ → ℕ → Option ℕ
  | 0, len => some len
  | n + 1, len =>
    match data[b.charIndex len + toUnsigned offset + b.strCountWordBytes]? with
    | none => none
    | some 0 => some len
    | some _ => terminatedLength b data offset n (len + 1)

/-- `get_string_length_unsafe`. -/
def getStringLengthUnsafe (tag : PlcTag) (offset : ℤ) : Option ℤ :=
  let b := tag.byteOrder
  let data := tag.data.getD []
  if b.strIsCounted then
    match b.strCountWordBytes with
    | 1 => (wordUnsafe data offset (Lanes.little 1)).map fun v => (v.toNat : ℤ)
    | 2 => (wordUnsafe data offset b.int16Order).map BitVec.toInt
    | 4 => (wordUnsafe data offset b.int32Order).map BitVec.toInt
    | _ => some 0
  else if b.strIsZeroTerminated then
    (terminatedLength b data offset (tag.size - (offset + b.strCountWordBytes)).toNat 0).map
      Int.ofNat
  else some 0

/-- `get_string_total_length_unsafe`. -/
def getStringTotalLengthUnsafe (tag : PlcTag) (offset : ℤ) : Option ℤ :=
  let b := tag.byteOrder
  (if b.strIsFixedLength then some (b.strMaxCapacity : ℤ) else getStringLengthUnsafe tag offset).map
    fun len => b.strCountWordBytes + len + (if b.strIsZeroTerminated then 1 else 0) + b.strPadBytes

/-- `get_new_string_total_length_unsafe`. -/
def getNewStringTotalLengthUnsafe (b : TagByteOrder) (length : ℕ) : ℤ :=
  if b.strIsFixedLength then
    if b.strTotalLength ≠ 0 then b.strTotalLength else plctagErrBadConfig
  else
    length + b.strCountWordBytes + (if b.strIsZeroTerminated then 1 else 0) + b.strPadBytes
      + (if b.strIsByteSwapped ∧ length % 2 = 1 then 1 else 0)

/-- The tests the string accessors start with; the order differs in `plc_tag_set_string`, which
does not ask for data. -/
def stringRefusal (tag : PlcTag) : Option ℤ :=
  if !tag.byteOrder.strIsDefined then some plctagErrUnsupported
  else if tag.data.isNone then some plctagErrNoData
  else if tag.isBit then some plctagErrUnsupported
  else none

theorem stringRefusal_none {tag : PlcTag} {data : List UInt8}
    (hdef : tag.byteOrder.strIsDefined = true) (hd : tag.data = some data)
    (hbit : tag.isBit = false) : stringRefusal tag = none := by
  simp [stringRefusal, hdef, hd, hbit]

/-- `plc_tag_get_string_length` on a tag that exists. -/
def plcTagGetStringLength (tag : PlcTag) (offset : ℤ) : Option ℤ :=
  match stringRefusal tag with
  | some rc => some rc
  | none => getStringLengthUnsafe tag offset

/-- `plc_tag_get_string_total_length` on a tag that exists. -/
def plcTagGetStringTotalLength (tag : PlcTag) (offset : ℤ) : Option ℤ :=
  match stringRefusal tag with
  | some rc => some rc
  | none => getStringTotalLengthUnsafe tag offset

/-! ## Reading a string -/

/-- The copy loop of `plc_tag_get_string`: `n` characters from character `i` on. -/
def copyOut (b : TagByteOrder) (data : List UInt8) (offset : ℤ) : ℕ → ℕ → ℤ × Text
  | 0, _ => (plctagStatusOk, [])
  | n + 1, i =>
    match data[b.charIndex i + toUnsigned offset + b.strCountWordBytes]? with
    | none => (plctagErrOutOfBounds, [])
    | some c =>
      let (rc, rest) := copyOut b data offset n (i + 1)
      (rc, c :: rest)

theorem copyOut_eq (b : TagByteOrder) (data : List UInt8) (offset : ℕ) (s : Text)
    (hoffset : offset < 2 ^ 32)
    (hs : ∀ i (hi : i < s.length),
      data[b.charIndex i + offset + b.strCountWordBytes]? = some (s.get ⟨i, hi⟩))
    (n i : ℕ) (hi : i + n = s.length) :
    copyOut b data offset n i = (plctagStatusOk, s.drop i) := by
  induction n generalizing i with
  | zero => rw [copyOut, List.drop_eq_nil_of_le (by omega)]
  | succ n ih =>
    rw [copyOut, toUnsigned_natCast offset hoffset, hs i (by omega),
      List.drop_eq_getElem_cons (by omega), ih (i + 1) (by omega)]
    rfl

/-- The content of a buffer of `n` bytes that was cleared and then filled from the front. -/
def cleared (n : ℤ) (content : Text) : Text :=
  content ++ List.replicate (n.toNat - content.length) 0

/-- `plc_tag_get_string` on a tag that exists: the status and what the buffer of `bufferLength`
bytes holds afterwards. -/
def plcTagGetString (tag : PlcTag) (offset bufferLength : ℤ) : Option (ℤ × Text) :=
  match stringRefusal tag with
  | some rc => some (rc, [])
  | none =>
    (getStringLengthUnsafe tag offset).map fun stringLength =>
      let maxLen := if bufferLength < stringLength then bufferLength else stringLength
      if offset + tag.byteOrder.strCountWordBytes + maxLen ≤ tag.size then
        let (rc, chars) :=
          copyOut tag.byteOrder (tag.data.getD []) offset (min maxLen.toNat tag.size) 0
        (rc, cleared bufferLength chars)
      else (plctagErrOutOfBounds, cleared bufferLength [])

/-! ## Writing a string -/

/-- `resize_tag_buffer_at_offset_unsafe`; `realloc` tells which new sizes can be had. -/
def resizeTagBufferAtOffset (realloc : ℕ → Bool) (data : List UInt8)
    (oldSplitIndex newSplitIndex : ℤ) : ℤ × List UInt8 :=
  let old := oldSplitIndex.toNat
  let new := newSplitIndex.toNat
  if oldSplitIndex < 0 ∨ data.length < oldSplitIndex then (plctagErrOutOfBounds, data)
  else if newSplitIndex < 0 then (plctagErrOutOfBounds, data)
  else if newSplitIndex = oldSplitIndex then (plctagStatusOk, data)
  else if newSplitIndex < oldSplitIndex then
    -- the tail moves down before the buffer is cut; when the cut fails the old end stays
    let size := data.length - (old - new)
    if size ≠ 0 ∧ realloc size then (plctagStatusOk, data.take new ++ data.drop old)
    else (plctagErrNoMem, data.take new ++ data.drop old ++ data.drop size)
  else
    let size := data.length + (new - old)
    if realloc size then
      (plctagStatusOk, data.take old ++ List.replicate (new - old) 0 ++ data.drop old)
    else (plctagErrNoMem, data)

/-- The loop that clears the bytes from `lo` up to `hi` or the end. -/
def zeroRange (data : List UInt8) (lo hi : ℕ) : List UInt8 :=
  data.mapIdx fun i b => if lo ≤ i ∧ i < hi then 0 else b

/-- The count word of a string of the given length, written at `offset`. -/
def setCountWord (b : TagByteOrder) (data : List UInt8) (offset : ℤ) (length : ℕ) :
    Option (ℤ × List UInt8) :=
  match b.strCountWordBytes with
  | 1 =>
    if 2 ^ 8 ≤ length then some (plctagErrTooLarge, data)
    else if offset < 0 then none
    else some (plctagStatusOk, store data offset.toNat (Lanes.little 1) length)
  | 2 =>
    if 2 ^ 16 ≤ length then some (plctagErrTooLarge, data)
    else if offset < 0 then none
    else some (plctagStatusOk, store data offset.toNat b.int16Order length)
  | 4 =>
    if 2 ^ 32 ≤ length then some (plctagErrTooLarge, data)
    else if offset < 0 then none
    else some (plctagStatusOk, store data offset.toNat b.int32Order length)
  | _ => some (plctagErrUnsupported, data)

/-- The copy loop of `plc_tag_set_string`: the characters from character `i` on, with the
characters' place at `start`. -/
def copyIn (b : TagByteOrder) (start : ℕ) : List UInt8 → ℕ → Text → ℤ × List UInt8
  | data, _, [] => (plctagStatusOk, data)
  | data, i, c :: cs =>
    let charIndex := toUnsigned (start + b.charIndex i)
    if charIndex < data.length then copyIn b start (data.set charIndex c) (i + 1) cs
    else (plctagErrOutOfBounds, data)

/-- The body of `plc_tag_set_string` once the sizes have been agreed on. -/
def setStringData (b : TagByteOrder) (data : List UInt8) (offset newSize : ℤ) (s : Text) :
    Option (ℤ × List UInt8) :=
  let data := zeroRange data (toUnsigned offset) (toUnsigned (offset + newSize))
  let counted : Option (ℤ × List UInt8) :=
    if b.strIsCounted then
      if data.length < offset + b.strCountWordBytes then some (plctagErrOutOfBounds, data)
      else setCountWord b data offset s.length
    else some (plctagStatusOk, data)
  counted.map fun (rc, data) =>
    if rc ≠ plctagStatusOk then (rc, data)
    else
      let start := toUnsigned (offset + if b.strIsCounted then b.strCountWordBytes else 0)
      let (rc, data) := copyIn b start data 0 s
      if rc ≠ plctagStatusOk then (rc, data)
      else if b.strIsZeroTerminated then
        let nul := toUnsigned (start + s.length)
        if nul < data.length then (plctagStatusOk, data.set nul 0) else (plctagErrOutOfBounds, data)
      else (plctagStatusOk, data)

/-- `plc_tag_set_string` on a tag that exists; `s` is the C string passed in. -/
def plcTagSetString (realloc : ℕ → Bool) (tag : PlcTag) (offset : ℤ) (s : Text) :
    Option (ℤ × PlcTag) :=
  let b := tag.byteOrder
  let stop (rc : ℤ) : Option (ℤ × PlcTag) := some (rc, tag)
  if !b.strIsDefined then stop plctagErrUnsupported
  else if tag.isBit then stop plctagErrUnsupported
  else if b.strMaxCapacity ≠ 0 ∧ b.strMaxCapacity < s.length then stop plctagErrTooLarge
  else
    (getStringTotalLengthUnsafe tag offset).bind fun oldSize =>
      if oldSize < 0 then stop oldSize
      else
        let newSize := getNewStringTotalLengthUnsafe b s.length
        if newSize < 0 then stop newSize
        else if !tag.allowFieldResize ∧ newSize ≠ oldSize then stop plctagErrNotAllowed
        else
          let (rc, data) := resizeTagBufferAtOffset realloc (tag.data.getD []) (offset + oldSize)
            (offset + newSize)
          if rc ≠ plctagStatusOk then some (rc, { tag with data := tag.data.map fun _ => data })
          else
            (setStringData b data offset newSize s).map fun (rc, data) =>
              (rc, { tag with data := some data })

end Plctagt.Tag
