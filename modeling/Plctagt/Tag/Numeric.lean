import Plctagt.Tag.Calls

/-! # Creating tags, and numeric tags as vectors

`createTag` of `plctags.cpp` and the templates of `plctags.h`. The `error_string` a function is
given is returned with its status. The loops run `elem_count` times; `values[i]` past the end of
the vector stops the run.
-/
namespace Plctagt.Tag
open Effects Decimal
set_option autoImplicit false

def dataTimeout : ℤ := 5000

/-- `plc_tag_decode_error`. -/
def plcTagDecodeError (rc : ℤ) : Text :=
  let names : List String :=
    ["PLCTAG_STATUS_OK", "PLCTAG_ERR_ABORT", "PLCTAG_ERR_BAD_CONFIG", "PLCTAG_ERR_BAD_CONNECTION",
      "PLCTAG_ERR_BAD_DATA", "PLCTAG_ERR_BAD_DEVICE", "PLCTAG_ERR_BAD_GATEWAY",
      "PLCTAG_ERR_BAD_PARAM", "PLCTAG_ERR_BAD_REPLY", "PLCTAG_ERR_BAD_STATUS", "PLCTAG_ERR_CLOSE",
      "PLCTAG_ERR_CREATE", "PLCTAG_ERR_DUPLICATE", "PLCTAG_ERR_ENCODE", "PLCTAG_ERR_MUTEX_DESTROY",
      "PLCTAG_ERR_MUTEX_INIT", "PLCTAG_ERR_MUTEX_LOCK", "PLCTAG_ERR_MUTEX_UNLOCK",
      "PLCTAG_ERR_NOT_ALLOWED", "PLCTAG_ERR_NOT_FOUND", "PLCTAG_ERR_NOT_IMPLEMENTED",
      "PLCTAG_ERR_NO_DATA", "PLCTAG_ERR_NO_MATCH", "PLCTAG_ERR_NO_MEM", "PLCTAG_ERR_NO_RESOURCES",
      "PLCTAG_ERR_NULL_PTR", "PLCTAG_ERR_OPEN", "PLCTAG_ERR_OUT_OF_BOUNDS", "PLCTAG_ERR_READ",
      "PLCTAG_ERR_REMOTE_ERR", "PLCTAG_ERR_THREAD_CREATE", "PLCTAG_ERR_THREAD_JOIN",
      "PLCTAG_ERR_TIMEOUT", "PLCTAG_ERR_TOO_LARGE", "PLCTAG_ERR_TOO_SMALL",
      "PLCTAG_ERR_UNSUPPORTED", "PLCTAG_ERR_WINSOCK", "PLCTAG_ERR_WRITE", "PLCTAG_ERR_PARTIAL",
      "PLCTAG_ERR_BUSY"]
  if rc = plctagStatusPending then text "PLCTAG_STATUS_PENDING"
  else if rc ≤ 0 then text (names.getD rc.natAbs "Unknown error.")
  else text "Unknown error."

/-! ## Creating a tag -/

def createTag (errorString tagstring : Text) (timeOutMs : ℤ) : Program (ℤ × Text) := do
  let rc ← perform .checkLibVersion
  if rc ≠ plctagStatusOk then
    pure (-1001, text "Required compatible library version 2.4.0 not available!\n")
  else do
    let tag ← perform (.create (cstr tagstring) timeOutMs)
    if tag < 0 then
      pure (tag, text "ERROR " ++ plcTagDecodeError tag ++ text ": Could not create tag!\n")
    else pure (tag, errorString)

/-- `tagGetSizes`: status, element size, element count. -/
def tagGetSizes (errorString : Text) (tag : ℤ) : Program (ℤ × ℤ × ℤ × Text) := do
  let elemSize ← perform (.getIntAttribute tag .elemSize 0)
  if elemSize = 0 then
    pure (-1001, 0, 0,
      text "ERROR: elem_size is 0. Can also signify invalid/unssupported/nonexistent tagname.\n")
  else do
    let elemCount ← perform (.getIntAttribute tag .elemCount 0)
    if elemCount = 0 then pure (-1002, 0, 0, text "ERROR: elem_count is 0.\n")
    else pure (0, elemSize, elemCount, errorString)

/-! ## Numeric tags -/

/-- The `T` of the numeric templates. -/
inductive ElemType
  | num (t : NumType)
  | bool
  deriving DecidableEq

@[reducible] def ElemType.Val : ElemType → Type
  | .num t => t.Word
  | .bool => Bool

/-- `val = plc_tag_get_...(tag, offset)`; any status other than 0 is a true `bool`. -/
def readElem : (t : ElemType) → (tag offset : ℤ) → Program t.Val
  | .num t, tag, offset => perform (Call.getNum t tag offset)
  | .bool, tag, offset => do
    let rc ← perform (.getBit tag offset)
    pure (decide (rc ≠ 0))

/-- `rc = plc_tag_set_...(tag, offset, val)`. -/
def writeElem : (t : ElemType) → (tag offset : ℤ) → t.Val → Program ℤ
  | .num t, tag, offset, val => perform (Call.setNum t tag offset val)
  | .bool, tag, offset, val => perform (Call.setBit tag offset val)

section Loops
variable (t : ElemType) (tag elemSize : ℤ)

/-- The read loop with `n` elements to go, at element `i`. -/
def readElems : ℕ → ℕ → List t.Val → Program (List t.Val)
  | 0, _, values => pure values
  | n + 1, i, values => do
    let val ← readElem t tag (i * elemSize)
    readElems n (i + 1) (values ++ [val])

/-- The write loop with `n` elements to go, at element `i`; it stops at the first status that is
not OK. -/
def writeElems (values : List t.Val) : ℕ → ℕ → Program ℤ
  | 0, _ => pure plctagStatusOk
  | n + 1, i =>
    match values[i]? with
    | none => .stop .vectorIndex
    | some val => do
      let rc ← writeElem t tag (i * elemSize) val
      if rc ≠ plctagStatusOk then pure rc else writeElems values n (i + 1)

end Loops

/-- `ssprintf("<head> %d: %s\n", rc, plc_tag_decode_error(rc))`. -/
def codeError (head : String) (rc : ℤ) : Text :=
  text head ++ text " " ++ printInt rc ++ text ": " ++ plcTagDecodeError rc ++ text "\n"

def readNumericTag (t : ElemType) (errorString : Text) (tag : ℤ) (values : List t.Val)
    (timeOutMs : ℤ) : Program (ℤ × Text × List t.Val) := do
  let rc2 ← perform (.read tag timeOutMs)
  if rc2 ≠ plctagStatusOk then
    pure (rc2, codeError "ERROR: Unable to read the data! Got error code" rc2, values)
  else do
    let (rc, elemSize, elemCount, _) ← tagGetSizes errorString tag
    if rc ≠ plctagStatusOk then
      pure (rc, codeError "ERROR: Unable get tag information! Error code" rc, values)
    else do
      let values ← readElems t tag elemSize elemCount.toNat 0 values
      pure (0, errorString, values)

def writeNumericTag (t : ElemType) (errorString : Text) (tag : ℤ) (values : List t.Val)
    (timeOutMs : ℤ) : Program (ℤ × Text) := do
  let (rc, elemSize, elemCount, _) ← tagGetSizes errorString tag
  if rc ≠ plctagStatusOk then
    pure (rc, codeError "ERROR: Unable get tag information! Error code" rc)
  else do
    let rc ← writeElems t tag elemSize values elemCount.toNat 0
    if rc ≠ plctagStatusOk then
      pure (rc, codeError "ERROR: Unable to set the data! Error code" rc)
    else do
      let rc ← perform (.write tag timeOutMs)
      if rc ≠ plctagStatusOk then
        pure (rc, codeError "ERROR: Unable to write the data! Got error code" rc)
      else pure (0, errorString)

end Plctagt.Tag
