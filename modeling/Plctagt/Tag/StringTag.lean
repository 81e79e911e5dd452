import Plctagt.Tag.Numeric

/-! # String tags as vectors of strings

`readStringTag` and `writeStringTag` of `plctags.cpp`. The reader walks the buffer by the length of
each string it finds; nothing bounds its loop, so it is given a number of turns and stops with
`Fault.fuel` when they run out. It destroys the tag itself when an allocation or a string fails.
-/
namespace Plctagt.Tag
open Effects Decimal
set_option autoImplicit false

/-! ## Reading -/

/-- The loop of `readStringTag`, at string `strNum` and buffer offset `offset`. -/
def readStrings (errorString : Text) (tag : ℤ) :
    ℕ → (strNum offset : ℤ) → List Text → Program (ℤ × Text × List Text)
  | 0, _, _, _ => .stop .fuel
  | turns + 1, strNum, offset, values => do
    let size ← perform (.getSize tag)
    if offset < size then do
      let length ← perform (.getStringLength tag offset) >>= replied
      if intMax < length + 1 then
        -- the sum does not fit an `int`
        .stop .undefined
      else do
        let strCap := length + 1
        let str ← perform (.malloc (toUnsigned strCap))
        if str = false then do
          let _ ← perform (.destroy tag)
          pure (plctagErrNoMem,
            text "Unable to allocate memory for the string " ++ printInt strNum ++ text " of tag!",
            values)
        else do
          let (rc, str) ← perform (.getString tag offset strCap) >>= replied
          if rc ≠ plctagStatusOk then do
            let _ ← perform (.destroy tag)
            pure (rc,
              text "Unable to get string " ++ printInt strNum ++ text " of tag, got error " ++
                plcTagDecodeError rc ++ text "!", values)
          else if (0 : UInt8) ∈ str then do
            let total ← perform (.getStringTotalLength tag offset) >>= replied
            readStrings errorString tag turns (strNum + 1) (offset + total) (values ++ [cstr str])
          else
            -- the buffer is not terminated: copying it reads on past its end
            .stop .undefined
    else pure (0, errorString, values)

def readStringTag (turns : ℕ) (errorString : Text) (tag : ℤ) (values : List Text)
    (timeOutMs : ℤ) : Program (ℤ × Text × List Text) := do
  let rc2 ← perform (.read tag timeOutMs)
  if rc2 ≠ plctagStatusOk then
    pure (rc2, codeError "ERROR: Unable to read the data! Got error code" rc2, values)
  else do
    let (rc, _, _, errorString) ← tagGetSizes errorString tag
    if rc ≠ plctagStatusOk then pure (rc, errorString, values)
    else readStrings errorString tag turns 1 0 values

/-! ## Writing -/

/-- The loop of `writeStringTag` with `n` elements to go, at element `i`: the status, and the error
text when it is not OK. Every element is placed by the length of the first. -/
def writeStrings (errorString : Text) (tag : ℤ) (values : List Text) :
    ℕ → ℕ → Program (ℤ × Text)
  | 0, _ => pure (plctagStatusOk, errorString)
  | n + 1, i => do
    let strTotalLength ← perform (.getStringTotalLength tag 0) >>= replied
    match values[i]? with
    | none => .stop .vectorIndex
    | some value => do
      let rc ← perform (.setString tag (strTotalLength * i) (cstr value)) >>= replied
      if rc ≠ plctagStatusOk then
        pure (rc, text "Error setting string " ++ printInt i ++ text ", error " ++
          plcTagDecodeError rc ++ text "!\n")
      else writeStrings errorString tag values n (i + 1)

/-- The status of `tagGetSizes` is not looked at: when it fails, the count is 0. -/
def writeStringTag (errorString : Text) (tag : ℤ) (values : List Text) (timeOutMs : ℤ) :
    Program (ℤ × Text) := do
  let (_, _, elemCount, errorString) ← tagGetSizes errorString tag
  let (rc, errorString) ← writeStrings errorString tag values elemCount.toNat 0
  if rc ≠ plctagStatusOk then pure (rc, errorString)
  else do
    let rc ← perform (.write tag timeOutMs)
    if rc ≠ plctagStatusOk then
      pure (rc, codeError "ERROR: Unable to read the data! Got error code" rc)
    else pure (rc, errorString)

end Plctagt.Tag
