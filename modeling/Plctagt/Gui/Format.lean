import Plctagt.Tag.Numeric

/-! # Values as texts

`formatValueForType` of `gui.cpp`, `toNumericVector` of `utility.h` and the `std::to_string` of each
element type. How the C library reads and prints floating point is not modelled: `FloatText` stands
for it, on bit patterns.
-/
namespace Plctagt.Gui
open Decimal Tag
set_option autoImplicit false

/-! ## Conversions -/

/-- What `strtof` and `strtod` leave behind, as `Strto` for the integers. -/
structure Scanned (w : ℕ) where
  value : BitVec w
  erange : Bool
  rest : Option Text

/-- The C library on `float` and `double`: `strtof`, `strtod`, the format `%g`, and
`std::to_string`. -/
structure FloatText where
  strtof : Text → Scanned 32
  strtod : Text → Scanned 64
  printG32 : BitVec 32 → Text
  printG64 : BitVec 64 → Text
  toString32 : BitVec 32 → Text
  toString64 : BitVec 64 → Text

/-- `if(endptr == raw.c_str() || errno != 0) v = 0`. -/
def Strto.checked (r : Strto) : ℤ := if r.rest = none ∨ r.erange = true then 0 else r.value

def Scanned.checked {w : ℕ} (r : Scanned w) : BitVec w :=
  if r.rest = none ∨ r.erange = true then 0 else r.value

/-- `static_cast<int>`. -/
def toInt (v : ℤ) : ℤ := (BitVec.ofInt 32 v).toInt

variable (fl : FloatText)

def formatValueForType (type raw : Text) : Text :=
  snprintf 256
    (if type = text "REAL32" then fl.printG32 (fl.strtof raw).checked
    else if type = text "REAL64" then fl.printG64 (fl.strtod raw).checked
    else if type = text "INT8" ∨ type = text "INT16" then
      printInt (toInt (Strto.checked (strtoll raw)))
    else if type = text "INT32" then printInt (Strto.checked (strtoll raw))
    else if type = text "INT64" then printInt (Strto.checked (strtoll raw))
    else if type = text "UINT8" ∨ type = text "UINT16" then
      printInt (toUnsigned (Strto.checked (strtoull raw)))
    else if type = text "UINT32" then printInt (Strto.checked (strtoull raw))
    else if type = text "UINT64" then printInt (Strto.checked (strtoull raw))
    else if type = text "BIT" ∨ type = text "BOOL" then
      printInt (if Strto.checked (strtoll raw) ≠ 0 then 1 else 0)
    else cstr raw)

/-- The number an integer pattern stands for. -/
def wordInt : (t : NumType) → t.Word → ℤ
  | .int8, v => BitVec.toInt v
  | .int16, v => BitVec.toInt v
  | .int32, v => BitVec.toInt v
  | .int64, v => BitVec.toInt v
  | _, v => v.toNat

/-- `std::to_string`. -/
def toString : (t : ElemType) → t.Val → Text
  | .num .float32, v => fl.toString32 v
  | .num .float64, v => fl.toString64 v
  | .num t, v => printInt (wordInt t v)
  | .bool, v => printInt (if v then 1 else 0)

/-- `if(errno != 0 || endptr == cstr || *endptr != '\0') val = 0`. -/
def converted {α : Type} (zero val : α) (erange : Bool) (rest : Option Text) : α :=
  if erange = true ∨ rest ≠ some [] then zero else val

/-- One step of `toNumericVector<T>`: `strtoll` and a cast for every integral `T`. -/
def toNumeric : (t : ElemType) → Text → t.Val
  | .num .float32, s => converted 0 (fl.strtof s).value (fl.strtof s).erange (fl.strtof s).rest
  | .num .float64, s => converted 0 (fl.strtod s).value (fl.strtod s).erange (fl.strtod s).rest
  | .num _, s => converted 0 (BitVec.ofInt _ (strtoll s).value) (strtoll s).erange (strtoll s).rest
  | .bool, s => converted false (decide ((strtoll s).value ≠ 0)) (strtoll s).erange (strtoll s).rest

def toNumericVector (t : ElemType) (strVec : List Text) : List t.Val := strVec.map (toNumeric fl t)

/-! ## The types of Section 2 -/

/-- The `T` of `readTagAndUpdateSection3<T>` and `writeTagFromSection3<T>`. -/
inductive TagKind
  | elem (t : ElemType)
  | string
  deriving DecidableEq

/-- The `T` that `handleEnterKey` takes for a type, in both of its chains of tests. -/
def tagKind (ftype : Text) : Option TagKind :=
  if ftype = text "INT8" ∨ ftype = text "BOOL" then some (.elem (.num .int8))
  else if ftype = text "INT16" then some (.elem (.num .int16))
  else if ftype = text "INT32" then some (.elem (.num .int32))
  else if ftype = text "INT64" then some (.elem (.num .int64))
  else if ftype = text "UINT8" then some (.elem (.num .uint8))
  else if ftype = text "UINT16" then some (.elem (.num .uint16))
  else if ftype = text "UINT32" then some (.elem (.num .uint32))
  else if ftype = text "UINT64" then some (.elem (.num .uint64))
  else if ftype = text "REAL32" then some (.elem (.num .float32))
  else if ftype = text "REAL64" then some (.elem (.num .float64))
  else if ftype = text "BIT" then some (.elem .bool)
  else if ftype = text "STRING" then some .string
  else none

end Plctagt.Gui
