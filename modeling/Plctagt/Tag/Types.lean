import Plctagt.Tag.Calls

/-! # Tag strings and the names of CIP types

`buildTagstring`, `getTagType` and `getTagTypeCode` of `plctags.cpp`.
-/
namespace Plctagt.Tag
open Decimal
set_option autoImplicit false

def buildTagstring (gateway tagname : Text) (count : ℤ) (path cpu protocol : Text) : Text :=
  text "protocol=" ++ protocol ++ text "&gateway=" ++ gateway ++ text "&name=" ++ tagname ++
    text "&elem_count=" ++ printInt count ++
    if protocol = text "modbus_tcp" then text "&path=0"
    else text "&cpu=" ++ cpu ++ text "&path=" ++ path

/-- `cip_data_map`. -/
def cipDataMap : List (UInt16 × String) := [
  (0xC0, "DT"), (0xC1, "BIT"), (0xC2, "SINT"), (0xC3, "INT"), (0xC4, "DINT"), (0xC5, "LINT"),
  (0xC6, "USINT"), (0xC7, "UINT"), (0xC8, "UDINT"), (0xC9, "ULINT"), (0xCA, "REAL"),
  (0xCB, "LREAL"), (0xCC, "STIME"), (0xCD, "DATE"), (0xCE, "TIME_OF_DAY"),
  (0xCF, "DATE_AND_TIME"), (0xD0, "STRING"), (0xD1, "BYTE"), (0xD2, "WORD"), (0xD4, "LWORD"),
  (0xD5, "STRING2"), (0xD6, "FTIME"), (0xD7, "LTIME"), (0xD8, "ITIME"), (0xD9, "STRINGN"),
  (0xDA, "SHORT_STRING"), (0xDB, "TIME"), (0xDC, "EPATH"), (0xDD, "ENGUNIT"), (0xDE, "STRINGI"),
  (0xA0, "ABREV_STRUCT"), (0xA1, "ABREV_ARRAY"), (0xA2, "FULL_STRUCT"), (0xA3, "FULL_ARRAY"),
  (0x8fce, "STRING_LGX"),
  (0x8f83, "Timer"), (0x8ffb, "ALARM_DIGITAL"), (0x8fff, "MESSAGE"), (0x8f82, "COUNTER"),
  (0x8573, "RADIO_COMM_TYPE"), (0xa11a, "XFR_TYPE"), (0x853f, "TIMESTAMP2_TYPE"),
  (0xad45, "PM_XFR_STATUS_TYPE"), (0x8a82, "CONVEYOR_TYPE"), (0x1338, "I_BUTTON"),
  (0x8c9b, "SCALE_TYPE"), (0xabd1, "PM_XFR_STATUS_TYPE"),
  (0x8624, "1756_DI_C"), (0x82e9, "1756_DO_C"), (0x8ad5, "1756_DI_I"), (0x8efa, "1756_IF16_C"),
  (0x8920, "1756_IF16_I"),
  (0x106D, "Routine"), (0x1068, "Program"), (0x1070, "Task"),
  (0x107e, "CXN_STANDARD"), (0x1069, "MAP_R999"),
  (0x8a75, ".UNKNOWN.")]

def mapFind (key : UInt16) (defaultValue : Text) : Text :=
  ((cipDataMap.find? fun p => p.1 = key).map fun p => text p.2).getD defaultValue

/-- The codes the map does not have are looked up by their low byte. -/
def getTagType (type : UInt16) (defaultValue : Text) : Text :=
  let r := mapFind type []
  if r = [] then mapFind (type &&& 0xff) defaultValue else r

/-- The map is not ordered; the names this is asked for stand there once. -/
def getTagTypeCode (type : String) : UInt16 :=
  ((cipDataMap.find? fun p => p.2 = type).map fun p => p.1).getD 0

/-- `std::hex`, at least `width` digits. -/
def printHex (width n : ℕ) : Text :=
  let digit (d : ℕ) : UInt8 := UInt8.ofNat (if d < 10 then 48 + d else 87 + d)
  let s := if n = 0 then [digit 0] else ((Nat.digits 16 n).map digit).reverse
  List.replicate (width - s.length) 48 ++ s

end Plctagt.Tag
