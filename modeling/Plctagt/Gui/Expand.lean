import Plctagt.Tag.Types

/-! # Tags of structured types, member by member

`expand_tags` and `formatTagDisplay` of `gui.cpp`. Entries of the types the program knows are
replaced by one entry for each member; an entry of a type it cannot profile is removed, and any other
entry that is not of a base type raises SIGTRAP.
-/
namespace Plctagt.Gui
open Decimal Tag
set_option autoImplicit false

/-! ## Members -/

def expandTagentry (e : TagEntry) (name type : String) (count : UInt16) : TagEntry where
  nextName := []
  name := e.name ++ text "." ++ text name
  parentName := e.parentName
  instanceId := 0
  type := getTagTypeCode type
  elemSize := 0
  elemCount := count
  numDimensions := 0
  dimensions := fun _ => 0

def timerMembers : List (String × String) :=
  [("PRE", "DINT"), ("ACC", "DINT"), ("EN", "BIT"), ("TT", "BIT"), ("DN", "BIT")]

def messageMembers : List (String × String) :=
  [("Flags", "INT"), ("EW", "BIT"), ("ER", "BIT"), ("DN", "BIT"), ("ST", "BIT"), ("EN", "BIT"),
    ("TO", "BIT"), ("EN_CC", "BIT"), ("ERR", "INT"), ("EXERR", "DINT"), ("ERR_SRC", "SINT"),
    ("DN_LEN", "INT"), ("REQ_LEN", "INT"), ("DestinationLink", "INT"), ("DestinationNode", "INT"),
    ("SourceLink", "INT"), ("Class", "INT"), ("Attribute", "INT"), ("Instance", "DINT"),
    ("LocalIndex", "DINT"), ("Channel", "SINT"), ("Rack", "SINT"), ("Group", "SINT"),
    ("Slot", "SINT"), ("Path", "STRING_LGX"), ("RemoteIndex", "DINT"),
    ("RemoteElement", "STRING_LGX"), ("UnconnectedTimeout", "DINT"), ("ConnectionRate", "DINT"),
    ("TimeoutMultiplier", "SINT")]

def counterMembers : List (String × String) :=
  [("PRE", "DINT"), ("ACC", "DINT"), ("CU", "BIT"), ("CD", "BIT"), ("OV", "BIT"), ("UN", "BIT")]

def alarmDigitalMembers : List (String × String) :=
  [("EnableIn", "BIT"), ("In", "BIT"), ("InFault", "BIT"), ("Condition", "BIT"),
    ("AckRequired", "BIT"), ("Latched", "BIT"), ("ProgAck", "BIT"), ("OperAck", "BIT"),
    ("ProgReset", "BIT"), ("OperReset", "BIT"), ("ProgSuppress", "BIT"), ("OperSuppress", "BIT"),
    ("ProgUnsuppress", "BIT"), ("OperUnsuppress", "BIT"), ("OperShelve", "BIT"),
    ("ProgUnshelve", "BIT"), ("OperUnshelve", "BIT"), ("ProgDisable", "BIT"),
    ("OperDisable", "BIT"), ("ProgEnable", "BIT"), ("OperEnable", "BIT"),
    ("AlarmCountReset", "BIT"), ("UseProgTime", "BIT"), ("ProgTime", "LINT")]

def xfrMembers : List (String × String) :=
  [("CONV_XFR", "SINT"), ("ITLK_XFR", "SINT"), ("ALLOCATED_UNIT", "DINT"), ("COMMAND", "INT"),
    ("RUNTIME.HOURS", "DINT"), ("RUNTIME.MINUTES", "INT"), ("WT.RATE", "DINT"),
    ("WT.SCALE", "DINT"), ("WT.TOTAL_TONNAGE", "DINT"), ("FLOP_GATE", "SINT"),
    ("T10_CONV_STAT", "SINT"), ("MCT.MCT_00", "INT"), ("MCT.MCT_01", "INT"), ("MCT.MCT_02", "INT"),
    ("MCT.MCT_03", "INT")]

def digitalInputConfigMembers : List (String × String) :=
  [("DiagCOSDisable", "BIT"), ("FilterOffOn_0_7", "SINT"), ("FilterOnOff_0_7", "SINT"),
    ("FilterOffOn_8_15", "SINT"), ("FilterOnOff_8_15", "SINT"), ("FilterOffOn_16_23", "SINT"),
    ("FilterOnOff_16_23", "SINT"), ("FilterOffOn_24_31", "SINT"), ("FilterOnOff_24_31", "SINT"),
    ("COSOnOffEn", "DINT"), ("COSOffOnEn", "DINT")]

def digitalInputMembers : List (String × String) := [("Fault", "DINT"), ("Data", "DINT")]

def digitalOutputConfigMembers : List (String × String) :=
  [("ProgToFaultEn", "BIT"), ("FaultMode", "DINT"), ("FaultValue", "DINT"), ("ProgMode", "DINT"),
    ("ProgValue", "DINT")]

def channelMembers : List (String × String) :=
  [("RangeType", "SINT"), ("DigitalFilter", "INT"), ("LowSignal", "REAL"), ("HighSignal", "REAL"),
    ("LowEngineering", "REAL"), ("HighEngineering", "REAL"), ("CalBias", "REAL")]

/-- Types that are taken out with nothing in their place, but still counted in `tobefleshed`. -/
def removedTypes : List String :=
  ["TIME_OF_DAY", "FULL_STRUCT", "RADIO_COMM_TYPE", "CONVEYOR_TYPE", "PM_XFR_STATUS_TYPE",
    "I_BUTTON", "SCALE_TYPE", "TIMESTAMP2_TYPE", "1756_IF16_I", "Routine", "Program", "Task",
    "CXN_STANDARD", "MAP_R999"]

/-! ## The loop -/

/-- What one turn of the loop of `expand_tags` does with an entry. -/
structure Expansion where
  remove : Bool
  add : List TagEntry
  tobefleshed : ℤ

def addMembers (e : TagEntry) (members : List (String × String)) : List TagEntry :=
  members.map fun m => expandTagentry e m.1 m.2 1

/-- `none` is `raise(SIGTRAP)`. -/
def expansion (e : TagEntry) : Option Expansion :=
  let type := getTagType e.type []
  if type = [] ∨ type = text ".UNKNOWN." then some ⟨true, [], 0⟩
  else if type = text "Timer" then some ⟨true, addMembers e timerMembers, 0⟩
  else if type = text "MESSAGE" then some ⟨true, addMembers e messageMembers, 0⟩
  else if type = text "COUNTER" then some ⟨true, addMembers e counterMembers, 0⟩
  else if type = text "ALARM_DIGITAL" then some ⟨true, addMembers e alarmDigitalMembers, 0⟩
  else if type = text "XFR_TYPE" then
    some ⟨true, (List.range e.elemCount.toNat).flatMap fun i =>
      let ec := { e with name := e.name ++ text "[" ++ printNat i ++ text "]" }
      addMembers ec xfrMembers ++ [expandTagentry ec "LIGHTS" "DINT" 2], 0⟩
  else if type = text "1756_DI_C" then some ⟨true, addMembers e digitalInputConfigMembers, 0⟩
  else if type = text "1756_DI_I" then some ⟨true, addMembers e digitalInputMembers, 0⟩
  else if type = text "1756_DO_C" then some ⟨true, addMembers e digitalOutputConfigMembers, 0⟩
  else if type = text "1756_IF16_C" then
    some ⟨true, addMembers e [("ModuleFilter", "SINT"), ("RealTimeSample", "INT")] ++
      (List.range 16).flatMap fun i =>
        channelMembers.map fun m =>
          expandTagentry { e with name := e.name ++ text ".Ch" ++ printNat i ++ text "Config" }
            m.1 m.2 1, 0⟩
  else if removedTypes.any fun t => type = text t then some ⟨true, [], 1⟩
  else if type <:+: text "BIT SINT INT DINT LINT REAL STRING_LGX" then some ⟨false, [], 1⟩
  else none

/-- `tagentries[i] = tagentries.back(); tagentries.pop_back();` -/
def removeEntry (entries : List TagEntry) (i : ℕ) : List TagEntry :=
  match entries.getLast? with
  | none => entries
  | some back => (entries.set i back).dropLast

/-- `expand_tags`, with the change it makes to `tobefleshed`. The positions to remove are gathered
from the first entry on, so their reversal is what the sort leaves. -/
def expandTags (entries : List TagEntry) : Option (List TagEntry × ℤ) :=
  (entries.mapM expansion).map fun es =>
    let toRemove := es.zipIdx.filterMap fun p => if p.1.remove then some p.2 else none
    (toRemove.reverse.foldl removeEntry entries ++ es.flatMap Expansion.add,
      (es.map Expansion.tobefleshed).sum)

/-! ## Names -/

def makeTagName (e : TagEntry) : Text :=
  (if e.parentName.length > 0 then e.parentName ++ text "." else []) ++ e.name

/-- The stream stays in hexadecimal: the dimensions are printed so, too. -/
def formatTagDisplay (e : TagEntry) (sTypeWidth : ℕ) : Text :=
  let type := getTagType e.type (text "UNKN")
  let dimension (i : Fin 3) : Text :=
    if i.val < e.numDimensions.toNat then
      text "[" ++ printHex 0 (e.dimensions i).toNat ++ text "]"
    else []
  printHex 4 e.type.toNat ++ text "-" ++ type ++ List.replicate (sTypeWidth - type.length) 32 ++
    text ":  " ++ (if e.parentName = [] then [] else e.parentName ++ text ".") ++ e.name ++
    dimension 0 ++ dimension 1 ++ dimension 2

end Plctagt.Gui
