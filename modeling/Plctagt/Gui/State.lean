import Plctagt.Tag.Calls

/-! # The screen: sections, fields, and what a session starts from

`gui.cpp` keeps three sections of fields. Sections 1 and 2 are made once by `gui()`: how many fields
they have, and the label, width and editability of each, never change, so only values and options
are state (`Entry`, over the tables `sec1Table` and `sec2Table`). Section 3 is a vector of values;
each of its fields is made with an empty label, editable and without options, and nothing assigns
these (`Cell`). Positions on the screen are left out.
-/
namespace Plctagt.Gui
open Decimal Tag
set_option autoImplicit false

/-! ## Fields -/

/-- What the program never changes of a field. -/
structure Form where
  label : Text
  width : ℤ
  editable : Bool

/-- What it does change. -/
structure Entry where
  value : Text
  options : List Text

/-- `struct Field`, less its place on the screen. -/
structure Field extends Form, Entry

/-- The test before a key that edits a field, and before the cursor is shown in it. -/
def Field.typed (f : Field) : Bool :=
  f.editable && (f.options.isEmpty || f.label == text "Tagname:")

structure Cell where
  value : Text
  width : ℤ

def Cell.field (c : Cell) : Field where
  label := []
  width := c.width
  editable := true
  value := c.value
  options := []

/-- The fields of Section 1, as `gui()` makes them. -/
def sec1Table : Fin 4 → Field := ![
  ⟨⟨text "Gateway:", 17, true⟩, ⟨text "192.168.0.102", []⟩⟩,
  ⟨⟨text "Path:", 20, true⟩, ⟨text "1,0", []⟩⟩,
  ⟨⟨text "Protocol:", 9, true⟩, ⟨text "ab-eip", [text "ab-eip", text "modbus_tcp"]⟩⟩,
  ⟨⟨text "Cpu:", 13, true⟩, ⟨text "contrologix", [text "plc5", text "slc", text "lgxpccc",
    text "micrologix800", text "micrologix", text "contrologix", text "omron-njnx"]⟩⟩]

/-- The fields of Section 2. -/
def sec2Table : Fin 5 → Field := ![
  ⟨⟨text "Type:", 6, true⟩, ⟨text "REAL32", [text "BIT", text "BOOL", text "INT8", text "INT16",
    text "INT32", text "INT64", text "UINT8", text "UINT16", text "UINT32", text "UINT64",
    text "REAL32", text "REAL64", text "STRING"]⟩⟩,
  ⟨⟨text "Tagname:", 38, true⟩, ⟨text "TEST_ARRAY", []⟩⟩,
  ⟨⟨text "Count:", 3, true⟩, ⟨text "1", []⟩⟩,
  ⟨⟨text "[Read]", 6, false⟩, ⟨[], []⟩⟩,
  ⟨⟨text "[Write]", 7, false⟩, ⟨[], []⟩⟩]

/-! ## The state of the user interface -/

/-- `NCursesUI`, with the values its sections have. `lastCount` and `lastType` are `last_count` and
the `last_type` of `run`; `lastActive` holds the `last_active` of the three sections. -/
structure NCursesUI where
  sec1 : Fin 4 → Entry
  sec2 : Fin 5 → Entry
  sec3 : List Cell
  lastActive : Fin 3 → ℕ
  actSec : Fin 3
  actField : ℕ
  cursorPos : ℤ
  scroll : ℤ
  lastCount : ℤ
  lastType : Text
  tobefleshed : ℤ
  running : Bool

namespace NCursesUI
variable (ui : NCursesUI)

/-- `sections[s]->fields`. -/
def fields : Fin 3 → List Field
  | 0 => List.ofFn fun i => ⟨(sec1Table i).toForm, ui.sec1 i⟩
  | 1 => List.ofFn fun i => ⟨(sec2Table i).toForm, ui.sec2 i⟩
  | 2 => ui.sec3.map Cell.field

def size : Fin 3 → ℕ
  | 0 => 4
  | 1 => 5
  | 2 => ui.sec3.length

theorem length_fields (s : Fin 3) : (ui.fields s).length = ui.size s := by
  match s with
  | 0 => exact List.length_ofFn
  | 1 => exact List.length_ofFn
  | 2 => exact List.length_map _

theorem editable_or_label (s : Fin 3) (f : Field) (h : f ∈ ui.fields s) :
    f.editable = true ∨ f.label ≠ [] := by
  match s with
  | 0 =>
    obtain ⟨i, rfl⟩ := List.mem_ofFn.mp h
    exact .inl ((by decide : ∀ i, (sec1Table i).editable = true) i)
  | 1 =>
    obtain ⟨i, rfl⟩ := List.mem_ofFn.mp h
    exact (by decide : ∀ i, (sec2Table i).editable = true ∨ (sec2Table i).label ≠ []) i
  | 2 =>
    obtain ⟨c, -, rfl⟩ := List.mem_map.mp h
    exact .inl rfl

theorem getElem?_ofFn_eq_some {n i : ℕ} {g : Fin n → Field} {f : Field}
    (h : (List.ofFn g)[i]? = some f) : ∃ j : Fin n, (j : ℕ) = i ∧ f = g j := by
  obtain ⟨hi, hf⟩ := List.getElem?_eq_some_iff.mp h
  rw [List.length_ofFn] at hi
  exact ⟨⟨i, hi⟩, rfl, by rw [← hf, List.getElem_ofFn]⟩

theorem field_sec1 {i : ℕ} {f : Field} (h : (ui.fields 0)[i]? = some f) :
    ∃ j : Fin 4, (j : ℕ) = i ∧ f = ⟨(sec1Table j).toForm, ui.sec1 j⟩ :=
  getElem?_ofFn_eq_some h

theorem field_sec2 {i : ℕ} {f : Field} (h : (ui.fields 1)[i]? = some f) :
    ∃ j : Fin 5, (j : ℕ) = i ∧ f = ⟨(sec2Table j).toForm, ui.sec2 j⟩ :=
  getElem?_ofFn_eq_some h

/-- `sections[s]->fields[i].value = v`. -/
def setValue (s : Fin 3) (i : ℕ) (v : Text) : NCursesUI :=
  match s with
  | 0 =>
    if h : i < 4 then
      { ui with sec1 := Function.update ui.sec1 ⟨i, h⟩ { ui.sec1 ⟨i, h⟩ with value := v } }
    else ui
  | 1 =>
    if h : i < 5 then
      { ui with sec2 := Function.update ui.sec2 ⟨i, h⟩ { ui.sec2 ⟨i, h⟩ with value := v } }
    else ui
  | 2 => { ui with sec3 := ui.sec3.modify i fun c => { c with value := v } }

/-- `sections[s]->fields[i].options.clear()`; a field of Section 3 has none. -/
def clearOptions (s : Fin 3) (i : ℕ) : NCursesUI :=
  match s with
  | 0 =>
    if h : i < 4 then
      { ui with sec1 := Function.update ui.sec1 ⟨i, h⟩ { ui.sec1 ⟨i, h⟩ with options := [] } }
    else ui
  | 1 =>
    if h : i < 5 then
      { ui with sec2 := Function.update ui.sec2 ⟨i, h⟩ { ui.sec2 ⟨i, h⟩ with options := [] } }
    else ui
  | 2 => ui

/-- Only the sections change. -/
theorem setValue_frame (s : Fin 3) (i : ℕ) (v : Text) :
    ui.setValue s i v = { ui with
      sec1 := (ui.setValue s i v).sec1
      sec2 := (ui.setValue s i v).sec2
      sec3 := (ui.setValue s i v).sec3 } := by
  match s with
  | 0 =>
    simp only [setValue]
    split <;> rfl
  | 1 =>
    simp only [setValue]
    split <;> rfl
  | 2 => rfl

theorem clearOptions_frame (s : Fin 3) (i : ℕ) :
    ui.clearOptions s i = { ui with
      sec1 := (ui.clearOptions s i).sec1
      sec2 := (ui.clearOptions s i).sec2
      sec3 := (ui.clearOptions s i).sec3 } := by
  match s with
  | 0 =>
    simp only [clearOptions]
    split <;> rfl
  | 1 =>
    simp only [clearOptions]
    split <;> rfl
  | 2 => rfl

theorem update_apply {n : ℕ} (es : Fin n → Entry) (g : Entry → Entry) {i : ℕ} (hi : i < n)
    (j : Fin n) :
    Function.update es ⟨i, hi⟩ (g (es ⟨i, hi⟩)) j = if i = j then g (es j) else es j := by
  by_cases hj : i = j
  · subst hj
    rw [Function.update_self, if_pos rfl]
  · rw [Function.update_of_ne (fun h => hj (congrArg Fin.val h).symm), if_neg hj]

theorem sec1_setValue (s : Fin 3) (i : ℕ) (v : Text) (j : Fin 4) :
    (ui.setValue s i v).sec1 j =
      if s = 0 ∧ i = j then { ui.sec1 j with value := v } else ui.sec1 j := by
  match s with
  | 0 =>
    simp only [setValue, true_and]
    split
    · next hi => exact update_apply ui.sec1 (fun e => { e with value := v }) hi j
    · next hi => rw [if_neg fun h : i = j => hi (h ▸ j.isLt)]
  | 1 =>
    simp only [setValue]
    split <;> rfl
  | 2 => rfl

theorem sec2_setValue (s : Fin 3) (i : ℕ) (v : Text) (j : Fin 5) :
    (ui.setValue s i v).sec2 j =
      if s = 1 ∧ i = j then { ui.sec2 j with value := v } else ui.sec2 j := by
  match s with
  | 0 =>
    simp only [setValue]
    split <;> rfl
  | 1 =>
    simp only [setValue, true_and]
    split
    · next hi => exact update_apply ui.sec2 (fun e => { e with value := v }) hi j
    · next hi => rw [if_neg fun h : i = j => hi (h ▸ j.isLt)]
  | 2 => rfl

theorem field_setValue {s : Fin 3} {i : ℕ} {f : Field} (hf : (ui.fields s)[i]? = some f)
    (v : Text) : ((ui.setValue s i v).fields s)[i]? = some { f with value := v } := by
  match s with
  | 0 =>
    obtain ⟨j, rfl, rfl⟩ := ui.field_sec1 hf
    have hentry : (ui.setValue 0 j v).sec1 j = { ui.sec1 j with value := v } := by
      rw [sec1_setValue, if_pos ⟨rfl, rfl⟩]
    show (List.ofFn fun i => Field.mk (sec1Table i).toForm ((ui.setValue 0 j v).sec1 i))[(j : ℕ)]? = _
    rw [List.getElem?_ofFn, dif_pos j.isLt, hentry]
  | 1 =>
    obtain ⟨j, rfl, rfl⟩ := ui.field_sec2 hf
    have hentry : (ui.setValue 1 j v).sec2 j = { ui.sec2 j with value := v } := by
      rw [sec2_setValue, if_pos ⟨rfl, rfl⟩]
    show (List.ofFn fun i => Field.mk (sec2Table i).toForm ((ui.setValue 1 j v).sec2 i))[(j : ℕ)]? = _
    rw [List.getElem?_ofFn, dif_pos j.isLt, hentry]
  | 2 =>
    obtain ⟨c, hc, rfl⟩ := Option.map_eq_some_iff.mp (List.getElem?_map ▸ hf)
    show ((ui.sec3.modify i fun c => { c with value := v }).map Cell.field)[i]? = _
    rw [List.getElem?_map, List.getElem?_modify_eq, hc]
    rfl

/-- The value that is there already. -/
theorem setValue_self {s : Fin 3} {i : ℕ} {f : Field} (hf : (ui.fields s)[i]? = some f) :
    ui.setValue s i f.value = ui := by
  match s with
  | 0 =>
    obtain ⟨j, rfl, rfl⟩ := ui.field_sec1 hf
    rw [setValue, dif_pos j.isLt]
    show { ui with sec1 := Function.update ui.sec1 j (ui.sec1 j) } = ui
    rw [Function.update_eq_self]
  | 1 =>
    obtain ⟨j, rfl, rfl⟩ := ui.field_sec2 hf
    rw [setValue, dif_pos j.isLt]
    show { ui with sec2 := Function.update ui.sec2 j (ui.sec2 j) } = ui
    rw [Function.update_eq_self]
  | 2 =>
    obtain ⟨c, hc, rfl⟩ := Option.map_eq_some_iff.mp (List.getElem?_map ▸ hf)
    have hcells : (ui.sec3.modify i fun c' => { c' with value := c.field.value }) = ui.sec3 := by
      refine List.ext_getElem? fun k => ?_
      by_cases hk : i = k
      · rw [← hk, List.getElem?_modify_eq, hc]
        rfl
      · rw [List.getElem?_modify_ne _ _ hk]
    show { ui with sec3 := ui.sec3.modify i fun c' => { c' with value := c.field.value } } = ui
    rw [hcells]

theorem sec1_clearOptions (s : Fin 3) (i : ℕ) (j : Fin 4) :
    (ui.clearOptions s i).sec1 j =
      if s = 0 ∧ i = j then { ui.sec1 j with options := [] } else ui.sec1 j := by
  match s with
  | 0 =>
    simp only [clearOptions, true_and]
    split
    · next hi => exact update_apply ui.sec1 (fun e => { e with options := [] }) hi j
    · next hi => rw [if_neg fun h : i = j => hi (h ▸ j.isLt)]
  | 1 =>
    simp only [clearOptions]
    split <;> rfl
  | 2 => rfl

theorem sec2_clearOptions (s : Fin 3) (i : ℕ) (j : Fin 5) :
    (ui.clearOptions s i).sec2 j =
      if s = 1 ∧ i = j then { ui.sec2 j with options := [] } else ui.sec2 j := by
  match s with
  | 0 =>
    simp only [clearOptions]
    split <;> rfl
  | 1 =>
    simp only [clearOptions, true_and]
    split
    · next hi => exact update_apply ui.sec2 (fun e => { e with options := [] }) hi j
    · next hi => rw [if_neg fun h : i = j => hi (h ▸ j.isLt)]
  | 2 => rfl

def setType (v : Text) : NCursesUI := ui.setValue 1 0 v

/-- The first field with the label gets the value. -/
def setFieldValue (label v : Text) : NCursesUI :=
  let places := [0, 1, 2].flatMap fun s => (ui.fields s).zipIdx.map fun p => (s, p.2, p.1.label)
  match places.find? fun p => p.2.2 = label with
  | none => ui
  | some (s, i, _) => ui.setValue s i v

theorem setFieldValue_count (v : Text) :
    ui.setFieldValue (text "Count:") v = ui.setValue 1 2 v := rfl

def getGateway : Text := (ui.sec1 0).value
def getPath : Text := (ui.sec1 1).value
def getProtocol : Text := (ui.sec1 2).value
def getCpu : Text := (ui.sec1 3).value
def getType : Text := (ui.sec2 0).value
def getTagname : Text := (ui.sec2 1).value
def getCount : ℤ := (stoi (ui.sec2 2).value).getD 0

def getSection3Values : List Text := ui.sec3.map Cell.value

end NCursesUI

end Plctagt.Gui
