import Plctagt.Gui.Format
import Plctagt.Gui.State

/-! # Section 3: filling, drawing, paging

The member functions of `NCursesUI` that resize Section 3, rewrite its values when they are drawn,
and place the cursor. Drawing is kept to what it does to the state. `Console` is what stays the same
during a session: the size of the terminal (with the `cols` the constructor keeps), the C library on
floating point, and how many turns the reader of string tags is given.
-/
namespace Plctagt.Gui
open Effects Decimal Tag
set_option autoImplicit false

structure Console where
  rows : ℤ
  cols : ℤ
  float : FloatText
  turns : ℕ

namespace Console
variable (con : Console)

/-- `sec3->top`: below two sections of three rows that share their borders. -/
def sec3Top : ℤ := 4

/-- `sec3->bottom - sec3->top - 1`. -/
def vis : ℤ := con.rows - 1 - sec3Top - 1

/-- `cols - 2 - 6`, where the constructor takes at least 80 columns. -/
def maxFieldWidth : ℤ := max con.cols 80 - 2 - 6

/-- A terminal of 24 rows, and floating point texts that are not looked at. -/
def plain : Console where
  rows := 24
  cols := 80
  float :=
    { strtof := fun _ => ⟨0, false, none⟩, strtod := fun _ => ⟨0, false, none⟩
      printG32 := fun _ => [], printG64 := fun _ => []
      toString32 := fun _ => [], toString64 := fun _ => [] }
  turns := 100

end Console

def getFieldWidth (fieldType : Text) (maxWidth : ℤ) : ℤ :=
  let width :=
    if fieldType = text "BIT" then 1
    else if fieldType = text "BOOL" then 1
    else if fieldType = text "INT8" then 4
    else if fieldType = text "INT16" then 6
    else if fieldType = text "INT32" then 10
    else if fieldType = text "REAL32" then 11
    else if fieldType = text "REAL64" then 18
    else maxWidth
  if maxWidth < width then maxWidth else width

namespace NCursesUI
variable (con : Console) (ui : NCursesUI)

/-! ## Filling -/

def updateSection3Widths : NCursesUI :=
  let fieldWidth := getFieldWidth ui.getType con.maxFieldWidth
  { ui with sec3 := ui.sec3.map fun c => { c with width := fieldWidth } }

/-- `updateSection3FromVector` without the forced redraw. A new field and one that is kept get the
same width and value, so the section is rebuilt. -/
def updateSection3FromVector (values : List Text) : NCursesUI :=
  let ui := { ui with scroll := 0 }
  let ui := ui.setFieldValue (text "Count:") (printInt values.length)
  let fieldWidth := getFieldWidth ui.getType con.maxFieldWidth
  { ui with sec3 := values.map fun v => ⟨formatValueForType con.float ui.getType v, fieldWidth⟩ }

def updateSection3FromCount : NCursesUI :=
  let count := max 0 (atoi (ui.sec2 2).value)
  ui.updateSection3FromVector con (List.replicate count.toNat (text "0"))

def clearSection3Fields : NCursesUI :=
  { ui with sec3 := ui.sec3.map fun c => { c with value := [] }, cursorPos := 0 }

def checkCountChange : NCursesUI :=
  let currentCount := (stoi (ui.sec2 2).value).getD 0
  if currentCount ≠ ui.lastCount then
    { ui with lastCount := currentCount }.updateSection3FromCount con
  else ui

/-! ## Drawing -/

/-- The scroll position moves until the field being edited is visible. -/
def drawScroll : ℤ :=
  let scroll := if ui.actSec = 2 ∧ ui.actField < ui.scroll then (ui.actField : ℤ) else ui.scroll
  if ui.actSec = 2 ∧ scroll + con.vis ≤ ui.actField then ui.actField - con.vis + 1 else scroll

/-- The field being edited is drawn as it is; every other visible one is formatted, and the
formatted text is stored. -/
def drawCell (idx : ℕ) (c : Cell) : Cell :=
  if ui.drawScroll con ≤ idx ∧ idx < ui.drawScroll con + con.vis ∧
      ¬(ui.actSec = 2 ∧ idx = ui.actField) then
    { c with value := formatValueForType con.float ui.getType c.value }
  else c

def drawSection3Fields : NCursesUI :=
  { ui with scroll := ui.drawScroll con, sec3 := ui.sec3.mapIdx (ui.drawCell con) }

/-- `sections[act_sec]->fields[act_field]`. -/
def activeField : Program Field :=
  match (ui.fields ui.actSec)[ui.actField]? with
  | none => .stop .fieldIndex
  | some f => pure f

def setCursor : Program NCursesUI := do
  let af ← ui.activeField
  if af.typed then pure { ui with cursorPos := min ui.cursorPos af.value.length } else pure ui

def updateUI : Program NCursesUI := (ui.drawSection3Fields con).setCursor

/-! ## Paging -/

def pageUpSection3 : NCursesUI :=
  let total : ℤ := ui.sec3.length
  if total ≤ con.vis then ui
  else if ui.scroll ≤ 0 then { ui with scroll := max 0 (total - con.vis) }
  else { ui with scroll := if ui.scroll - con.vis < 0 then 0 else ui.scroll - con.vis }

def pageDownSection3 : NCursesUI :=
  let total : ℤ := ui.sec3.length
  if total ≤ con.vis then ui
  else if total - con.vis ≤ ui.scroll then { ui with scroll := 0 }
  else
    { ui with
      scroll := if total - con.vis < ui.scroll + con.vis then max 0 (total - con.vis)
        else ui.scroll + con.vis }

/-- Paging moves the window, and nothing else. -/
theorem pageUpSection3_scrolls : ∃ s, ui.pageUpSection3 con = { ui with scroll := s } := by
  unfold pageUpSection3
  dsimp only
  split
  · exact ⟨ui.scroll, rfl⟩
  · split <;> exact ⟨_, rfl⟩

theorem pageDownSection3_scrolls : ∃ s, ui.pageDownSection3 con = { ui with scroll := s } := by
  unfold pageDownSection3
  dsimp only
  split
  · exact ⟨ui.scroll, rfl⟩
  · split <;> exact ⟨_, rfl⟩

end NCursesUI

end Plctagt.Gui
