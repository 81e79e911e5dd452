import Plctagt.Gui.Run
import Plctagt.Tag.Handles

/-! # What indexes the sections, and what counts Section 3

`Shape` is what is left of the screen when only the active field, the saved positions, the Count field
and the length of Section 3 are looked at. `Press` says what one key can do to it, and
`meets_press` that the `switch` of `run` does nothing else. The invariants of a session are proved
from that, and not from the code of each key.
-/
namespace Plctagt.Gui
open Effects Decimal Tag
set_option autoImplicit false

/-! ## Shapes -/

structure Shape where
  actSec : Fin 3
  actField : ℕ
  lastActive : Fin 3 → ℕ
  length : ℕ
  count : Entry
  lastCount : ℤ

namespace Shape
variable (s : Shape)

def size : Fin 3 → ℕ
  | 0 => 4
  | 1 => 5
  | 2 => s.length

/-- `getCount`. -/
def getCount : ℤ := (stoi s.count.value).getD 0

def setCount (v : Text) : Shape := { s with count := { s.count with value := v } }

def resize (n : ℕ) : Shape := { s.setCount (printInt n) with length := n }

/-- The look at the count: when it is not the last one, Section 3 is filled by it. -/
def checkCount : Shape :=
  if s.getCount ≠ s.lastCount then
    { s with lastCount := s.getCount }.resize (max 0 (atoi s.count.value)).toNat
  else s

/-- To the section `t`, at the field that was active there last. -/
def enter (t : Fin 3) : Shape :=
  let lastActive := Function.update s.lastActive s.actSec s.actField
  { s with lastActive := lastActive, actSec := t, actField := lastActive t }

end Shape

def NCursesUI.shape (ui : NCursesUI) : Shape where
  actSec := ui.actSec
  actField := ui.actField
  lastActive := ui.lastActive
  length := ui.sec3.length
  count := ui.sec2 2
  lastCount := ui.lastCount

namespace NCursesUI
variable (con : Console) (ui : NCursesUI)

/-! ## The shape after the functions that call nothing -/

theorem shape_setValue (s : Fin 3) (i : ℕ) (v : Text) :
    (ui.setValue s i v).shape = if s = 1 ∧ i = 2 then ui.shape.setCount v else ui.shape := by
  match s with
  | 0 =>
    simp only [setValue]
    split <;> rfl
  | 1 =>
    by_cases hi : i < 5
    · simp only [setValue, hi, dite_true, true_and, shape, Shape.setCount]
      by_cases h2 : i = 2
      · subst h2
        rfl
      · have hne : (2 : Fin 5) ≠ ⟨i, hi⟩ := fun h => h2 (congrArg Fin.val h).symm
        rw [if_neg h2, Function.update_of_ne hne]
    · have h2 : i ≠ 2 := by omega
      simp [setValue, hi, h2]
  | 2 => simp [setValue, shape]

theorem shape_clearOptions (s : Fin 3) (i : ℕ) (h : ¬(s = 1 ∧ i = 2)) :
    (ui.clearOptions s i).shape = ui.shape := by
  match s with
  | 0 =>
    simp only [clearOptions]
    split <;> rfl
  | 1 =>
    simp only [clearOptions]
    split
    · next hi =>
      have hne : (2 : Fin 5) ≠ ⟨i, hi⟩ := fun he => h ⟨rfl, (congrArg Fin.val he).symm⟩
      simp only [shape, Function.update_of_ne hne]
    · rfl
  | 2 => rfl

@[simp] theorem shape_setType (v : Text) : (ui.setType v).shape = ui.shape := by
  simp [setType, shape_setValue]

@[simp] theorem shape_updateSection3Widths : (ui.updateSection3Widths con).shape = ui.shape := by
  simp [updateSection3Widths, shape]

@[simp] theorem shape_setStringType : (ui.setStringType con).shape = ui.shape := by
  simp [setStringType]

@[simp] theorem shape_updateSection3FromVector (values : List Text) :
    (ui.updateSection3FromVector con values).shape = ui.shape.resize values.length := by
  have hsec3 (ui : NCursesUI) (l : List Cell) :
      { ui with sec3 := l }.shape = { ui.shape with length := l.length } := rfl
  rw [updateSection3FromVector, hsec3, setFieldValue_count, shape_setValue, List.length_map]
  rfl

theorem shape_updateSection3FromCount :
    (ui.updateSection3FromCount con).shape =
      ui.shape.resize (max 0 (atoi ui.shape.count.value)).toNat := by
  rw [updateSection3FromCount, shape_updateSection3FromVector, List.length_replicate]
  rfl

@[simp] theorem shape_clearSection3Fields : ui.clearSection3Fields.shape = ui.shape := by
  simp [clearSection3Fields, shape]

@[simp] theorem shape_drawSection3Fields : (ui.drawSection3Fields con).shape = ui.shape := by
  simp [drawSection3Fields, shape]

@[simp] theorem shape_pageUpSection3 : (ui.pageUpSection3 con).shape = ui.shape := by
  obtain ⟨s, heq⟩ := ui.pageUpSection3_scrolls con
  rw [heq]
  rfl

@[simp] theorem shape_pageDownSection3 : (ui.pageDownSection3 con).shape = ui.shape := by
  obtain ⟨s, heq⟩ := ui.pageDownSection3_scrolls con
  rw [heq]
  rfl

@[simp] theorem shape_checkTypeChange : (ui.checkTypeChange con).shape = ui.shape := by
  unfold checkTypeChange
  split
  · exact shape_updateSection3Widths con _
  · rfl

@[simp] theorem shape_checkCountChange :
    (ui.checkCountChange con).shape = ui.shape.checkCount := by
  have hcheck : ui.checkCountChange con =
      if ui.shape.getCount ≠ ui.lastCount then
        { ui with lastCount := ui.shape.getCount }.updateSection3FromCount con
      else ui := rfl
  rw [hcheck, apply_ite shape, shape_updateSection3FromCount]
  rfl

/-! ## The active field -/

theorem size_shape (s : Fin 3) : ui.shape.size s = ui.size s := by
  match s with
  | 0 => rfl
  | 1 => rfl
  | 2 => rfl

theorem activeField_eq (f : Field) (h : (ui.fields ui.actSec)[ui.actField]? = some f) :
    ui.activeField = pure f := by
  rw [activeField, h]

theorem runs_activeField {tr : Trace} {o : Except Fault Field} (h : Runs ui.activeField tr o) :
    (∃ f, o = .ok f ∧ (ui.fields ui.actSec)[ui.actField]? = some f ∧
      ui.shape.actField < ui.shape.size ui.shape.actSec) ∨
    (o = .error .fieldIndex ∧ ui.shape.size ui.shape.actSec ≤ ui.shape.actField) := by
  have hsize : (ui.fields ui.actSec).length = ui.shape.size ui.actSec := by
    rw [length_fields, size_shape]
  unfold activeField at h
  split at h
  · next hf =>
    obtain ⟨-, rfl⟩ := h
    exact .inr ⟨rfl, hsize ▸ List.getElem?_eq_none_iff.mp hf⟩
  · next f hf =>
    obtain ⟨-, rfl⟩ := h
    exact .inl ⟨f, rfl, hf, hsize ▸ (List.getElem?_eq_some_iff.mp hf).1⟩

/-- A redraw keeps the shape, and stops only at an active field that is not there. -/
theorem yields_updateUI :
    Yields (ui.updateUI con)
      (fun ui' => ui'.shape = ui.shape ∧ ui.shape.actField < ui.shape.size ui.shape.actSec)
      (fun e => e = .fieldIndex ∧ ui.shape.size ui.shape.actSec ≤ ui.shape.actField) := by
  have hactive : Yields (ui.drawSection3Fields con).activeField
      (fun _ => ui.shape.actField < ui.shape.size ui.shape.actSec)
      (fun e => e = .fieldIndex ∧ ui.shape.size ui.shape.actSec ≤ ui.shape.actField) := by
    intro tr o h
    rcases runs_activeField _ h with ⟨f, rfl, -, hlt⟩ | ⟨rfl, hle⟩
    · rwa [shape_drawSection3Fields] at hlt
    · rw [shape_drawSection3Fields] at hle
      exact ⟨rfl, hle⟩
  refine hactive.bind fun af hlt => ?_
  split
  · exact (yields_pure _).mpr ⟨shape_drawSection3Fields con ui, hlt⟩
  · exact (yields_pure _).mpr ⟨shape_drawSection3Fields con ui, hlt⟩

theorem calls_updateUI : Calls (ui.updateUI con) fun _ => False := by
  have hactive : Calls (ui.drawSection3Fields con).activeField fun _ => False := by
    unfold activeField
    split
    · exact calls_stop _
    · exact calls_pure _
  refine hactive.bind fun af => ?_
  split
  · exact calls_pure _
  · exact calls_pure _

end NCursesUI

end Plctagt.Gui
