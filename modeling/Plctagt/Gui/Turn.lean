import Plctagt.Gui.Press

/-! # What a turn can do to the shape of the screen

A turn is a key, then, when the Count field was active, a look at the count, and a redraw. The redraw
keeps the shape and stops when the active field is not there, so a session that goes on has one.
-/
namespace Plctagt.Gui
open Effects Decimal Tag
set_option autoImplicit false

/-- The shapes before and after a turn; `v` is the text the active field has after the key. -/
inductive Turned (key : Key) (tr : Trace) (v : Text) (s : Shape) : Shape → Prop
  | chosen (v' : Text) (h : s.actSec = 1 ∧ s.actField = 2) (ho : s.count.options ≠ []) :
      Turned key tr v s (s.setCount v')
  | pressed (s' : Shape) (h : ¬(s.actSec = 1 ∧ s.actField = 2)) (hp : Press key tr v s s') :
      Turned key tr v s s'
  | counted (s' : Shape) (h : s.actSec = 1 ∧ s.actField = 2) (hp : Press key tr v s s') :
      Turned key tr v s s'.checkCount

/-- The shape before Section 3 is filled. -/
def Shape.first (v : Text) : Shape where
  actSec := 0
  actField := 0
  lastActive := fun _ => 0
  length := 0
  count := ⟨v, []⟩
  lastCount := -1

namespace NCursesUI
variable (con : Console) (ui : NCursesUI)

theorem options_of_count {f : Field} (hf : (ui.fields ui.actSec)[ui.actField]? = some f)
    (h : ui.actSec = 1 ∧ ui.actField = 2) : f.options = ui.shape.count.options := by
  rw [h.1, h.2] at hf
  cases hf
  rfl

theorem meets_answer (key : Key) (f : Field)
    (hf : (ui.fields ui.actSec)[ui.actField]? = some f) :
    Meets (ui.answer con key) fun tr o =>
      match o with
      | .ok ui' => Turned key tr (edited key f ui.cursorPos) ui.shape ui'.shape
      | .error e => IndexFault e → PressFault key tr ui.shape := by
  unfold answer
  rw [activeField_eq _ _ hf, ret_bind]
  split
  · next hopt =>
    have hcount : ui.actSec = 1 ∧ ui.actField = 2 → ui.shape.count.options ≠ [] := by
      intro hat
      rw [← ui.options_of_count hf hat]
      exact hopt.1
    refine meets_call fun r => ?_
    cases r with
    | none =>
      refine meets_pure ?_
      by_cases hat : ui.actSec = 1 ∧ ui.actField = 2
      · exact .chosen ui.shape.count.value hat (hcount hat)
      · exact .pressed _ hat .stay
    | some i =>
      refine meets_pure ?_
      show Turned _ _ _ _ (ui.setActive _).shape
      rw [setActive, shape_setValue]
      split
      · next hat => exact .chosen _ hat (hcount hat)
      · next hat => exact .pressed _ hat .stay
  · refine meets_bind (ui.meets_press con key f hf) (fun tr ui₁ hp => ?_) fun tr e h => h
    refine meets_pure ?_
    have hp : Press key tr (edited key f ui.cursorPos) ui.shape ui₁.shape := hp
    rw [List.append_nil]
    show Turned _ _ _ _ (checkTypeChange con _).shape
    rw [shape_checkTypeChange]
    by_cases hat : ui.actSec = 1 ∧ ui.actField = 2
    · rw [if_pos hat, shape_checkCountChange]
      exact .counted _ hat hp
    · rw [if_neg hat]
      exact .pressed _ hat hp

theorem meets_turn (key : Key) :
    Meets (ui.turn con key) fun tr o =>
      match o with
      | .ok ui' => ∃ f, (ui.fields ui.actSec)[ui.actField]? = some f ∧
          Turned key tr (edited key f ui.cursorPos) ui.shape ui'.shape ∧
          (ui'.running = true → ui'.shape.actField < ui'.shape.size ui'.shape.actSec)
      | .error e => IndexFault e → ui.shape.size ui.actSec ≤ ui.actField ∨
          PressFault key tr ui.shape ∨
          ∃ v s', Turned key tr v ui.shape s' ∧ s'.size s'.actSec ≤ s'.actField := by
  cases hf : (ui.fields ui.actSec)[ui.actField]? with
  | none =>
    have hle : ui.shape.size ui.actSec ≤ ui.actField := by
      rw [size_shape, ← length_fields]
      exact List.getElem?_eq_none_iff.mp hf
    intro tr o h
    rw [turn, answer, activeField, hf] at h
    obtain ⟨-, rfl⟩ := h
    exact fun _ => .inl hle
  | some f =>
    refine meets_bind (ui.meets_answer con key f hf) (fun tr ui₁ h₁ => ?_) fun tr e h he =>
      .inr (.inl (h he))
    have h₁ : Turned key tr (edited key f ui.cursorPos) ui.shape ui₁.shape := h₁
    split
    · intro tr' o h
      obtain rfl : tr' = [] :=
        List.eq_nil_iff_forall_not_mem.mpr (calls_updateUI con ui₁ tr' o h)
      rw [List.append_nil]
      have hyields := yields_updateUI con ui₁ [] o h
      cases o with
      | ok ui' =>
        obtain ⟨hshape, hlt⟩ := hyields
        refine ⟨f, rfl, ?_, fun _ => ?_⟩
        · rw [hshape]
          exact h₁
        · rw [hshape]
          exact hlt
      | error e => exact fun _ => .inr (.inr ⟨_, _, h₁, hyields.2⟩)
    · next hrun =>
      refine meets_pure ?_
      rw [List.append_nil]
      exact ⟨f, rfl, h₁, fun h => absurd h hrun⟩

/-! ## The start -/

theorem loadState_options {n : ℕ} (state : List Text) (table : Fin n → Field) (i : Fin n) :
    (loadState state table i).options = (table i).options := by
  unfold loadState
  induction state using List.reverseRecOn with
  | nil => rfl
  | append_singleton state line ih =>
    rw [List.foldl_append, List.foldl_cons, List.foldl_nil, loadLine]
    split
    · exact ih
    · exact ih

theorem shape_loadTagHistory (history : List Text) :
    (ui.loadTagHistory history).shape = ui.shape := by
  simp [loadTagHistory, shape]

theorem meets_start (state history : List Text) :
    Meets (start con state history) fun _ o =>
      ∃ ui v n, o = .ok ui ∧ ui.shape = (Shape.first v).resize n := by
  set v := (loadState state sec2Table 2).value with hv
  have hinit : (initial state).shape = Shape.first v := by
    have hopt : (loadState state sec2Table 2).options = [] := loadState_options state sec2Table 2
    have hentry : loadState state sec2Table 2 = ⟨v, []⟩ := by
      rw [← hopt]
    exact congrArg (fun e => Shape.mk 0 0 (fun _ => 0) 0 e (-1)) hentry
  have hshape : (((initial state).updateSection3FromCount con).loadTagHistory history).shape =
      (Shape.first v).resize (max 0 (atoi v)).toNat := by
    rw [shape_loadTagHistory, shape_updateSection3FromCount, hinit]
    rfl
  refine Meets.weaken (yields_updateUI con _) fun tr o h => ?_
  rw [hshape] at h
  cases o with
  | ok ui => exact ⟨ui, _, _, rfl, h.1⟩
  | error e => exact absurd h.2 (by decide : ¬4 ≤ 0)

end NCursesUI

end Plctagt.Gui
