import Plctagt.Foundations.LineEditor
import Plctagt.Foundations.Lockstep
import Plctagt.Gui.Turns

/-! # Typing into a field

A field that is typed into is a line with a cursor, and the editing keys are those of a line editor
whose limit is the field's width. Between two keys the screen is drawn, which clamps the cursor, and
where the Count field is active the count is looked at: a text that does not read as the last count
is replaced by the number Section 3 is filled by.
-/
namespace Plctagt.Gui
open Effects Decimal Tag LineEditor Lockstep
set_option autoImplicit false

/-- What a key is to the line editor. -/
def Key.edit : Key → Option (Edit UInt8)
  | .byte b => if b = 127 then some .backspace else if 32 ≤ b ∧ b ≤ 126 then some (.char b) else none
  | .left => some .left
  | .right => some .right
  | .backspace => some .backspace
  | .dc => some .delete
  | .f n => if n = 5 then some .clear else none
  | _ => none

namespace NCursesUI
variable {con : Console} {ui ui' : NCursesUI}

/-- Gateway, Path, Tagname, Count, and every field of Section 3. -/
def FreeText (ui : NCursesUI) : Prop :=
  (ui.actSec = 0 ∧ ui.actField < 2) ∨ (ui.actSec = 1 ∧ (ui.actField = 1 ∨ ui.actField = 2)) ∨
    ui.actSec = 2

/-! ## What holds in a session -/

/-- The cursor is never before the field, and only the Tagname field has options of its own. -/
structure Typable (ui : NCursesUI) : Prop where
  cursor : 0 ≤ ui.cursorPos
  sec1 : ∀ i, (ui.sec1 i).options = (sec1Table i).options
  sec2 : ∀ i, i ≠ 1 → (ui.sec2 i).options = (sec2Table i).options

theorem cursorPos_setValue (s : Fin 3) (i : ℕ) (v : Text) :
    (ui.setValue s i v).cursorPos = ui.cursorPos := by
  rw [setValue_frame]

theorem cursorPos_clearOptions (s : Fin 3) (i : ℕ) :
    (ui.clearOptions s i).cursorPos = ui.cursorPos := by
  rw [clearOptions_frame]

theorem Typable.congr (h : ui.Typable) (hcursor : 0 ≤ ui'.cursorPos) (h1 : ui'.sec1 = ui.sec1)
    (h2 : ui'.sec2 = ui.sec2) : ui'.Typable :=
  ⟨hcursor, h1 ▸ h.sec1, h2 ▸ h.sec2⟩

theorem Typable.setValue (h : ui.Typable) (s : Fin 3) (i : ℕ) (v : Text) :
    (ui.setValue s i v).Typable := by
  refine ⟨(cursorPos_setValue s i v).symm ▸ h.cursor, fun j => ?_, fun j hj => ?_⟩
  · rw [sec1_setValue]
    split <;> exact h.sec1 j
  · rw [sec2_setValue]
    split <;> exact h.sec2 j hj

theorem Typable.forget (h : ui.Typable) {f : Field}
    (hf : (ui.fields ui.actSec)[ui.actField]? = some f) (hlabel : f.label = text "Tagname:") :
    (ui.clearOptions ui.actSec ui.actField).Typable := by
  have hat : ui.actSec = 1 ∧ ui.actField = 1 := by
    match hsec : ui.actSec with
    | 0 =>
      rw [hsec] at hf
      obtain ⟨j, -, rfl⟩ := ui.field_sec1 hf
      exact absurd hlabel ((by decide : ∀ j, (sec1Table j).label ≠ text "Tagname:") j)
    | 1 =>
      rw [hsec] at hf
      obtain ⟨j, hj, rfl⟩ := ui.field_sec2 hf
      have hone := (by decide : ∀ j, (sec2Table j).label = text "Tagname:" → j = 1) j hlabel
      exact ⟨rfl, by rw [← hj, hone]; rfl⟩
    | 2 =>
      rw [hsec] at hf
      obtain ⟨c, -, rfl⟩ := List.mem_map.mp (List.mem_of_getElem? hf)
      exact absurd hlabel (by decide : ([] : Text) ≠ text "Tagname:")
  refine ⟨(cursorPos_clearOptions _ _).symm ▸ h.cursor, fun j => ?_, fun j hj => ?_⟩
  · rw [sec1_clearOptions, if_neg fun h => absurd (h.1.symm.trans hat.1) (by decide)]
    exact h.sec1 j
  · rw [sec2_clearOptions, if_neg]
    · exact h.sec2 j hj
    · rintro ⟨-, heq⟩
      rw [hat.2] at heq
      exact hj (Fin.ext heq.symm)

theorem Typable.update (h : ui.Typable) (hu : Update con ui ui') : ui'.Typable := by
  cases hu with
  | quit => exact h.congr h.cursor rfl rfl
  | stored hv =>
    refine ⟨h.cursor, h.sec1, fun j hj => ?_⟩
    have hsame : (ui.stored ui.getTagname).sec2 j = ui.sec2 j := Function.update_of_ne hj _ _
    rw [hsame]
    exact h.sec2 j hj
  | focus saved s i f hf => exact h.congr (Int.natCast_nonneg _) rfl rfl
  | cursor p hp => exact h.congr (hp.elim id h.cursor.trans) rfl rfl
  | typed f hf v hv => exact h.setValue _ _ v
  | chosen f hf v hv => exact h.setValue _ _ v
  | forgotten f hf hlabel => exact h.forget hf hlabel
  | cleared => exact h.congr (le_refl 0) rfl rfl
  | filled values => exact (h.setValue 1 2 (printInt values.length)).congr h.cursor rfl rfl
  | stringType =>
    have hset := h.setValue 1 0 (text "STRING")
    exact hset.congr hset.cursor rfl rfl
  | widths => exact h.congr h.cursor rfl rfl
  | counted n => exact h.congr h.cursor rfl rfl
  | compared v => exact h.congr h.cursor rfl rfl
  | fleshed n => exact h.congr h.cursor rfl rfl
  | pagedUp =>
    obtain ⟨s, heq⟩ := ui.pageUpSection3_scrolls con
    rw [heq]
    exact h.congr h.cursor rfl rfl
  | pagedDown =>
    obtain ⟨s, heq⟩ := ui.pageDownSection3_scrolls con
    rw [heq]
    exact h.congr h.cursor rfl rfl
  | drawn ui' hdrawn =>
    obtain ⟨f, -, rfl⟩ := drawn_eq hdrawn
    have hcursor := h.cursor
    refine h.congr ?_ rfl rfl
    dsimp only
    split
    · exact le_min hcursor (Int.natCast_nonneg _)
    · exact hcursor

theorem typable_launched (con : Console) (state history : List Text) :
    (launched con state history).Typable := by
  refine ⟨Int.natCast_nonneg _, fun i => loadState_options state sec1Table i, fun i hi => ?_⟩
  have hloaded := loadState_options state sec2Table i
  have hsame : ((launched con state history).sec2 i) =
      ((initial state).updateSection3FromCount con).sec2 i := Function.update_of_ne hi _ _
  have hcount : (((initial state).updateSection3FromCount con).sec2 i).options =
      ((initial state).sec2 i).options := by
    show (((initial state).setValue 1 2 _).sec2 i).options = _
    rw [sec2_setValue]
    split <;> rfl
  rw [hsame, hcount]
  exact hloaded

theorem typed_of_free (hfree : ui.FreeText) (h : ui.Typable) {f : Field}
    (hf : (ui.fields ui.actSec)[ui.actField]? = some f) : f.typed = true := by
  rcases hfree with ⟨hsec, hfield⟩ | ⟨hsec, hfield⟩ | hsec
  · rw [hsec] at hf
    obtain ⟨j, hj, rfl⟩ := ui.field_sec1 hf
    have htable := (by decide : ∀ j : Fin 4, (j : ℕ) < 2 → (sec1Table j).typed = true) j (hj ▸ hfield)
    rw [Field.typed] at htable ⊢
    rw [h.sec1 j]
    exact htable
  · rw [hsec] at hf
    obtain ⟨j, hj, rfl⟩ := ui.field_sec2 hf
    rw [← hj] at hfield
    by_cases hone : j = 1
    · subst hone
      have hlabel : ((sec2Table 1).label == text "Tagname:") = true := by decide
      exact Bool.and_eq_true_iff.mpr ⟨rfl, Bool.or_eq_true_iff.mpr (.inr hlabel)⟩
    · have htable := (by decide : ∀ j : Fin 5, (j : ℕ) = 1 ∨ (j : ℕ) = 2 →
        (sec2Table j).typed = true) j hfield
      rw [Field.typed] at htable ⊢
      rw [h.sec2 j hone]
      exact htable
  · rw [hsec] at hf
    obtain ⟨c, -, rfl⟩ := List.mem_map.mp (List.mem_of_getElem? hf)
    rfl

/-- The type has been looked at since it was changed, unless it may still be changing. -/
def TypeSeen (ui : NCursesUI) : Prop :=
  ui.lastType = ui.getType ∨ ui.actSec = 1 ∧ ui.actField = 0

theorem typeSeen_checkTypeChange : (ui.checkTypeChange con).TypeSeen := by
  unfold checkTypeChange
  split
  · exact .inl rfl
  · next h => exact .inl (not_not.mp h).symm

theorem TypeSeen.setActive (h : ui.TypeSeen) (v : Text) : (ui.setActive v).TypeSeen := by
  have hsec : (ui.setActive v).actSec = ui.actSec := by rw [NCursesUI.setActive, setValue_frame]
  have hfield : (ui.setActive v).actField = ui.actField := by
    rw [NCursesUI.setActive, setValue_frame]
  have hlast : (ui.setActive v).lastType = ui.lastType := by
    rw [NCursesUI.setActive, setValue_frame]
  by_cases hat : ui.actSec = 1 ∧ ui.actField = 0
  · exact .inr ⟨hsec.trans hat.1, hfield.trans hat.2⟩
  · have hseen : ui.lastType = ui.getType := h.resolve_right hat
    have htype : (ui.setActive v).getType = ui.getType := by
      show ((ui.setValue ui.actSec ui.actField v).sec2 0).value = _
      rw [sec2_setValue]
      exact congrArg Entry.value (if_neg hat)
    exact .inl (by rw [hlast, htype, hseen])

theorem typeSeen_of_reached {P : NCursesUI → Key → Trace → Prop} (h : ui.Reached con P) :
    ui.TypeSeen := by
  have hdraw : ∀ ui₁ ui₂ : NCursesUI, ui₁.TypeSeen → ui₁.updateUI con = pure ui₂ → ui₂.TypeSeen := by
    intro ui₁ ui₂ h₁ hdrawn
    obtain ⟨f, -, rfl⟩ := drawn_eq hdrawn
    exact h₁
  refine Reached.invariant (I := TypeSeen) ?_ ?_ h
  · rintro ui ⟨state, history, tr, hrun⟩
    exact hdraw _ _ (.inl rfl) (updateUI_of_runs hrun).2.1
  · rintro ui ui' key tr hseen - hrun
    rcases (runs_bind _ _ _ _).mp hrun with ⟨tr₁, tr₂, ui₁, rfl, h₁, h₂⟩ | ⟨e, he, -⟩
    · have hanswer : ui₁.TypeSeen := by
        rcases (runs_bind _ _ _ _).mp h₁ with ⟨tr₃, tr₄, f, -, -, h₁⟩ | ⟨e, he, -⟩
        · split at h₁
          · obtain ⟨r, tr₅, -, h₁⟩ := h₁
            cases r with
            | none =>
              obtain ⟨-, h₁⟩ := h₁
              cases h₁
              exact hseen
            | some i =>
              obtain ⟨-, h₁⟩ := h₁
              cases h₁
              exact hseen.setActive _
          · rcases (runs_bind _ _ _ _).mp h₁ with ⟨_, _, ui₂, -, -, -, h₁⟩ | ⟨e, he, -⟩
            · cases h₁
              exact typeSeen_checkTypeChange
            · cases he
        · cases he
      split at h₂
      · exact hdraw _ _ hanswer (updateUI_of_runs h₂).2.1
      · obtain ⟨-, h₂⟩ := h₂
        cases h₂
        exact hanswer
    · cases he

/-! ## One key -/

/-- The active field, as a line with a cursor. -/
def withLine (l : Line UInt8) (ui : NCursesUI) : NCursesUI :=
  { ui.setActive l.text with cursorPos := l.cursor }

theorem withLine_self {f : Field} (hf : (ui.fields ui.actSec)[ui.actField]? = some f)
    {l : Line UInt8} (hvalue : f.value = l.text) (hcursor : ui.cursorPos = l.cursor) :
    ui.withLine l = ui := by
  rw [withLine, NCursesUI.setActive, ← hvalue, setValue_self ui hf, ← hcursor]

/-- The line when only its cursor moves. -/
theorem withLine_moved {f : Field} (hf : (ui.fields ui.actSec)[ui.actField]? = some f)
    {l : Line UInt8} (hvalue : f.value = l.text) :
    ui.withLine l = { ui with cursorPos := l.cursor } := by
  rw [withLine, NCursesUI.setActive, ← hvalue, setValue_self ui hf]

section Key
variable {f : Field} (hf : (ui.fields ui.actSec)[ui.actField]? = some f) (htyped : f.typed = true)
  {l : Line UInt8} (hvalue : f.value = l.text) (hcursor : ui.cursorPos = l.cursor)
include hf htyped hvalue hcursor

theorem backspace_line (limit : ℕ) : ui.backspace f = pure (ui.withLine (l.key limit .backspace)) := by
  unfold backspace
  by_cases hpos : 0 < l.cursor
  · have hle := l.cursor_le
    rw [if_pos ⟨htyped, by omega⟩, if_pos (by rw [hvalue]; omega), withLine,
      Line.text_key_backspace hpos, Line.cursor_key_backspace, hcursor, hvalue]
    have hnat : ((l.cursor : ℤ) - 1).toNat = l.cursor - 1 := by omega
    have hint : ((l.cursor - 1 : ℕ) : ℤ) = (l.cursor : ℤ) - 1 := by omega
    rw [hnat, hint]
  · rw [if_neg (by omega), Line.key_backspace_zero (by omega), withLine_self hf hvalue hcursor]

theorem deleteChar_line (limit : ℕ) : ui.deleteChar f = pure (ui.withLine (l.key limit .delete)) := by
  unfold deleteChar
  have hnat : ui.cursorPos.toNat = l.cursor := by omega
  by_cases hlt : l.cursor < l.text.length
  · rw [if_pos ⟨htyped, by rw [hvalue]; omega⟩, if_pos (by omega), withLine, Line.text_key_delete,
      Line.cursor_key_delete, ← hcursor, hnat, hvalue]
    have hframe : { ui.setActive (l.text.eraseIdx l.cursor) with cursorPos := ui.cursorPos } =
        ui.setActive (l.text.eraseIdx l.cursor) := by
      rw [NCursesUI.setActive, setValue_frame]
    rw [hframe]
  · have hsame : (l.key limit .delete).text = l.text := by
      rw [Line.text_key_delete, List.eraseIdx_of_length_le (not_lt.mp hlt)]
    rw [if_neg (by rw [hvalue]; omega), withLine_self hf (hvalue.trans hsame.symm)]
    rw [Line.cursor_key_delete, hcursor]

theorem insertChar_line {b : UInt8} (hb : 32 ≤ b ∧ b ≤ 126) :
    ui.insertChar f b = pure (ui.withLine (l.key f.width.toNat (.char b))) := by
  unfold insertChar
  have hnat : ui.cursorPos.toNat = l.cursor := by omega
  have hle := l.cursor_le
  by_cases hroom : l.text.length < f.width.toNat
  · rw [if_pos ⟨htyped, hb.1, hb.2, by rw [hvalue]; omega⟩, if_pos (by rw [hvalue]; omega), withLine,
      Line.text_key_char hroom, Line.cursor_key_char hroom, hnat, hvalue, hcursor]
    rfl
  · rw [if_neg (by rw [hvalue]; omega), Line.key_char_full (not_lt.mp hroom),
      withLine_self hf hvalue hcursor]

omit hf hvalue hcursor in
theorem clearField_line (limit : ℕ) :
    ui.clearField f = ui.withLine (l.key limit .clear) := by
  have hedit : f.editable = true := (Bool.and_eq_true_iff.mp htyped).1
  exact if_pos hedit

theorem cursorLeft_line (limit : ℕ) : ui.cursorLeft f = ui.withLine (l.key limit .left) := by
  rw [withLine_moved hf (hvalue.trans Line.text_key_left.symm), Line.cursor_key_left]
  unfold cursorLeft
  by_cases hpos : 0 < l.cursor
  · have hint : ((l.cursor - 1 : ℕ) : ℤ) = ui.cursorPos - 1 := by omega
    rw [if_pos ⟨htyped, by omega⟩, hint]
  · have hint : ((l.cursor - 1 : ℕ) : ℤ) = ui.cursorPos := by omega
    rw [if_neg (by omega), hint]

theorem cursorRight_line (limit : ℕ) : ui.cursorRight f = ui.withLine (l.key limit .right) := by
  rw [withLine_moved hf (hvalue.trans Line.text_key_right.symm), Line.cursor_key_right]
  unfold cursorRight
  have hle := l.cursor_le
  by_cases hlt : l.cursor < l.text.length
  · have hint : ((min (l.cursor + 1) l.text.length : ℕ) : ℤ) = ui.cursorPos + 1 := by omega
    rw [if_pos ⟨htyped, by rw [hvalue]; omega⟩, hint]
  · have hint : ((min (l.cursor + 1) l.text.length : ℕ) : ℤ) = ui.cursorPos := by omega
    rw [if_neg (by rw [hvalue]; omega), hint]

/-- Every editing key is the line editor's. -/
theorem press_line {key : Key} {e : Edit UInt8} (he : key.edit = some e) :
    ui.press con key f = pure (ui.withLine (l.key f.width.toNat e)) := by
  cases key with
  | byte b =>
    change (if b = 127 then some Edit.backspace
      else if 32 ≤ b ∧ b ≤ 126 then some (.char b) else none) = some e at he
    split at he
    · next hb =>
      obtain rfl := Option.some.inj he
      have hpress : ui.press con (.byte b) f = ui.backspace f := by simp [press, hb]
      rw [hpress]
      exact backspace_line hf htyped hvalue hcursor _
    · next hdel =>
      split at he
      · next hb =>
        obtain rfl := Option.some.inj he
        have hne : ∀ c : UInt8, c < 32 → b ≠ c := fun c hc h => by
          have hle : (32 : UInt8) ≤ c := h ▸ hb.1
          exact absurd hle (UInt8.not_le.mpr hc)
        have hpress : ui.press con (.byte b) f = ui.insertChar f b := by
          simp only [press, hne 27 (by decide), hne 9 (by decide), hne 21 (by decide),
            hne 4 (by decide), hne 10 (by decide), hdel, if_false]
        rw [hpress]
        exact insertChar_line hf htyped hvalue hcursor hb
      · cases he
  | left =>
    obtain rfl := Option.some.inj he
    exact congrArg pure (cursorLeft_line hf htyped hvalue hcursor _)
  | right =>
    obtain rfl := Option.some.inj he
    exact congrArg pure (cursorRight_line hf htyped hvalue hcursor _)
  | backspace =>
    obtain rfl := Option.some.inj he
    exact backspace_line hf htyped hvalue hcursor _
  | dc =>
    obtain rfl := Option.some.inj he
    exact deleteChar_line hf htyped hvalue hcursor _
  | f n =>
    change (if n = 5 then some Edit.clear else none) = some e at he
    split at he
    · next hn =>
      obtain rfl := Option.some.inj he
      simp only [hn, press]
      exact congrArg pure (clearField_line htyped _)
    · cases he
  | up => cases he
  | down => cases he
  | btab => cases he
  | ppage => cases he
  | npage => cases he
  | other => cases he

end Key

/-! ## One turn -/

/-- The active field `f` is edited as the line `l`. -/
structure Edits (con : Console) (ui : NCursesUI) (f : Field) (l : Line UInt8) : Prop where
  reached : ui.Reached con fun _ _ _ => True
  running : ui.running = true
  free : ui.FreeText
  field : (ui.fields ui.actSec)[ui.actField]? = some f
  value : f.value = l.text
  cursor : ui.cursorPos = l.cursor

theorem exists_edits (h : ui.Reached con fun _ _ _ => True) (hrun : ui.running = true)
    (hfree : ui.FreeText) : ∃ f l, ui.Edits con f l := by
  obtain ⟨htypable, hdrawn⟩ := h.drawn (typable_launched con) fun _ _ h hu => h.update hu
  obtain ⟨ui₁, -, hdrawn⟩ := hdrawn hrun
  obtain ⟨f, hf, rfl⟩ := drawn_eq hdrawn
  have hf' := (active_drawSection3Fields con ui₁).trans hf
  have htyped : f.typed = true := typed_of_free hfree htypable hf'
  have hcursor : 0 ≤ min ui₁.cursorPos (f.value.length : ℤ) := by
    have h0 := htypable.cursor
    rwa [if_pos htyped] at h0
  have hle : (min ui₁.cursorPos (f.value.length : ℤ)).toNat ≤ f.value.length := by omega
  refine ⟨f, .put f.value (min ui₁.cursorPos (f.value.length : ℤ)).toNat, h, hrun, hfree, hf', ?_, ?_⟩
  · exact (Line.text_put _ _).symm
  · rw [Line.cursor_put hle]
    show (if f.typed then min ui₁.cursorPos (f.value.length : ℤ) else ui₁.cursorPos) = _
    rw [if_pos htyped, Int.toNat_of_nonneg hcursor]

variable {f : Field} {l : Line UInt8} {key : Key} {e : Edit UInt8}

theorem Edits.typed (h : ui.Edits con f l) : f.typed = true :=
  typed_of_free h.free (h.reached.drawn (typable_launched con) fun _ _ h hu => h.update hu).1 h.field

theorem withLine_frame (l : Line UInt8) :
    ui.withLine l = { ui with
      sec1 := (ui.setActive l.text).sec1
      sec2 := (ui.setActive l.text).sec2
      sec3 := (ui.setActive l.text).sec3
      cursorPos := l.cursor } := by
  rw [withLine, NCursesUI.setActive, setValue_frame]

theorem shape_withLine (l : Line UInt8) :
    (ui.withLine l).shape =
      if ui.actSec = 1 ∧ ui.actField = 2 then ui.shape.setCount l.text else ui.shape :=
  shape_setValue ui ui.actSec ui.actField l.text

theorem field_withLine (hf : (ui.fields ui.actSec)[ui.actField]? = some f) (l : Line UInt8) :
    ((ui.withLine l).fields ui.actSec)[ui.actField]? = some { f with value := l.text } :=
  ui.field_setValue hf l.text

/-- The type was looked at before a free text field was entered, and the count does not change it. -/
theorem Edits.looked (h : ui.Edits con f l) (l' : Line UInt8) :
    looked con ui (ui.withLine l') =
      if ui.actSec = 1 ∧ ui.actField = 2 then (ui.withLine l').checkCountChange con
      else ui.withLine l' := by
  have hnot : ¬(ui.actSec = 1 ∧ ui.actField = 0) := by
    have hfree := h.free
    rintro ⟨hsec, hfield⟩
    rw [FreeText, hsec, hfield] at hfree
    exact absurd hfree (by decide)
  have hlast : (ui.withLine l').lastType = ui.lastType := by rw [withLine_frame]
  have htype : (ui.withLine l').getType = ui.getType := by
    show ((ui.setValue ui.actSec ui.actField l'.text).sec2 0).value = _
    rw [sec2_setValue]
    exact congrArg Entry.value (if_neg hnot)
  have hseen : (ui.withLine l').getType = (ui.withLine l').lastType := by
    rw [htype, hlast, (typeSeen_of_reached h.reached).resolve_right hnot]
  have hcount : ((ui.withLine l').checkCountChange con).getType = (ui.withLine l').getType ∧
      ((ui.withLine l').checkCountChange con).lastType = (ui.withLine l').lastType := by
    unfold checkCountChange
    dsimp only
    split <;> exact ⟨rfl, rfl⟩
  rw [NCursesUI.looked]
  split
  · exact if_neg (not_not.mpr (hcount.1.trans (hseen.trans hcount.2.symm)))
  · exact if_neg (not_not.mpr hseen)

/-- One key: the screen after it, when the look at the count leaves the field `f'`. -/
theorem Edits.turn (h : ui.Edits con f l) (he : key.edit = some e) {ui₁ : NCursesUI} {f' : Field}
    (hlooked : NCursesUI.looked con ui (ui.withLine (l.key f.width.toNat e)) = ui₁)
    (hf' : (ui₁.fields ui.actSec)[ui.actField]? = some f') (htyped : f'.typed = true)
    {l' : Line UInt8} (hvalue : f'.value = l'.text)
    (hcursor : min ui₁.cursorPos l'.text.length = l'.cursor) :
    ∃ ui', ui.turn con key = pure ui' ∧ ui'.Edits con f' l' ∧ ui'.shape = ui₁.shape := by
  have hkey : key ≠ .byte 10 := by
    rintro rfl
    have hnone : (Key.byte 10).edit = none := by decide
    rw [hnone] at he
    cases he
  have hpress : ui.press con key f = pure (ui.withLine (l.key f.width.toNat e)) :=
    press_line h.field h.typed h.value h.cursor he
  have hturn := turn_of_press h.field hkey hpress
  have hsec : (ui.withLine (l.key f.width.toNat e)).actSec = ui.actSec := by rw [withLine_frame]
  have hfield : (ui.withLine (l.key f.width.toNat e)).actField = ui.actField := by
    rw [withLine_frame]
  have hshape : ui₁.shape = (ui.withLine (l.key f.width.toNat e)).shape.look := by
    rw [← hlooked, shape_looked hsec hfield]
  have hrunning : ui₁.running = true := by
    rw [← hlooked, running_looked, withLine_frame]
    exact h.running
  have hsec₁ : ui₁.actSec = ui.actSec :=
    (congrArg Shape.actSec hshape).trans ((Shape.look_active _).1.trans hsec)
  have hfield₁ : ui₁.actField = ui.actField :=
    (congrArg Shape.actField hshape).trans ((Shape.look_active _).2.trans hfield)
  rw [← hsec₁, ← hfield₁] at hf'
  have hdraw := updateUI_eq con hf'
  have hactive := (active_drawSection3Fields con ui₁).trans hf'
  rw [hlooked, if_pos hrunning, hdraw] at hturn
  refine ⟨_, hturn, ⟨h.reached.turn_pure h.running hturn, hrunning, ?_, ?_, hvalue, ?_⟩,
    shape_drawn hdraw⟩
  · have hfree := h.free
    rw [FreeText, ← hsec₁, ← hfield₁] at hfree
    exact hfree
  · exact hactive
  · show (if f'.typed then min ui₁.cursorPos (f'.value.length : ℤ) else ui₁.cursorPos) = _
    rw [if_pos htyped, hvalue, hcursor]

/-- In every field but the Count field the screen after the key has the line that a line editor
has. -/
theorem Edits.turn_plain (h : ui.Edits con f l) (he : key.edit = some e)
    (hat : ¬(ui.actSec = 1 ∧ ui.actField = 2)) :
    ∃ ui' f', ui.turn con key = pure ui' ∧ ui'.actSec = ui.actSec ∧ ui'.actField = ui.actField ∧
      f'.width = f.width ∧ ui'.Edits con f' (l.key f.width.toNat e) := by
  have hlooked := h.looked (l.key f.width.toNat e)
  rw [if_neg hat] at hlooked
  have hcursor : (ui.withLine (l.key f.width.toNat e)).cursorPos = (l.key f.width.toNat e).cursor := rfl
  have hle := (l.key f.width.toNat e).cursor_le
  obtain ⟨ui', hturn, hedits, hshape⟩ := h.turn he hlooked (field_withLine h.field _) h.typed rfl
    (by rw [hcursor]; omega)
  rw [shape_withLine, if_neg hat] at hshape
  exact ⟨ui', { f with value := (l.key f.width.toNat e).text }, hturn, congrArg Shape.actSec hshape,
    congrArg Shape.actField hshape, rfl, hedits⟩

/-! ## Several keys -/

/-- A key as a change of whatever the editing keys change. -/
def typeKey {σ : Type} (change : σ → Edit UInt8 → σ) (s : σ) (key : Key) : σ :=
  key.edit.elim s (change s)

theorem typeKey_of_edit {σ : Type} (change : σ → Edit UInt8 → σ) (s : σ) (he : key.edit = some e) :
    typeKey change s key = change s e := by
  rw [typeKey, he]
  rfl

theorem Edits.turns_plain (h : ui.Edits con f l) (hat : ¬(ui.actSec = 1 ∧ ui.actField = 2))
    {keys : List Key} (hkeys : ∀ key ∈ keys, key.edit ≠ none) :
    ∃ ui' f', ui.turns con keys = pure ui' ∧ ui'.actSec = ui.actSec ∧ ui'.actField = ui.actField ∧
      f'.width = f.width ∧ ui'.Edits con f' (keys.foldl (typeKey (Line.key f.width.toNat)) l) := by
  induction keys using List.reverseRecOn with
  | nil => exact ⟨ui, f, rfl, rfl, rfl, rfl, h⟩
  | append_singleton keys key ih =>
    obtain ⟨ui₁, f₁, hturns, hsec, hfield, hwidth, h₁⟩ :=
      ih fun key hk => hkeys key (List.mem_append_left _ hk)
    obtain ⟨e, he⟩ := Option.ne_none_iff_exists'.mp
      (hkeys key (List.mem_append_right _ List.mem_cons_self))
    rw [← hsec, ← hfield] at hat
    obtain ⟨ui', f', hturn, hsec', hfield', hwidth', h'⟩ := h₁.turn_plain he hat
    refine ⟨ui', f', ?_, hsec'.trans hsec, hfield'.trans hfield, hwidth'.trans hwidth, ?_⟩
    · rw [turns_concat, hturns, ret_bind, hturn]
    · rw [List.foldl_concat, typeKey_of_edit _ _ he]
      rw [hwidth] at h'
      exact h'

end NCursesUI

end Plctagt.Gui
