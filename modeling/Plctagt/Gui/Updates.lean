import Plctagt.Gui.Turn

/-! # The single changes a turn is made of

`Update` lists what the code of a turn does to the screen, one assignment or function at a time.
Every turn that ends well is a chain of these and, while the session goes on, a redraw
(`updates_turn`). What each of them keeps is kept through every session (`Updates.keeps`).
-/
namespace Plctagt.Gui
open Effects Decimal Tag
set_option autoImplicit false

namespace NCursesUI

inductive Update (con : Console) (ui : NCursesUI) : NCursesUI → Prop
  | quit : Update con ui { ui with running := false }
  | stored (h : ui.getTagname ≠ []) : Update con ui (ui.stored ui.getTagname)
  | focus (saved : Fin 3 → ℕ) (s : Fin 3) (i : ℕ) (f : Field) (hf : (ui.fields s)[i]? = some f) :
      Update con ui
        { ui with lastActive := saved, actSec := s, actField := i, cursorPos := f.value.length }
  | cursor (p : ℤ) (hp : 0 ≤ p ∨ ui.cursorPos ≤ p) : Update con ui { ui with cursorPos := p }
  /-- The active field gets some of its own bytes and of the printable ones. -/
  | typed (f : Field) (hf : (ui.fields ui.actSec)[ui.actField]? = some f) (v : Text)
      (hv : ∀ b ∈ v, b ∈ f.value ∨ 32 ≤ b ∧ b ≤ 126) : Update con ui (ui.setActive v)
  | chosen (f : Field) (hf : (ui.fields ui.actSec)[ui.actField]? = some f) (v : Text)
      (hv : v ∈ f.options) : Update con ui (ui.setActive v)
  | forgotten (f : Field) (hf : (ui.fields ui.actSec)[ui.actField]? = some f)
      (h : f.label = text "Tagname:") : Update con ui (ui.clearOptions ui.actSec ui.actField)
  | cleared : Update con ui ui.clearSection3Fields
  | filled (values : List Text) : Update con ui (ui.updateSection3FromVector con values)
  | stringType : Update con ui (ui.setStringType con)
  | widths : Update con ui (ui.updateSection3Widths con)
  | counted (n : ℤ) : Update con ui { ui with lastCount := n }
  | compared (v : Text) : Update con ui { ui with lastType := v }
  | fleshed (n : ℤ) : Update con ui { ui with tobefleshed := n }
  | pagedUp : Update con ui (ui.pageUpSection3 con)
  | pagedDown : Update con ui (ui.pageDownSection3 con)
  | drawn (ui' : NCursesUI) (h : ui.updateUI con = pure ui') : Update con ui ui'

def Updates (con : Console) : NCursesUI → NCursesUI → Prop := Relation.ReflTransGen (Update con)

variable {con : Console} {ui ui₁ ui' : NCursesUI}

theorem Updates.refl (ui : NCursesUI) : Updates con ui ui := Relation.ReflTransGen.refl

theorem Update.updates (h : Update con ui ui') : Updates con ui ui' := Relation.ReflTransGen.single h

theorem Updates.tail (h : Updates con ui ui₁) (h' : Update con ui₁ ui') : Updates con ui ui' :=
  Relation.ReflTransGen.tail h h'

theorem Updates.trans (h : Updates con ui ui₁) (h' : Updates con ui₁ ui') : Updates con ui ui' :=
  Relation.ReflTransGen.trans h h'

theorem Updates.keeps {I : NCursesUI → Prop} (hI : ∀ ui ui', I ui → Update con ui ui' → I ui')
    (h : Updates con ui ui') (hui : I ui) : I ui' := by
  induction h with
  | refl => exact hui
  | tail _ hstep ih => exact hI _ _ ih hstep

/-! ## The parts of a turn -/

/-- All runs that end well end in such a state; nothing is said of the faults. -/
def Ends {α : Type} (p : Program α) (T : α → Prop) : Prop := Yields p T fun _ => True

theorem ends_true {α : Type} (p : Program α) : Ends p fun _ => True := by
  intro tr o _
  cases o with
  | ok a => trivial
  | error e => trivial

theorem Ends.of_yields {α : Type} {p : Program α} {T T' : α → Prop} {E : Fault → Prop}
    (h : Yields p T E) (hT : ∀ a, T a → T' a) : Ends p T' :=
  h.weaken hT fun _ _ => trivial

theorem ends_pure (h : Updates con ui ui') : Ends (pure ui') (Updates con ui) :=
  (yields_pure ui').mpr h

/-- The redraw leaves the active field as it is. -/
theorem active_drawSection3Fields (con : Console) (ui : NCursesUI) :
    ((ui.drawSection3Fields con).fields ui.actSec)[ui.actField]? =
      (ui.fields ui.actSec)[ui.actField]? := by
  by_cases hsec : ui.actSec = 2
  · have hcell : ui.drawCell con ui.actField = id :=
      funext fun c => if_neg fun h => h.2.2 ⟨hsec, rfl⟩
    rw [hsec]
    show ((ui.sec3.mapIdx (ui.drawCell con)).map Cell.field)[ui.actField]? =
      (ui.sec3.map Cell.field)[ui.actField]?
    rw [List.getElem?_map, List.getElem?_map, List.getElem?_mapIdx, hcell, Option.map_id]
    rfl
  · have hfields : (ui.drawSection3Fields con).fields ui.actSec = ui.fields ui.actSec := by
      match hs : ui.actSec with
      | 0 => rfl
      | 1 => rfl
      | 2 => exact absurd hs hsec
    rw [hfields]

theorem updateUI_eq (con : Console) {f : Field} (hf : (ui.fields ui.actSec)[ui.actField]? = some f) :
    ui.updateUI con = pure { ui.drawSection3Fields con with
      cursorPos := if f.typed then min ui.cursorPos f.value.length else ui.cursorPos } := by
  have hactive : (ui.drawSection3Fields con).activeField = pure f :=
    activeField_eq _ _ ((active_drawSection3Fields con ui).trans hf)
  rw [updateUI, setCursor, hactive, ret_bind]
  by_cases htyped : f.typed = true
  · rw [if_pos htyped, if_pos htyped]
    rfl
  · rw [if_neg htyped, if_neg htyped]
    rfl

/-- A redraw that ends well calls nothing, and has an active field. -/
theorem updateUI_of_runs {tr : Trace} (h : Runs (ui.updateUI con) tr (.ok ui')) :
    tr = [] ∧ ui.updateUI con = pure ui' ∧ ∃ f, (ui.fields ui.actSec)[ui.actField]? = some f := by
  cases hf : (ui.fields ui.actSec)[ui.actField]? with
  | none =>
    have hle := List.getElem?_eq_none_iff.mp hf
    rw [length_fields, ← size_shape] at hle
    have hlt := (yields_updateUI con ui tr _ h).2
    exact absurd hlt (not_lt.mpr hle)
  | some f =>
    rw [updateUI_eq con hf] at h ⊢
    obtain ⟨rfl, h⟩ := h
    rw [Except.ok.inj h]
    exact ⟨rfl, rfl, f, rfl⟩

theorem drawn_eq (h : ui.updateUI con = pure ui') :
    ∃ f, (ui.fields ui.actSec)[ui.actField]? = some f ∧
      ui' = { ui.drawSection3Fields con with
        cursorPos := if f.typed then min ui.cursorPos f.value.length else ui.cursorPos } := by
  have hrun : Runs (ui.updateUI con) [] (.ok ui') := h ▸ ⟨rfl, rfl⟩
  obtain ⟨-, -, f, hf⟩ := updateUI_of_runs hrun
  rw [updateUI_eq con hf] at hrun
  exact ⟨f, hf, Except.ok.inj hrun.2⟩

theorem shape_drawn (h : ui.updateUI con = pure ui') : ui'.shape = ui.shape := by
  obtain ⟨f, -, rfl⟩ := drawn_eq h
  exact shape_drawSection3Fields con ui

theorem ends_updateUI (h : Updates con ui ui₁) : Ends (ui₁.updateUI con) (Updates con ui) := by
  intro tr o hrun
  cases o with
  | ok ui' => exact h.tail (.drawn ui' (updateUI_of_runs hrun).2.1)
  | error e => trivial

theorem Left.updates (h : ui.Left ui') : Updates con ui ui' := by
  rcases h with rfl | ⟨hv, rfl⟩
  · exact .refl ui'
  · exact Update.updates (.stored hv)

theorem Filled.updates (h : ui.Filled con ui') : Updates con ui ui' := by
  rcases h with rfl | ⟨values, rfl⟩
  · exact .refl ui'
  · exact Update.updates (.filled values)

theorem ends_moveField (next : ℕ → ℕ → ℕ) (hnext : ∀ size i, 0 < size → next size i < size) :
    Ends (ui.moveField next) (Updates con ui) := by
  refine .of_yields (ui.yields_moveField next hnext) ?_
  rintro ui' ⟨ui₁, i, f, h₁, hf, rfl⟩
  exact h₁.updates.tail (.focus ui₁.lastActive ui₁.actSec i f hf)

theorem ends_moveSection (next : Fin 3 → Fin 3) : Ends (ui.moveSection next) (Updates con ui) := by
  refine .of_yields (ui.yields_moveSection next) ?_
  rintro ui' ⟨ui₁, f, h₁, hf, rfl⟩
  exact h₁.updates.tail (.focus _ (next ui.actSec) _ f hf)

theorem ends_handleEnterKey (f : Field) : Ends (ui.handleEnterKey con f) (Updates con ui) := by
  refine .of_yields (ui.yields_handleEnterKey con f) ?_
  rintro ui' (rfl | ⟨-, h⟩)
  · exact .refl ui'
  · exact h.updates

/-! ## The menu -/

theorem ends_displayTags : Ends (ui.displayTags con) (Updates con ui) := by
  refine (ends_true _).bind fun tagentries _ => (yields_pure _).mpr ?_
  exact Update.stringType.updates.tail (.filled _)

theorem ends_profileTags (types : Text) : Ends (ui.profileTags con types) (Updates con ui) := by
  refine (ends_true _).bind fun entries _ => ?_
  split
  · exact (yields_stop _).mpr trivial
  · next tagentries fleshed _ =>
    refine (ends_true _).bind fun r _ => ?_
    have hfleshed : Updates con ui { ui with tobefleshed := ui.tobefleshed + fleshed } :=
      Update.updates (.fleshed _)
    have hfill := (hfleshed.tail .stringType).tail (.filled r.1)
    refine (ends_updateUI hfill).bind fun ui' h => ?_
    exact Ends.of_yields (yields_readAndDestroy con ui' types r.2) fun ui'' heq => heq ▸ h

theorem ends_menu : Ends (ui.menu con) (Updates con ui) := by
  have hsame : ∀ message, Ends (popupMessage message >>= fun _ => pure ui) (Updates con ui) :=
    fun message => (ends_true _).bind fun _ _ => ends_pure (.refl ui)
  refine (ends_true _).bind fun r _ => ?_
  split
  · exact ends_displayTags
  · refine (ends_true _).bind fun r _ => ?_
    split
    · exact ends_profileTags _
    · exact hsame _
  · exact hsame _

/-! ## The editing keys -/

section Editing
variable {f : Field} (hf : (ui.fields ui.actSec)[ui.actField]? = some f)
include hf

/-- The active field gets some of its own bytes, and the cursor is put somewhere. -/
theorem updates_edit {v : Text} (hv : ∀ b ∈ v, b ∈ f.value ∨ 32 ≤ b ∧ b ≤ 126) {p : ℤ}
    (hp : 0 ≤ p) : Updates con ui { ui.setActive v with cursorPos := p } :=
  (Update.updates (.typed f hf v hv)).tail (.cursor p (.inl hp))

theorem ends_backspace : Ends (ui.backspace f) (Updates con ui) := by
  unfold backspace
  split
  · next h =>
    split
    · refine ends_pure (updates_edit hf (fun b hb => .inl ?_) (by omega))
      exact List.mem_of_mem_eraseIdx hb
    · exact (yields_stop _).mpr trivial
  · exact ends_pure (.refl ui)

theorem ends_deleteChar : Ends (ui.deleteChar f) (Updates con ui) := by
  unfold deleteChar
  split
  · split
    · refine ends_pure (Update.updates (.typed f hf _ fun b hb => .inl ?_))
      exact List.mem_of_mem_eraseIdx hb
    · exact (yields_stop _).mpr trivial
  · exact ends_pure (.refl ui)

theorem ends_insertChar (b : UInt8) : Ends (ui.insertChar f b) (Updates con ui) := by
  unfold insertChar
  split
  · next h =>
    split
    · refine ends_pure (updates_edit hf (fun c hc => ?_) (by omega))
      rcases List.eq_or_mem_of_mem_insertIdx hc with rfl | hc
      · exact .inr ⟨h.2.1, h.2.2.1⟩
      · exact .inl hc
    · exact (yields_stop _).mpr trivial
  · exact ends_pure (.refl ui)

theorem updates_clearField : Updates con ui (ui.clearField f) := by
  unfold clearField
  split
  · exact updates_edit hf (fun b hb => absurd hb List.not_mem_nil) (le_refl 0)
  · exact .refl ui

end Editing

theorem updates_cursorLeft (f : Field) : Updates con ui (ui.cursorLeft f) := by
  unfold cursorLeft
  split
  · next h => exact Update.updates (.cursor _ (.inl (by omega)))
  · exact .refl ui

theorem updates_cursorRight (f : Field) : Updates con ui (ui.cursorRight f) := by
  unfold cursorRight
  split
  · exact Update.updates (.cursor _ (.inr (by omega)))
  · exact .refl ui

/-! ## The turn -/

theorem ends_press (key : Key) {f : Field} (hf : (ui.fields ui.actSec)[ui.actField]? = some f) :
    Ends (ui.press con key f) (Updates con ui) := by
  have hup : ∀ size i, 0 < size → (i + size - 1) % size < size := fun _ _ h => Nat.mod_lt _ h
  have hdown : ∀ size i, 0 < size → (i + 1) % size < size := fun _ _ h => Nat.mod_lt _ h
  match key with
  | .byte b =>
    simp only [press]
    split
    · exact ends_pure (Update.updates .quit)
    split
    · exact ends_moveField _ hdown
    split
    · exact ends_moveSection _
    split
    · exact ends_moveSection _
    split
    · exact ends_backspace hf
    split
    · exact ends_handleEnterKey f
    · exact ends_insertChar hf b
  | .up => exact ends_moveField _ hup
  | .btab => exact ends_moveField _ hup
  | .down => exact ends_moveField _ hdown
  | .ppage => exact ends_pure (Update.updates .pagedUp)
  | .npage => exact ends_pure (Update.updates .pagedDown)
  | .backspace => exact ends_backspace hf
  | .dc => exact ends_deleteChar hf
  | .left => exact ends_pure (updates_cursorLeft f)
  | .right => exact ends_pure (updates_cursorRight f)
  | .other => exact ends_pure (.refl ui)
  | .f 1 => exact (ends_true _).bind fun _ _ => ends_pure (.refl ui)
  | .f 2 => exact ends_menu
  | .f 4 =>
    simp only [press]
    split
    · next h => exact ends_pure (Update.updates (.forgotten f hf h))
    · exact ends_pure (.refl ui)
  | .f 5 => exact ends_pure (updates_clearField hf)
  | .f 6 => exact ends_pure (Update.updates .cleared)
  | .f 0 => exact ends_pure (.refl ui)
  | .f 3 => exact ends_pure (.refl ui)
  | .f (n + 7) => exact ends_pure (.refl ui)

theorem updates_checkCountChange : Updates con ui (ui.checkCountChange con) := by
  unfold checkCountChange
  dsimp only
  split
  · exact (Update.updates (.counted _)).tail (.filled _)
  · exact .refl ui

theorem updates_checkTypeChange : Updates con ui (ui.checkTypeChange con) := by
  unfold checkTypeChange
  split
  · exact (Update.updates (.compared _)).tail .widths
  · exact .refl ui

theorem ends_answer (key : Key) : Ends (ui.answer con key) (Updates con ui) := by
  intro tr o h
  cases hf : (ui.fields ui.actSec)[ui.actField]? with
  | none =>
    rw [answer, activeField, hf] at h
    obtain ⟨-, rfl⟩ := h
    trivial
  | some f =>
    rw [answer, activeField_eq _ _ hf, ret_bind] at h
    revert h
    revert tr o
    split
    · refine yields_perform_bind fun r => ?_
      cases r with
      | none => exact ends_pure (.refl ui)
      | some i => exact ends_pure (Update.updates (.chosen f hf _ (f.options.get_mem i)))
    · refine (ends_press key hf).bind fun ui₁ h₁ => (yields_pure _).mpr ?_
      have hcount : Updates con ui₁ (if ui.actSec = 1 ∧ ui.actField = 2 then
          ui₁.checkCountChange con else ui₁) := by
        split
        · exact updates_checkCountChange
        · exact .refl ui₁
      exact (h₁.trans hcount).trans updates_checkTypeChange

/-- A turn that ends well: its changes, and the redraw unless the session is over. -/
theorem updates_turn {key : Key} {tr : Trace} (h : Runs (ui.turn con key) tr (.ok ui')) :
    ∃ ui₁, Updates con ui ui₁ ∧
      (ui₁.running = true ∧ ui₁.updateUI con = pure ui' ∨ ui₁.running = false ∧ ui' = ui₁) := by
  rcases (runs_bind _ _ _ _).mp h with ⟨tr₁, tr₂, ui₁, rfl, h₁, h₂⟩ | ⟨e, he, -⟩
  · refine ⟨ui₁, ends_answer key tr₁ _ h₁, ?_⟩
    split at h₂
    · next hrun => exact .inl ⟨hrun, (updateUI_of_runs h₂).2.1⟩
    · next hrun =>
      obtain ⟨-, ho⟩ := h₂
      exact .inr ⟨Bool.eq_false_iff.mpr hrun, Except.ok.inj ho⟩
  · cases he

/-! ## Sessions -/

/-- The screen before its first redraw. -/
def launched (con : Console) (state history : List Text) : NCursesUI :=
  ((initial state).updateSection3FromCount con).loadTagHistory history

/-- What the screens before the first redraw have, and every change keeps, all screens of a session
have; while it goes on, also the screen that was drawn last. -/
theorem drawn_of_reached {starts : NCursesUI → Prop} {allowed : NCursesUI → Key → Trace → Prop}
    {I : NCursesUI → Prop}
    (hstart : ∀ ui, starts ui → ∃ state history tr, I (launched con state history) ∧
      Runs (start con state history) tr (.ok ui))
    (hI : ∀ ui ui', I ui → Update con ui ui' → I ui')
    (h : Effects.Reached starts (turn con) allowed ui) :
    I ui ∧ (ui.running = true → ∃ ui₁, I ui₁ ∧ ui₁.updateUI con = pure ui) := by
  induction h with
  | start ui hs =>
    obtain ⟨state, history, tr, hlaunched, hrun⟩ := hstart ui hs
    have hdrawn := (updateUI_of_runs hrun).2.1
    exact ⟨hI _ _ hlaunched (.drawn ui hdrawn), fun _ => ⟨_, hlaunched, hdrawn⟩⟩
  | turn ui ui' key tr _ _ hr ih =>
    obtain ⟨ui₁, hupdates, ⟨-, hdrawn⟩ | ⟨hstop, rfl⟩⟩ := updates_turn hr
    · have h₁ := hupdates.keeps hI ih.1
      exact ⟨hI _ _ h₁ (.drawn ui' hdrawn), fun _ => ⟨ui₁, h₁, hdrawn⟩⟩
    · refine ⟨hupdates.keeps hI ih.1, fun hrun => ?_⟩
      rw [hstop] at hrun
      cases hrun

/-- The same for the sessions of any two files. -/
theorem Reached.drawn {P : NCursesUI → Key → Trace → Prop} {I : NCursesUI → Prop}
    (hstart : ∀ state history, I (launched con state history))
    (hI : ∀ ui ui', I ui → Update con ui ui' → I ui') (h : ui.Reached con P) :
    I ui ∧ (ui.running = true → ∃ ui₁, I ui₁ ∧ ui₁.updateUI con = pure ui) := by
  refine drawn_of_reached (fun ui hs => ?_) hI h
  obtain ⟨state, history, tr, hrun⟩ := hs
  exact ⟨state, history, tr, hstart state history, hrun⟩

end NCursesUI

end Plctagt.Gui
