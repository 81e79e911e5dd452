import Plctagt.Gui.Actions

/-! # Keys, and the loop that answers them

`NCursesUI::run`. A turn goes from one `getch` to the next: what the key does, what the loop looks at
afterwards, and the redraw at the top of the next round. A session begins with the constructor and
the first redraw (`start`); `Reached` are the states in which a key is waited for.
-/
namespace Plctagt.Gui
open Effects Decimal Tag
set_option autoImplicit false

/-- What `getch` returns: a byte, a function key, or another code. -/
inductive Key
  | byte (b : UInt8)
  | up | down | left | right | btab | ppage | npage | backspace | dc
  | f (n : ℕ)
  | other
  deriving DecidableEq

namespace NCursesUI
variable (con : Console)

/-! ## Moving -/

def tagHistoryMax : ℕ := 10

/-- `storeCurrentTag`; `removeDuplicatesPreserveOrder` keeps the first of equal strings. -/
def storeCurrentTag (ui : NCursesUI) : Program NCursesUI :=
  let tagField := ui.sec2 1
  if tagField.value = [] then pure ui
  else do
    let options := ((tagField.value :: tagField.options).take tagHistoryMax).eraseDups
    let _ ← perform (.saveTagHistory options)
    pure { ui with sec2 := Function.update ui.sec2 1 { tagField with options := options } }

def storeTagOnLeave (ui : NCursesUI) : Program NCursesUI :=
  if ui.actSec = 1 ∧ ui.actField = 1 then ui.storeCurrentTag else pure ui

/-- The `do` loop of `moveFieldUp` and `moveFieldDown`, `n` fields that have not been tried left:
with none left it goes round forever. -/
def seekField (fields : List Field) (next : ℕ → ℕ) : ℕ → ℕ → Program ℕ
  | 0, _ => .stop .endless
  | n + 1, actField =>
    match fields[next actField]? with
    | none => .stop .fieldIndex
    | some f =>
      if f.editable = false ∧ f.label = [] then seekField fields next n (next actField)
      else pure (next actField)

/-- `moveFieldUp` and `moveFieldDown`, by the way they step. -/
def moveField (next : (size actField : ℕ) → ℕ) (ui : NCursesUI) : Program NCursesUI := do
  let ui ← ui.storeTagOnLeave
  let fields := ui.fields ui.actSec
  if fields.length = 0 then .stop .moduloZero
  else do
    let actField ← seekField fields (next fields.length) fields.length ui.actField
    let ui := { ui with actField := actField }
    let f ← ui.activeField
    pure { ui with cursorPos := f.value.length }

def moveFieldUp : NCursesUI → Program NCursesUI :=
  moveField fun size actField => (actField + size - 1) % size

def moveFieldDown : NCursesUI → Program NCursesUI :=
  moveField fun size actField => (actField + 1) % size

/-- The active field is saved with its section; the one saved with the section `t` becomes active. -/
def enterSection (t : Fin 3) (ui : NCursesUI) : NCursesUI :=
  let lastActive := Function.update ui.lastActive ui.actSec ui.actField
  { ui with lastActive := lastActive, actSec := t, actField := lastActive t }

/-- `moveSectionPrev` and `moveSectionNext`, by the section they go to. -/
def moveSection (next : Fin 3 → Fin 3) (ui : NCursesUI) : Program NCursesUI := do
  let ui ← ui.storeTagOnLeave
  let ui := ui.enterSection (next ui.actSec)
  let f ← ui.activeField
  pure { ui with cursorPos := f.value.length }

def moveSectionPrev : NCursesUI → Program NCursesUI := moveSection fun s => s - 1
def moveSectionNext : NCursesUI → Program NCursesUI := moveSection fun s => s + 1

/-! ## Editing the active field -/

/-- `f.value = v`, on the active field. -/
def setActive (v : Text) (ui : NCursesUI) : NCursesUI := ui.setValue ui.actSec ui.actField v

def backspace (f : Field) (ui : NCursesUI) : Program NCursesUI :=
  if f.typed ∧ 0 < ui.cursorPos then
    if ui.cursorPos - 1 ≤ f.value.length then
      pure { ui.setActive (f.value.eraseIdx (ui.cursorPos - 1).toNat) with
        cursorPos := ui.cursorPos - 1 }
    else .stop .stringPosition
  else pure ui

def deleteChar (f : Field) (ui : NCursesUI) : Program NCursesUI :=
  if f.typed ∧ ui.cursorPos < f.value.length then
    if 0 ≤ ui.cursorPos then pure (ui.setActive (f.value.eraseIdx ui.cursorPos.toNat))
    else .stop .stringPosition
  else pure ui

def insertChar (f : Field) (b : UInt8) (ui : NCursesUI) : Program NCursesUI :=
  if f.typed ∧ 32 ≤ b ∧ b ≤ 126 ∧ f.value.length < f.width then
    if 0 ≤ ui.cursorPos ∧ ui.cursorPos ≤ f.value.length then
      pure { ui.setActive (f.value.insertIdx ui.cursorPos.toNat b) with
        cursorPos := ui.cursorPos + 1 }
    else .stop .stringPosition
  else pure ui

def clearField (f : Field) (ui : NCursesUI) : NCursesUI :=
  if f.editable then { ui.setActive [] with cursorPos := 0 } else ui

def cursorLeft (f : Field) (ui : NCursesUI) : NCursesUI :=
  if f.typed ∧ 0 < ui.cursorPos then { ui with cursorPos := ui.cursorPos - 1 } else ui

def cursorRight (f : Field) (ui : NCursesUI) : NCursesUI :=
  if f.typed ∧ ui.cursorPos < f.value.length then { ui with cursorPos := ui.cursorPos + 1 } else ui

/-! ## The menu -/

def helpText : Text :=
  text "Prev Section: CTRL-u\nNext Section: CTRL-n\nPrev Field: SHIFT-TAB, LEFT\n" ++
    text "Next Field: TAB, RIGHT\nPrev Page Section 3: PGUP\nNext Page Section 3: PGDN\n" ++
    text "Clear Current Field: F5\nClear All Section 3 Fields: F6\nAdditional Options: F1\n" ++
    text "Quit: ESC\n"

/-- `profileTags(..)` for each line of the second menu. -/
def profileTypes : List Text :=
  [[], text "BIT", text "SINT", text "INT", text "DINT", text "LINT", text "REAL",
    text "STRING_LGX"]

/-- A popup menu: the line chosen. -/
def popupSelect (options : List Text) (title : Text) : Program (Option ℕ) := do
  let r ← perform (Call.popupSelect options title)
  pure (r.map Fin.val)

def menu (ui : NCursesUI) : Program NCursesUI := do
  let r ← popupSelect [text "LIST TAGS", text "TIME PROFILES"] []
  match r with
  | some 0 => ui.displayTags con
  | some 1 => do
    let r ← popupSelect [text "TEST ALL", text "BIT", text "SINT", text "INT", text "DINT",
      text "LINT", text "REAL", text "STRING"] (text "Stress Tests")
    match r.bind fun i => profileTypes[i]? with
    | some types => ui.profileTags con types
    | none => do
      popupMessage (text "not yet implemented")
      pure ui
  | _ => do
    popupMessage (text "code test here...")
    pure ui

/-- `popupSelectOptions` on the active field: the option chosen becomes its value. -/
def popupSelectOptions (f : Field) (ui : NCursesUI) : Program NCursesUI := do
  let r ← perform (Call.popupSelectOptions f.label f.value f.options)
  match r with
  | some i => pure (ui.setActive (f.options.get i))
  | none => pure ui

/-! ## One turn -/

/-- The `switch` of `run`, with the active field `f`. -/
def press (key : Key) (f : Field) (ui : NCursesUI) : Program NCursesUI :=
  match key with
  | .byte b =>
    if b = 27 then pure { ui with running := false }
    else if b = 9 then ui.moveFieldDown
    else if b = 21 then ui.moveSectionPrev
    else if b = 4 then ui.moveSectionNext
    else if b = 127 then ui.backspace f
    else if b = 10 then ui.handleEnterKey con f
    else ui.insertChar f b
  | .up => ui.moveFieldUp
  | .btab => ui.moveFieldUp
  | .down => ui.moveFieldDown
  | .ppage => pure (ui.pageUpSection3 con)
  | .npage => pure (ui.pageDownSection3 con)
  | .f 1 => do
    popupMessage helpText
    pure ui
  | .f 2 => ui.menu con
  | .f 4 => pure (if f.label = text "Tagname:" then ui.clearOptions ui.actSec ui.actField else ui)
  | .f 5 => pure (ui.clearField f)
  | .f 6 => pure ui.clearSection3Fields
  | .left => pure (ui.cursorLeft f)
  | .right => pure (ui.cursorRight f)
  | .backspace => ui.backspace f
  | .dc => ui.deleteChar f
  | .f _ => pure ui
  | .other => pure ui

/-- `if(current_type != last_type)`. -/
def checkTypeChange (ui : NCursesUI) : NCursesUI :=
  if ui.getType ≠ ui.lastType then { ui with lastType := ui.getType }.updateSection3Widths con
  else ui

/-- The body of the loop, from `getch` on. -/
def answer (key : Key) (ui : NCursesUI) : Program NCursesUI := do
  let f ← ui.activeField
  if f.options ≠ [] ∧ key = .byte 10 then ui.popupSelectOptions f
  else do
    let atCount := ui.actSec = 1 ∧ ui.actField = 2
    let ui ← ui.press con key f
    let ui := if atCount then ui.checkCountChange con else ui
    pure (ui.checkTypeChange con)

def turn (key : Key) (ui : NCursesUI) : Program NCursesUI := do
  let ui ← ui.answer con key
  if ui.running then ui.updateUI con else pure ui

/-! ## Sessions -/

/-- One line of the state file, applied to one field. -/
def loadLine (line : Text) (form : Form) (e : Entry) : Entry :=
  if (61 : UInt8) ∈ line ∧ form.editable = true ∧ form.label = line.takeWhile (· ≠ 61) then
    { e with value := (line.dropWhile (· ≠ 61)).tail }
  else e

/-- The entries of a section after `loadState`. -/
def loadState {n : ℕ} (state : List Text) (table : Fin n → Field) (i : Fin n) : Entry :=
  state.foldl (fun e line => loadLine line (table i).toForm e) (table i).toEntry

/-- What `gui()` hands to the constructor, with what the constructor and `run` begin with. -/
def initial (state : List Text) : NCursesUI where
  sec1 := loadState state sec1Table
  sec2 := loadState state sec2Table
  sec3 := []
  lastActive := fun _ => 0
  actSec := 0
  actField := 0
  cursorPos := (loadState state sec1Table 0).value.length
  scroll := 0
  lastCount := -1
  lastType := (loadState state sec2Table 0).value
  tobefleshed := 0
  running := true

def loadTagHistory (history : List Text) (ui : NCursesUI) : NCursesUI :=
  let tagField := ui.sec2 1
  { ui with
    sec2 := Function.update ui.sec2 1
      { tagField with options := tagField.options ++ history.take tagHistoryMax } }

/-- From the constructor to the first `getch`, with the lines of the two files. -/
def start (state history : List Text) : Program NCursesUI :=
  (((initial state).updateSection3FromCount con).loadTagHistory history).updateUI con

/-- The states in which a key is waited for, or the session is over, when all turns satisfy `P`: a
condition on the state before, the key, and the calls of the turn with their replies. -/
def Reached (P : NCursesUI → Key → Trace → Prop) : NCursesUI → Prop :=
  Effects.Reached (fun ui => ∃ state history tr, Runs (start con state history) tr (.ok ui))
    (turn con) (fun ui key tr => ui.running = true ∧ P ui key tr)

/-- A tag of one DINT. -/
def dintTag (name : Text) : TagEntry := ⟨[], name, [], 0, 0xC4, 4, 1, 0, fun _ => 0⟩

/-- The keys, one after another, against a world, as long as each turn passes the check. -/
def play (check : NCursesUI → Key → Trace → Bool) :
    List Key → NCursesUI × World → Option (NCursesUI × World)
  | [], s => some s
  | key :: keys, (ui, w) =>
    if ui.running = true ∧ check ui key (trace World.serve (ui.turn con key) w) = true then
      match eval World.serve (ui.turn con key) w with
      | (.ok ui', w') => play check keys (ui', w')
      | (.error _, _) => none
    else none

theorem reached_play {starts : NCursesUI → Prop} {allowed : NCursesUI → Key → Trace → Prop}
    {check : NCursesUI → Key → Trace → Bool} {ui : NCursesUI} {w : World} {keys : List Key}
    {s : NCursesUI × World} (h : play con check keys (ui, w) = some s)
    (hallowed : ∀ ui key tr, ui.running = true → check ui key tr = true → allowed ui key tr)
    (hui : Effects.Reached starts (turn con) allowed ui) :
    Effects.Reached starts (turn con) allowed s.1 := by
  induction keys generalizing ui w with
  | nil =>
    obtain rfl := Option.some.inj h
    exact hui
  | cons key keys ih =>
    rw [play] at h
    split at h
    · next hgo =>
      have htr := runs_trace World.serve (ui.turn con key) w
      split at h
      · next ui' w' heval =>
        rw [heval] at htr
        exact ih h (.turn ui ui' key _ hui (hallowed ui key _ hgo.1 hgo.2) htr)
      · cases h
    · cases h

/-- A session whose turns all pass the check. -/
def checkedSession (check : NCursesUI → Key → Trace → Bool) (state history : List Text) (w : World)
    (keys : List Key) : Option (NCursesUI × World) :=
  match eval World.serve (start con state history) w with
  | (.ok ui, w) => play con check keys (ui, w)
  | (.error _, _) => none

def session (state history : List Text) (w : World) (keys : List Key) :
    Option (NCursesUI × World) :=
  checkedSession con (fun _ _ _ => true) state history w keys

theorem exists_start {check : NCursesUI → Key → Trace → Bool} {state history : List Text} {w : World}
    {keys : List Key} {s : NCursesUI × World}
    (h : checkedSession con check state history w keys = some s) :
    ∃ ui tr w', Runs (start con state history) tr (.ok ui) ∧
      play con check keys (ui, w') = some s := by
  obtain ⟨tr, htr⟩ := runs_eval World.serve (start con state history) w
  rw [checkedSession] at h
  split at h
  · next ui w' heval =>
    rw [heval] at htr
    exact ⟨ui, tr, w', htr, h⟩
  · cases h

theorem reached_session {P : NCursesUI → Key → Trace → Prop}
    {check : NCursesUI → Key → Trace → Bool} {state history : List Text} {w : World}
    {keys : List Key} {s : NCursesUI × World}
    (h : checkedSession con check state history w keys = some s)
    (hP : ∀ ui key tr, check ui key tr = true → P ui key tr) : s.1.Reached con P := by
  obtain ⟨ui, tr, w', hstart, hplay⟩ := exists_start con h
  exact reached_play con hplay (fun ui key tr hrun hc => ⟨hrun, hP ui key tr hc⟩)
    (.start ui ⟨state, history, tr, hstart⟩)

def faultAt (key : Key) (s : NCursesUI × World) : Option Fault :=
  match (eval World.serve (s.1.turn con key) s.2).1 with
  | .ok _ => none
  | .error e => some e

theorem runs_faultAt {key : Key} {s : NCursesUI × World} {e : Fault}
    (h : faultAt con key s = some e) : ∃ tr, Runs (s.1.turn con key) tr (.error e) := by
  obtain ⟨tr, htr⟩ := runs_eval World.serve (s.1.turn con key) s.2
  rw [faultAt] at h
  split at h
  · cases h
  · next heval =>
    obtain rfl := Option.some.inj h
    exact ⟨tr, heval ▸ htr⟩

end NCursesUI

end Plctagt.Gui
