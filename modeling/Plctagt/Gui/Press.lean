import Plctagt.Gui.History
import Plctagt.Gui.Profile

/-! # What a key can do to the shape of the screen

`Press` lists it: nothing, an edit of the Count field, a move in the section, a move to another
section, or a new length of Section 3. `meets_press` says that the `switch` of `run` does one of
these, and `PressFault` when it reads or divides by what is not there.
-/
namespace Plctagt.Gui
open Effects Decimal Tag
set_option autoImplicit false

/-- What a popup menu lists, and the number of lines Section 3 then gets: `display` for LIST TAGS,
`profile` for a profile run. -/
inductive Listed : Trace → ℕ → Prop
  | display (options : List Text) (title gateway path : Text) (r : Option (Fin options.length))
      (rc : ℤ) (es : List TagEntry) (h : r.map Fin.val = some 0) :
      Listed [⟨.popupSelect options title, r⟩, ⟨.listTags gateway path, (rc, es)⟩] es.length
  | profile (options options' : List Text) (title title' gateway path : Text)
      (r : Option (Fin options.length)) (r' : Option (Fin options'.length)) (rc : ℤ)
      (es : List TagEntry) (tr : Trace) (h : r.map Fin.val = some 1)
      (hes : (expandTags es).isSome) :
      Listed (⟨.popupSelect options title, r⟩ :: ⟨.popupSelect options' title', r'⟩ ::
        ⟨.listTags gateway path, (rc, es)⟩ :: tr) (created tr).length

def target (key : Key) (actSec : Fin 3) : Option (Fin 3) :=
  if key = .byte 21 then some (actSec - 1)
  else if key = .byte 4 then some (actSec + 1)
  else none

/-! ## The text of the active field after a key -/

def erased (f : Field) (cursorPos : ℤ) : Text :=
  if f.typed ∧ 0 < cursorPos then f.value.eraseIdx (cursorPos - 1).toNat else f.value

def deleted (f : Field) (cursorPos : ℤ) : Text :=
  if f.typed ∧ cursorPos < f.value.length then f.value.eraseIdx cursorPos.toNat else f.value

def inserted (f : Field) (cursorPos : ℤ) (b : UInt8) : Text :=
  if f.typed ∧ 32 ≤ b ∧ b ≤ 126 ∧ f.value.length < f.width then
    f.value.insertIdx cursorPos.toNat b
  else f.value

def edited (key : Key) (f : Field) (cursorPos : ℤ) : Text :=
  match key with
  | .byte b => if b = 127 then erased f cursorPos else inserted f cursorPos b
  | .backspace => erased f cursorPos
  | .dc => deleted f cursorPos
  | .f 5 => if f.editable then [] else f.value
  | _ => f.value

/-! ## Shapes before and after -/

/-- A field that is not there, or a remainder by 0. -/
def IndexFault (e : Fault) : Prop := e = .fieldIndex ∨ e = .moduloZero

/-- What a key can do to the shape; `v` is the text the active field has after it. -/
inductive Press (key : Key) (tr : Trace) (v : Text) (s : Shape) : Shape → Prop
  | stay : Press key tr v s s
  | edit (h : s.actSec = 1 ∧ s.actField = 2) : Press key tr v s (s.setCount v)
  | field (i : ℕ) (h : i < s.size s.actSec) : Press key tr v s { s with actField := i }
  | section (t : Fin 3) (ht : target key s.actSec = some t)
      (h : (s.enter t).actField < (s.enter t).size t) : Press key tr v s (s.enter t)
  | read (n : ℕ) (h : s.actSec ≠ 2) : Press key tr v s (s.resize n)
  | list (n : ℕ) (hkey : key = .f 2) (h : Listed tr n) : Press key tr v s (s.resize n)

/-- When a key reads a field that is not there, or divides by 0. -/
inductive PressFault (key : Key) (tr : Trace) (s : Shape) : Prop
  | empty (h : s.size s.actSec = 0)
  | section (t : Fin 3) (ht : target key s.actSec = some t)
      (h : (s.enter t).size t ≤ (s.enter t).actField)
  | list (n : ℕ) (hkey : key = .f 2) (hn : Listed tr n)
      (h : (s.resize n).size s.actSec ≤ s.actField)

/-- A run of one key: it ends in a shape that `Press` allows, or faults for a reason. -/
def Presses (key : Key) (v : Text) (s : Shape) (tr : Trace) (o : Except Fault NCursesUI) : Prop :=
  match o with
  | .ok ui => Press key tr v s ui.shape
  | .error e => IndexFault e → PressFault key tr s

namespace NCursesUI
variable (con : Console) (ui : NCursesUI)

/-! ## Moving -/

/-- The screen after a field is left: the tag is stored, if it is the Tagname field and has one. -/
def Left (ui ui' : NCursesUI) : Prop :=
  ui' = ui ∨ ui.getTagname ≠ [] ∧ ui' = ui.stored ui.getTagname

theorem Left.shape {ui ui' : NCursesUI} (h : ui.Left ui') : ui'.shape = ui.shape := by
  rcases h with rfl | ⟨-, rfl⟩
  · rfl
  · simp [NCursesUI.shape, stored]

theorem yields_storeTagOnLeave : Yields ui.storeTagOnLeave ui.Left (fun _ => False) := by
  unfold storeTagOnLeave
  split
  · by_cases h : ui.getTagname = []
    · have hnone : ui.storeCurrentTag = pure ui := if_pos h
      rw [hnone]
      exact (yields_pure _).mpr (.inl rfl)
    · rw [storeCurrentTag_eq h]
      exact yields_perform_bind fun _ => (yields_pure _).mpr (.inr ⟨h, rfl⟩)
  · exact (yields_pure _).mpr (.inl rfl)

theorem seekField_eq (fields : List Field) (next : ℕ → ℕ) (n i : ℕ) (hn : 0 < n)
    (hi : next i < fields.length) (hf : ∀ f ∈ fields, f.editable = true ∨ f.label ≠ []) :
    seekField fields next n i = pure (next i) := by
  obtain ⟨n, rfl⟩ : ∃ m, n = m + 1 := ⟨n - 1, by omega⟩
  rw [seekField, List.getElem?_eq_getElem hi]
  have hstop : ¬((fields[next i]).editable = false ∧ (fields[next i]).label = []) := by
    rintro ⟨he, hl⟩
    rcases hf _ (List.getElem_mem hi) with h | h
    · exact absurd (he.symm.trans h) (by decide)
    · exact h hl
  simp only [hstop, if_false]

theorem yields_moveField (next : ℕ → ℕ → ℕ) (hnext : ∀ size i, 0 < size → next size i < size) :
    Yields (ui.moveField next)
      (fun ui' => ∃ ui₁ i f, ui.Left ui₁ ∧ (ui₁.fields ui₁.actSec)[i]? = some f ∧
        ui' = { ui₁ with actField := i, cursorPos := f.value.length })
      (fun e => e = .moduloZero ∧ ui.shape.size ui.shape.actSec = 0) := by
  refine ((ui.yields_storeTagOnLeave).weaken (fun _ h => h) fun _ h => h.elim).bind fun ui₁ h₁ => ?_
  dsimp only
  split
  · next h0 =>
    refine (yields_stop _).mpr ⟨rfl, ?_⟩
    rw [← h₁.shape, size_shape, ← length_fields]
    exact h0
  · next h0 =>
    have hpos : 0 < (ui₁.fields ui₁.actSec).length := by omega
    have hi := hnext _ ui₁.actField hpos
    have hf := List.getElem?_eq_getElem hi
    rw [seekField_eq _ _ _ _ hpos hi (ui₁.editable_or_label ui₁.actSec), ret_bind]
    set i := next (ui₁.fields ui₁.actSec).length ui₁.actField with hnexti
    have hactive : { ui₁ with actField := i }.activeField = pure ((ui₁.fields ui₁.actSec)[i]) :=
      activeField_eq _ _ hf
    rw [hactive, ret_bind]
    exact (yields_pure _).mpr ⟨ui₁, i, _, h₁, hf, rfl⟩

theorem yields_activeField :
    Yields ui.activeField
      (fun f => (ui.fields ui.actSec)[ui.actField]? = some f ∧
        ui.shape.actField < ui.shape.size ui.shape.actSec)
      (fun _ => ui.shape.size ui.shape.actSec ≤ ui.shape.actField) := by
  intro tr o h
  rcases ui.runs_activeField h with ⟨f, rfl, hf⟩ | ⟨rfl, hle⟩
  · exact hf
  · exact hle

theorem shape_enterSection (t : Fin 3) : (ui.enterSection t).shape = ui.shape.enter t := rfl

theorem yields_moveSection (next : Fin 3 → Fin 3) :
    Yields (ui.moveSection next)
      (fun ui' => ∃ ui₁ f, ui.Left ui₁ ∧
        ((ui₁.enterSection (next ui.actSec)).fields (next ui.actSec))[(ui₁.enterSection
          (next ui.actSec)).actField]? = some f ∧
        ui' = { ui₁.enterSection (next ui.actSec) with cursorPos := f.value.length })
      (fun _ => (ui.shape.enter (next ui.actSec)).size (next ui.actSec) ≤
        (ui.shape.enter (next ui.actSec)).actField) := by
  refine ((ui.yields_storeTagOnLeave).weaken (fun _ h => h) fun _ h => h.elim).bind fun ui₁ h₁ => ?_
  have hsec : ui₁.actSec = ui.actSec := congrArg Shape.actSec h₁.shape
  have hactive := yields_activeField (ui₁.enterSection (next ui.actSec))
  rw [shape_enterSection, h₁.shape] at hactive
  rw [hsec]
  exact hactive.bind fun f hf => (yields_pure _).mpr ⟨ui₁, f, h₁, hf.1, rfl⟩

/-! ## Editing -/

theorem press_setActive (key : Key) (tr : Trace) (v : Text) (ui' : NCursesUI)
    (h : ui'.shape = (ui.setActive v).shape) : Press key tr v ui.shape ui'.shape := by
  rw [h, setActive, shape_setValue]
  split
  · next hat => exact .edit hat
  · exact .stay

theorem not_indexFault {e : Fault} (h₁ : e ≠ .fieldIndex) (h₂ : e ≠ .moduloZero) :
    ¬IndexFault e := fun h => h.elim h₁ h₂

/-- The editing keys: a test that the field can be edited there, and a position that has to be
inside the string. -/
theorem presses_edit (key : Key) (v v₀ : Text) (guard inside : Prop) [Decidable guard]
    [Decidable inside] (ui₁ : NCursesUI) (h : ui₁.shape = (ui.setActive v).shape) :
    Meets (if guard then if inside then pure ui₁ else .stop .stringPosition else pure ui)
      (Presses key (if guard then v else v₀) ui.shape) := by
  split
  · split
    · exact meets_pure (ui.press_setActive key [] v ui₁ h)
    · exact meets_stop fun he => absurd he (not_indexFault (by decide) (by decide))
  · exact meets_pure .stay

theorem presses_backspace (key : Key) (f : Field) :
    Meets (ui.backspace f) (Presses key (erased f ui.cursorPos) ui.shape) :=
  presses_edit ui key _ _ _ _ _ rfl

theorem presses_deleteChar (key : Key) (f : Field) :
    Meets (ui.deleteChar f) (Presses key (deleted f ui.cursorPos) ui.shape) :=
  presses_edit ui key _ _ _ _ _ rfl

theorem presses_insertChar (key : Key) (f : Field) (b : UInt8) :
    Meets (ui.insertChar f b) (Presses key (inserted f ui.cursorPos b) ui.shape) :=
  presses_edit ui key _ _ _ _ _ rfl

theorem press_clearField (key : Key) (tr : Trace) (f : Field) :
    Press key tr (if f.editable then [] else f.value) ui.shape (ui.clearField f).shape := by
  unfold clearField
  split
  · exact ui.press_setActive key tr [] _ rfl
  · exact .stay

/-! ## [Read] and [Write] -/

/-- The faults of the tag functions. -/
def TagFault (e : Fault) : Prop := e = .fuel ∨ e = .undefined ∨ e = .vectorIndex

theorem TagFault.not_indexFault {e : Fault} (h : TagFault e) : ¬IndexFault e := by
  rcases h with rfl | rfl | rfl
  · exact NCursesUI.not_indexFault (by decide) (by decide)
  · exact NCursesUI.not_indexFault (by decide) (by decide)
  · exact NCursesUI.not_indexFault (by decide) (by decide)

/-- The shape is kept, or Section 3 gets a new length. -/
def Refilled (s s' : Shape) : Prop := s' = s ∨ ∃ n, s' = s.resize n

/-- The screen is kept, or Section 3 is filled with other values. -/
def Filled (ui ui' : NCursesUI) : Prop :=
  ui' = ui ∨ ∃ values, ui' = ui.updateSection3FromVector con values

theorem Filled.refilled {con : Console} {ui ui' : NCursesUI} (h : ui.Filled con ui') :
    Refilled ui.shape ui'.shape := by
  rcases h with rfl | ⟨values, rfl⟩
  · exact .inl rfl
  · exact .inr ⟨values.length, shape_updateSection3FromVector con ui values⟩

theorem yields_popupMessage (message : Text) {E : Fault → Prop} :
    Yields (popupMessage message) (fun _ => True) E :=
  yields_perform fun _ => trivial

theorem yields_readTagAndUpdateSection3 (t : ElemType) (tag : ℤ) :
    Yields (ui.readTagAndUpdateSection3 con t tag) (fun r => ui.Filled con r.2) TagFault := by
  refine ((yields_readNumericTag t [] tag [] dataTimeout).weaken (fun _ h => h)
    fun _ h => h.elim).bind fun r _ => ?_
  split
  split
  · exact (yields_popupMessage _).bind fun _ _ => (yields_pure _).mpr (.inl rfl)
  · exact (yields_pure _).mpr (.inr ⟨_, rfl⟩)

theorem ReaderRun.yields {α : Type} {tag : ℤ} {p : Program α} (h : Meets p (ReaderRun tag)) :
    Yields p (fun _ => True) TagFault := by
  refine Meets.weaken h fun tr o h => ?_
  cases o with
  | ok a => trivial
  | error e =>
    rcases h.faults e rfl with h | h
    · exact .inl h
    · exact .inr (.inl h)

theorem WriteFaults.yields {α : Type} {tag : ℤ} {length : ℕ} {p : Program α}
    (h : Meets p (WriteFaults tag length)) : Yields p (fun _ => True) TagFault := by
  refine Meets.weaken h fun tr o h => ?_
  cases o with
  | ok a => trivial
  | error e =>
    rcases h e rfl with h | ⟨h, -⟩
    · exact .inr (.inl h)
    · exact .inr (.inr h)

theorem yields_readStringsAndUpdateSection3 (tag : ℤ) :
    Yields (ui.readStringsAndUpdateSection3 con tag) (fun r => ui.Filled con r.2) TagFault := by
  refine (ReaderRun.yields (reader_readStringTag [] tag con.turns [] dataTimeout)).bind fun r _ => ?_
  split
  split
  · exact (yields_popupMessage _).bind fun _ _ => (yields_pure _).mpr (.inl rfl)
  · exact (yields_pure _).mpr (.inr ⟨_, rfl⟩)

theorem yields_writeTagFromSection3 (t : ElemType) (tag : ℤ) :
    Yields (ui.writeTagFromSection3 con t tag) (fun _ => True) TagFault := by
  refine (WriteFaults.yields (meets_writeNumericTag t [] tag _ dataTimeout)).bind fun r _ => ?_
  split
  split
  · exact (yields_popupMessage _).bind fun _ _ => (yields_pure _).mpr trivial
  · exact (yields_pure _).mpr trivial

theorem yields_writeStringsFromSection3 (tag : ℤ) :
    Yields (ui.writeStringsFromSection3 tag) (fun _ => True) TagFault := by
  refine (WriteFaults.yields (meets_writeStringTag [] tag _ dataTimeout)).bind fun r _ => ?_
  split
  split
  · exact (yields_popupMessage _).bind fun _ _ => (yields_pure _).mpr trivial
  · exact (yields_pure _).mpr trivial

theorem yields_readTag (tag : ℤ) :
    Yields (ui.readTag con tag) (ui.Filled con) TagFault := by
  unfold readTag
  split
  · exact (ui.yields_readTagAndUpdateSection3 con _ tag).bind fun r hr => (yields_pure _).mpr hr
  · exact (ui.yields_readStringsAndUpdateSection3 con tag).bind fun r hr => (yields_pure _).mpr hr
  · exact (yields_pure _).mpr (.inl rfl)

theorem yields_writeTag (tag : ℤ) :
    Yields (ui.writeTag con tag) (fun ui' => ui' = ui) TagFault := by
  unfold writeTag
  split
  · exact (ui.yields_writeTagFromSection3 con _ tag).bind fun r _ => (yields_pure _).mpr rfl
  · exact (ui.yields_writeStringsFromSection3 tag).bind fun r _ => (yields_pure _).mpr rfl
  · exact (yields_pure _).mpr rfl

theorem yields_useTag (f : Field) (tag : ℤ) :
    Yields (ui.useTag con f tag) (ui.Filled con) TagFault := by
  unfold useTag
  split
  · exact ui.yields_readTag con tag
  · exact (ui.yields_writeTag con tag).weaken (fun _ h => .inl h) fun _ h => h

theorem yields_handleEnterKey (f : Field) :
    Yields (ui.handleEnterKey con f)
      (fun ui' => ui' = ui ∨ f.editable = false ∧ ui.Filled con ui') TagFault := by
  unfold handleEnterKey
  split
  · next hf =>
    refine ((yields_createTag _ _ _).weaken (fun _ h => h) fun _ h => h.elim).bind fun r _ => ?_
    split
    split
    · exact (yields_popupMessage _).bind fun _ _ => (yields_pure _).mpr (.inl rfl)
    · exact (ui.yields_useTag con f _).bind fun ui' h =>
        yields_perform_bind fun _ => (yields_pure _).mpr (.inr ⟨hf.1, h⟩)
  · exact (yields_pure _).mpr (.inl rfl)

/-! ## The menu -/

theorem yields_profileRead (kind : Option TagKind) (tag : ℤ) :
    Yields (profileRead con kind tag) (fun _ => kind ≠ none)
      (fun e => TagFault e ∨ kind = none ∧ e = .sigtrap) := by
  unfold profileRead
  split
  · exact ((yields_readNumericTag _ _ _ _ _).weaken (fun _ h => h) fun _ h => h.elim).bind
      fun _ _ => (yields_pure _).mpr (by simp)
  · exact ((ReaderRun.yields (reader_readStringTag _ _ _ _ _)).weaken (fun _ h => h)
      fun _ h => .inl h).bind fun _ _ => (yields_pure _).mpr (by simp)
  · exact (yields_stop _).mpr (.inr ⟨rfl, rfl⟩)

theorem yields_readTags (es : List TagEntry) :
    Yields (readTags con es) (fun _ => True) (fun e => ¬IndexFault e) := by
  induction es with
  | nil => exact (yields_pure _).mpr trivial
  | cons e es ih =>
    refine ((yields_profileRead con _ _).weaken (fun _ h => h) fun _ h => ?_).bind fun _ _ => ih
    rcases h with h | ⟨-, rfl⟩
    · exact h.not_indexFault
    · exact not_indexFault (by decide) (by decide)

theorem yields_destroyTags (es : List TagEntry) :
    Yields (destroyTags es) (fun _ => True) (fun e => ¬IndexFault e) := by
  induction es with
  | nil => exact (yields_pure _).mpr trivial
  | cons e es ih => exact yields_perform_bind fun _ => ih

theorem yields_readAndDestroy (types : Text) (es : List TagEntry) :
    Yields (ui.readAndDestroy con types es) (fun ui' => ui' = ui) (fun e => ¬IndexFault e) :=
  (yields_readTags con es).bind fun _ _ => (yields_destroyTags es).bind fun _ _ =>
    yields_perform_bind fun _ => (yields_pure _).mpr rfl

theorem calls_readAndDestroy (types : Text) (es : List TagEntry) :
    Calls (ui.readAndDestroy con types es) fun c => ∀ s t, c ≠ .create s t := by
  refine (calls_readTags con es).bind fun _ => ?_
  refine ((calls_destroyTags es).weaken ?_).bind fun _ =>
    (calls_perform fun s t => by nofun).bind fun _ => calls_pure _
  rintro c ⟨tag, rfl⟩ s t
  nofun

theorem runs_popupSelect {options : List Text} {title : Text} {tr : Trace}
    {o : Except Fault (Option ℕ)} (h : Runs (popupSelect options title) tr o) :
    ∃ r, tr = [⟨.popupSelect options title, r⟩] ∧ o = .ok (r.map Fin.val) := by
  obtain ⟨r, tr', rfl, rfl, rfl⟩ := h
  exact ⟨r, rfl, rfl⟩

theorem presses_profile {types v : Text} {options options' : List Text} {title title' : Text}
    {r : Option (Fin options.length)} {r' : Option (Fin options'.length)} (hr : r.map Fin.val = some 1)
    {tr : Trace} {o : Except Fault NCursesUI} (h : Runs (ui.profileTags con types) tr o) :
    Presses (.f 2) v ui.shape
      (⟨.popupSelect options title, r⟩ :: ⟨.popupSelect options' title', r'⟩ :: tr) o := by
  cases runs_profileTags con ui types h with
  | trapped gateway path rc es hes =>
    exact fun he => absurd he (not_indexFault (by decide) (by decide))
  | unshown gateway path rc fleshed es entries tr e hes hloop he hle =>
    have hsome : (expandTags es).isSome := by rw [hes]; rfl
    exact fun _ => .list _ rfl (.profile _ _ _ _ _ _ r r' rc es tr hr hsome) hle
  | shown gateway path rc fleshed es entries tr rest ui' o hes hloop hshape hrun =>
    have hsome : (expandTags es).isSome := by rw [hes]; rfl
    have hrest : created (tr ++ rest) = created tr := by
      rw [created_append, created_eq_nil (calls_readAndDestroy con ui' types _ rest _ hrun),
        List.append_nil]
    have hyields := yields_readAndDestroy con ui' types _ rest _ hrun
    cases o with
    | ok ui₂ =>
      obtain rfl : ui₂ = ui' := hyields
      show Press _ _ _ _ ui₂.shape
      rw [hshape, ← hrest]
      exact .list _ rfl (.profile _ _ _ _ _ _ r r' rc es _ hr hsome)
    | error e => exact fun he => absurd he hyields

theorem presses_menu (v : Text) : Meets (ui.menu con) (Presses (.f 2) v ui.shape) := by
  intro tr o h
  rcases (runs_bind _ _ _ _).mp h with ⟨tr₁, tr₂, choice, rfl, h₁, h₂⟩ | ⟨e, rfl, h₁⟩
  · obtain ⟨r, rfl, hr⟩ := runs_popupSelect h₁
    have hr := Except.ok.inj hr
    have hstay : ∀ (message : Text) (tr' : Trace),
        Runs (popupMessage message >>= fun _ => (pure ui : Program NCursesUI)) tr' o → o = .ok ui := by
      rintro message tr' ⟨-, tr'', -, -, rfl⟩
      rfl
    split at h₂
    · obtain ⟨gateway, path, rc, es, ui', rfl, rfl, hshape⟩ := runs_displayTags con ui h₂
      show Press _ _ _ _ ui'.shape
      rw [hshape]
      exact .list _ rfl (.display _ _ gateway path r rc es hr.symm)
    · rcases (runs_bind _ _ _ _).mp h₂ with ⟨tr₃, tr₄, choice, rfl, h₃, h₄⟩ | ⟨e, rfl, h₃⟩
      · obtain ⟨r', rfl, -⟩ := runs_popupSelect h₃
        split at h₄
        · exact ui.presses_profile con hr.symm h₄
        · obtain rfl := hstay _ _ h₄
          exact .stay
      · obtain ⟨r', -, hr'⟩ := runs_popupSelect h₃
        exact nomatch hr'
    · obtain rfl := hstay _ _ h₂
      exact .stay
  · obtain ⟨r, -, hr⟩ := runs_popupSelect h₁
    exact nomatch hr

/-! ## The switch -/

theorem editable_of_sec3 {f : Field} (hf : (ui.fields ui.actSec)[ui.actField]? = some f)
    (hsec : ui.actSec = 2) : f.editable = true := by
  rw [hsec] at hf
  obtain ⟨c, -, rfl⟩ := List.mem_map.mp (List.mem_of_getElem? hf)
  rfl

theorem not_count_of_tagname {f : Field} (hf : (ui.fields ui.actSec)[ui.actField]? = some f)
    (hlabel : f.label = text "Tagname:") : ¬(ui.actSec = 1 ∧ ui.actField = 2) := by
  rintro ⟨hsec, hfield⟩
  rw [hsec, hfield] at hf
  cases hf
  exact absurd hlabel (by decide : (sec2Table 2).label ≠ text "Tagname:")

theorem presses_of_yields {key : Key} {v : Text} {s : Shape} {p : Program NCursesUI}
    {T : NCursesUI → Prop} {E : Fault → Prop} (h : Yields p T E)
    (hT : ∀ tr ui', T ui' → Press key tr v s ui'.shape)
    (hE : ∀ tr e, E e → IndexFault e → PressFault key tr s) : Meets p (Presses key v s) := by
  refine Meets.weaken h fun tr o h => ?_
  cases o with
  | ok ui' => exact hT tr ui' h
  | error e => exact hE tr e h

theorem lt_size_of_getElem? {s : Fin 3} {i : ℕ} {f : Field} (h : (ui.fields s)[i]? = some f) :
    i < ui.shape.size s := by
  rw [size_shape, ← length_fields]
  exact (List.getElem?_eq_some_iff.mp h).1

theorem presses_moveField (key : Key) (v : Text) (next : ℕ → ℕ → ℕ)
    (hnext : ∀ size i, 0 < size → next size i < size) :
    Meets (ui.moveField next) (Presses key v ui.shape) := by
  refine presses_of_yields (ui.yields_moveField next hnext) ?_ ?_
  · rintro tr ui' ⟨ui₁, i, f, h₁, hf, rfl⟩
    have hi := ui₁.lt_size_of_getElem? hf
    have hshape : { ui₁ with actField := i, cursorPos := f.value.length }.shape =
        { ui₁.shape with actField := i } := rfl
    rw [hshape, h₁.shape]
    exact .field i (h₁.shape ▸ hi)
  · rintro tr e ⟨-, h0⟩ -
    exact .empty h0

theorem presses_moveSection (key : Key) (v : Text) (next : Fin 3 → Fin 3)
    (hkey : target key ui.actSec = some (next ui.actSec)) :
    Meets (ui.moveSection next) (Presses key v ui.shape) := by
  refine presses_of_yields (ui.yields_moveSection next) ?_ ?_
  · rintro tr ui' ⟨ui₁, f, h₁, hf, rfl⟩
    have hlt := lt_size_of_getElem? _ hf
    have henter : (ui₁.enterSection (next ui.actSec)).shape = ui.shape.enter (next ui.actSec) := by
      rw [shape_enterSection, h₁.shape]
    have hshape : { ui₁.enterSection (next ui.actSec) with cursorPos := f.value.length }.shape =
        (ui₁.enterSection (next ui.actSec)).shape := rfl
    rw [hshape, henter]
    exact .section _ hkey (henter ▸ hlt)
  · intro tr e hle _
    exact .section _ hkey hle

theorem presses_handleEnterKey (key : Key) (v : Text) {f : Field}
    (hf : (ui.fields ui.actSec)[ui.actField]? = some f) :
    Meets (ui.handleEnterKey con f) (Presses key v ui.shape) := by
  refine presses_of_yields (ui.yields_handleEnterKey con f) ?_ fun tr e h he => absurd he h.not_indexFault
  rintro tr ui' (rfl | ⟨hedit, h⟩)
  · exact .stay
  rcases h.refilled with h | ⟨n, h⟩
  · rw [h]
    exact .stay
  · rw [h]
    refine .read n fun hsec => ?_
    rw [ui.editable_of_sec3 hf hsec] at hedit
    exact absurd hedit (by decide)

/-- What one key does. -/
theorem meets_press (key : Key) (f : Field) (hf : (ui.fields ui.actSec)[ui.actField]? = some f) :
    Meets (ui.press con key f) (Presses key (edited key f ui.cursorPos) ui.shape) := by
  have hup : ∀ size i, 0 < size → (i + size - 1) % size < size := fun _ _ h => Nat.mod_lt _ h
  have hdown : ∀ size i, 0 < size → (i + 1) % size < size := fun _ _ h => Nat.mod_lt _ h
  have hstay : ∀ (key : Key) (v : Text) (ui' : NCursesUI), ui'.shape = ui.shape →
      Meets (pure ui' : Program NCursesUI) (Presses key v ui.shape) := by
    intro key v ui' h
    refine meets_pure ?_
    show Press _ _ _ _ ui'.shape
    rw [h]
    exact .stay
  match key with
  | .byte b =>
    simp only [press]
    split
    · exact hstay _ _ _ rfl
    split
    · exact ui.presses_moveField _ _ _ hdown
    split
    · next h => exact ui.presses_moveSection _ _ (fun s => s - 1) (by rw [h]; rfl)
    split
    · next h => exact ui.presses_moveSection _ _ (fun s => s + 1) (by rw [h]; rfl)
    split
    · next h =>
      have he : edited (.byte b) f ui.cursorPos = erased f ui.cursorPos := if_pos h
      rw [he]
      exact ui.presses_backspace _ f
    split
    · exact ui.presses_handleEnterKey con _ _ hf
    · next h _ =>
      have he : edited (.byte b) f ui.cursorPos = inserted f ui.cursorPos b := if_neg h
      rw [he]
      exact ui.presses_insertChar _ f b
  | .up => exact ui.presses_moveField _ _ _ hup
  | .btab => exact ui.presses_moveField _ _ _ hup
  | .down => exact ui.presses_moveField _ _ _ hdown
  | .ppage => exact hstay _ _ _ (shape_pageUpSection3 con ui)
  | .npage => exact hstay _ _ _ (shape_pageDownSection3 con ui)
  | .backspace => exact ui.presses_backspace _ f
  | .dc => exact ui.presses_deleteChar _ f
  | .left => exact hstay _ _ _ (by unfold cursorLeft; split <;> rfl)
  | .right => exact hstay _ _ _ (by unfold cursorRight; split <;> rfl)
  | .other => exact hstay _ _ _ rfl
  | .f 1 =>
    have hsame : Yields (ui.press con (.f 1) f) (fun ui' => ui' = ui) (fun _ => False) :=
      yields_perform_bind fun _ => (yields_pure ui).mpr rfl
    refine presses_of_yields hsame (fun tr ui' h => ?_) fun _ _ h => h.elim
    rw [h]
    exact .stay
  | .f 2 => exact ui.presses_menu con _
  | .f 4 =>
    simp only [press]
    split
    · next h =>
      exact hstay _ _ _ (shape_clearOptions ui _ _ (ui.not_count_of_tagname hf h))
    · exact hstay _ _ _ rfl
  | .f 5 => exact meets_pure (ui.press_clearField _ _ f)
  | .f 6 => exact hstay _ _ _ (shape_clearSection3Fields ui)
  | .f 0 => exact hstay _ _ _ rfl
  | .f 3 => exact hstay _ _ _ rfl
  | .f (n + 7) => exact hstay _ _ _ rfl

end NCursesUI

end Plctagt.Gui
