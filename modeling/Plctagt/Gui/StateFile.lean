import Plctagt.Foundations.Lines
import Plctagt.Gui.Updates
import Plctagt.Tag.StringRoundTrip

/-! # The state file

A line for every editable field of Sections 1 and 2: its label, `=`, its value. `loadState` takes the
text before the first `=` of a line for a label, and gives the rest to the fields that have it. There
is no escaping: a value with a line break would not come back. None gets into a field, since what
is read from a file is a line of it, what is typed is printable, and the rest is texts of the
program.
-/
namespace Plctagt.Gui
open Effects Decimal Tag Lines
set_option autoImplicit false

/-! ## Writing and reading -/

/-- `saveState`, line by line. -/
def NCursesUI.saveState (ui : NCursesUI) : Text :=
  (ui.fields 0 ++ ui.fields 1).flatMap fun f =>
    if f.editable then f.label ++ text "=" ++ f.value ++ text "\n" else []

/-- The text before the first `=` of the line, if it has one, is the label. -/
def Names (label line : Text) : Prop := (61 : UInt8) ∈ line ∧ line.takeWhile (· ≠ 61) = label

instance decidableNames (label line : Text) : Decidable (Names label line) :=
  inferInstanceAs (Decidable (_ ∧ _))

/-- The values that a file has for a label, in its order. -/
def assigned (label : Text) (state : List Text) : List Text :=
  (state.filter fun line => Names label line).map fun line => (line.dropWhile (· ≠ 61)).tail

theorem assigned_concat (label line : Text) (state : List Text) :
    assigned label (state ++ [line]) =
      assigned label state ++
        if Names label line then [(line.dropWhile (· ≠ 61)).tail] else [] := by
  rw [assigned, List.filter_append, List.map_append, List.filter_singleton]
  by_cases h : Names label line
  · simp [h, assigned]
  · simp [h, assigned]

namespace NCursesUI

/-- An editable field has the last value that the file has for its label, and its own if there is
none; nothing else of a field changes. -/
theorem loadState_eq {n : ℕ} (state : List Text) (table : Fin n → Field) (i : Fin n) :
    loadState state table i =
      if (table i).editable then
        { (table i).toEntry with
          value := (assigned (table i).label state).getLast?.getD (table i).value }
      else (table i).toEntry := by
  induction state using List.reverseRecOn with
  | nil =>
    split <;> rfl
  | append_singleton state line ih =>
    have hstep : loadState (state ++ [line]) table i =
        loadLine line (table i).toForm (loadState state table i) := by
      rw [loadState, List.foldl_concat]
      rfl
    rw [hstep, ih, loadLine, assigned_concat]
    by_cases hedit : (table i).editable = true
    · by_cases hname : Names (table i).label line
      · rw [if_pos hname, List.getLast?_concat, if_pos ⟨hname.1, hedit, hname.2.symm⟩]
        simp [hedit]
      · rw [if_neg hname, List.append_nil, if_neg fun h => hname ⟨h.1, h.2.2.symm⟩]
    · rw [if_neg fun h => hedit h.2.1]
      simp [hedit]

/-! ## What is written is read back -/

variable {con : Console} {ui ui' : NCursesUI}

/-- The fields of Sections 1 and 2 that are saved. -/
def kept (ui : NCursesUI) : List Field := (ui.fields 0 ++ ui.fields 1).filter fun f => f.editable

def line (f : Field) : Text := f.label ++ 61 :: f.value

theorem saveState_eq : ui.saveState = unlines 10 (ui.kept.map line) := by
  have hall : ∀ fs : List Field,
      (fs.flatMap fun f =>
        if f.editable then f.label ++ text "=" ++ f.value ++ text "\n" else []) =
      unlines 10 ((fs.filter fun f => f.editable).map line) := by
    intro fs
    induction fs with
    | nil => rfl
    | cons f fs ih =>
      rw [List.flatMap_cons, ih]
      by_cases hf : f.editable = true
      · have hline : f.label ++ text "=" ++ f.value ++ text "\n" = line f ++ [10] := by
          rw [List.append_assoc f.label]
          rfl
        rw [if_pos hf, List.filter_cons, if_pos hf, hline]
        rfl
      · rw [if_neg hf, List.filter_cons, if_neg hf]
        rfl
  exact hall _

theorem kept_labels :
    ui.kept.map (fun f => f.label) =
      [text "Gateway:", text "Path:", text "Protocol:", text "Cpu:", text "Type:",
        text "Tagname:", text "Count:"] := rfl

theorem filter_label {fs : List Field} (h : (fs.map fun f => f.label).Nodup) {f : Field}
    (hf : f ∈ fs) : fs.filter (fun g => g.label = f.label) = [f] := by
  induction fs with
  | nil => exact absurd hf List.not_mem_nil
  | cons g fs ih =>
    obtain ⟨hg, hfs⟩ := List.nodup_cons.mp h
    rcases List.mem_cons.mp hf with rfl | hf
    · have hnone : fs.filter (fun g => g.label = f.label) = [] := by
        refine List.filter_eq_nil_iff.mpr fun g hmem heq => hg ?_
        exact List.mem_map.mpr ⟨g, hmem, of_decide_eq_true heq⟩
      rw [List.filter_cons_of_pos (by simp), hnone]
    · have hne : g.label ≠ f.label := fun heq => hg (List.mem_map.mpr ⟨f, hf, heq.symm⟩)
      rw [List.filter_cons_of_neg (by simpa using hne), ih hfs hf]

theorem assigned_lines {label : Text} {fs : List Field} (h : ∀ f ∈ fs, (61 : UInt8) ∉ f.label) :
    assigned label (fs.map line) =
      (fs.filter fun f => f.label = label).map fun f => f.value := by
  induction fs with
  | nil => rfl
  | cons f fs ih =>
    obtain ⟨hf, hfs⟩ := List.forall_mem_cons.mp h
    have htake : (line f).takeWhile (· ≠ 61) = f.label := takeWhile_append_sep hf f.value
    have hdrop : (line f).dropWhile (· ≠ 61) = 61 :: f.value := dropWhile_append_sep hf f.value
    have hnames : Names label (line f) ↔ f.label = label := by
      have hmem : (61 : UInt8) ∈ line f := List.mem_append_right _ List.mem_cons_self
      rw [Names, htake]
      exact and_iff_right hmem
    have ih := ih hfs
    rw [assigned] at ih ⊢
    rw [List.map_cons]
    by_cases hlabel : f.label = label
    · rw [List.filter_cons_of_pos (by simpa using hnames.mpr hlabel), List.map_cons, ih, hdrop,
        List.filter_cons_of_pos (by simpa using hlabel)]
      rfl
    · rw [List.filter_cons_of_neg (by simpa using fun h => hlabel (hnames.mp h)), ih,
        List.filter_cons_of_neg (by simpa using hlabel)]

/-! ## No line break gets into a field -/

structure OneLine (e : Entry) : Prop where
  value : (10 : UInt8) ∉ e.value
  options : ∀ o ∈ e.options, (10 : UInt8) ∉ o

structure OneLines (ui : NCursesUI) : Prop where
  sec1 : ∀ i, OneLine (ui.sec1 i)
  sec2 : ∀ i, OneLine (ui.sec2 i)

theorem OneLines.congr (h : ui.OneLines) (h1 : ui'.sec1 = ui.sec1) (h2 : ui'.sec2 = ui.sec2) :
    ui'.OneLines :=
  ⟨h1 ▸ h.sec1, h2 ▸ h.sec2⟩

theorem OneLines.setValue (h : ui.OneLines) (s : Fin 3) (i : ℕ) {v : Text}
    (hv : (10 : UInt8) ∉ v) : (ui.setValue s i v).OneLines := by
  constructor
  · intro j
    rw [sec1_setValue]
    split
    · exact ⟨hv, (h.sec1 j).options⟩
    · exact h.sec1 j
  · intro j
    rw [sec2_setValue]
    split
    · exact ⟨hv, (h.sec2 j).options⟩
    · exact h.sec2 j

theorem OneLines.clearOptions (h : ui.OneLines) (s : Fin 3) (i : ℕ) :
    (ui.clearOptions s i).OneLines := by
  constructor
  · intro j
    rw [sec1_clearOptions]
    split
    · exact ⟨(h.sec1 j).value, fun o ho => absurd ho List.not_mem_nil⟩
    · exact h.sec1 j
  · intro j
    rw [sec2_clearOptions]
    split
    · exact ⟨(h.sec2 j).value, fun o ho => absurd ho List.not_mem_nil⟩
    · exact h.sec2 j

/-- The active field of Sections 1 and 2 is one of the entries; one of Section 3 has no options. -/
theorem OneLines.active (h : ui.OneLines) {s : Fin 3} {i : ℕ} {f : Field}
    (hf : (ui.fields s)[i]? = some f) :
    s = 2 ∧ f.options = [] ∨ OneLine f.toEntry := by
  match s with
  | 0 =>
    obtain ⟨j, -, rfl⟩ := ui.field_sec1 hf
    exact .inr (h.sec1 j)
  | 1 =>
    obtain ⟨j, -, rfl⟩ := ui.field_sec2 hf
    exact .inr (h.sec2 j)
  | 2 =>
    obtain ⟨c, -, rfl⟩ := List.mem_map.mp (List.mem_of_getElem? hf)
    exact .inl ⟨rfl, rfl⟩

theorem OneLines.filled (h : ui.OneLines) (values : List Text) :
    (ui.updateSection3FromVector con values).OneLines := by
  have hcount : (10 : UInt8) ∉ printInt values.length :=
    not_mem_printInt _ (by decide) (by decide)
  exact (h.setValue 1 2 hcount).congr rfl rfl

theorem OneLines.update (h : ui.OneLines) (hu : Update con ui ui') : ui'.OneLines := by
  cases hu with
  | quit => exact h.congr rfl rfl
  | stored hv =>
    refine ⟨h.sec1, fun j => ?_⟩
    have hnew : OneLine (Entry.mk ui.getTagname
        (Recent.cutFirst tagHistoryMax ui.getTagname ui.history)) := by
      refine ⟨(h.sec2 1).value, fun o ho => ?_⟩
      rcases List.mem_cons.mp (List.mem_of_mem_take (List.mem_eraseDups.mp ho)) with rfl | ho
      · exact (h.sec2 1).value
      · exact (h.sec2 1).options o ho
    exact (Function.forall_update_iff ui.sec2 fun _ => OneLine).mpr ⟨hnew, fun j _ => h.sec2 j⟩ j
  | focus saved s i f hf => exact h.congr rfl rfl
  | cursor p hp => exact h.congr rfl rfl
  | typed f hf v hv =>
    rcases h.active hf with ⟨hsec, -⟩ | hf
    · have hsame : (ui.setActive v).sec1 = ui.sec1 ∧ (ui.setActive v).sec2 = ui.sec2 := by
        rw [setActive, hsec]
        exact ⟨rfl, rfl⟩
      exact h.congr hsame.1 hsame.2
    · refine h.setValue _ _ fun hmem => ?_
      rcases hv _ hmem with hold | ⟨hlo, -⟩
      · exact hf.value hold
      · exact absurd hlo (by decide)
  | chosen f hf v hv =>
    rcases h.active hf with ⟨-, hnone⟩ | hf
    · rw [hnone] at hv
      exact absurd hv List.not_mem_nil
    · exact h.setValue _ _ (hf.options v hv)
  | forgotten f hf hlabel => exact h.clearOptions _ _
  | cleared => exact h.congr rfl rfl
  | filled values => exact h.filled values
  | stringType => exact (h.setValue 1 0 (by decide : (10 : UInt8) ∉ text "STRING")).congr rfl rfl
  | widths => exact h.congr rfl rfl
  | counted n => exact h.congr rfl rfl
  | compared v => exact h.congr rfl rfl
  | fleshed n => exact h.congr rfl rfl
  | pagedUp =>
    obtain ⟨s, heq⟩ := ui.pageUpSection3_scrolls con
    rw [heq]
    exact h.congr rfl rfl
  | pagedDown =>
    obtain ⟨s, heq⟩ := ui.pageDownSection3_scrolls con
    rw [heq]
    exact h.congr rfl rfl
  | drawn ui' hdrawn =>
    obtain ⟨f, -, rfl⟩ := drawn_eq hdrawn
    exact h.congr rfl rfl

theorem oneLine_loadState {n : ℕ} {table : Fin n → Field} (htable : ∀ i, OneLine (table i).toEntry)
    {state : List Text} (hstate : ∀ l ∈ state, (10 : UInt8) ∉ l) (i : Fin n) :
    OneLine (loadState state table i) := by
  refine ⟨?_, (loadState_options state table i).symm ▸ (htable i).options⟩
  rw [loadState_eq]
  split
  · cases hlast : (assigned (table i).label state).getLast? with
    | none => exact (htable i).value
    | some v =>
      obtain ⟨l, hl, rfl⟩ := List.mem_map.mp (List.mem_of_getLast? hlast)
      intro hmem
      have hdrop := List.mem_of_mem_tail hmem
      exact hstate l (List.mem_of_mem_filter hl) ((List.dropWhile_suffix _).subset hdrop)
  · exact (htable i).value

theorem oneLines_launched (con : Console) {state history : List Text}
    (hstate : ∀ l ∈ state, (10 : UInt8) ∉ l) (hhistory : ∀ l ∈ history, (10 : UInt8) ∉ l) :
    (launched con state history).OneLines := by
  have hfirst : ∀ i, OneLine (sec1Table i).toEntry := fun i =>
    ⟨(by decide : ∀ i, (10 : UInt8) ∉ (sec1Table i).value) i,
      (by decide : ∀ i, ∀ o ∈ (sec1Table i).options, (10 : UInt8) ∉ o) i⟩
  have hsecond : ∀ i, OneLine (sec2Table i).toEntry := fun i =>
    ⟨(by decide : ∀ i, (10 : UInt8) ∉ (sec2Table i).value) i,
      (by decide : ∀ i, ∀ o ∈ (sec2Table i).options, (10 : UInt8) ∉ o) i⟩
  have hinit : (initial state).OneLines :=
    ⟨oneLine_loadState hfirst hstate, oneLine_loadState hsecond hstate⟩
  have hfill : ((initial state).updateSection3FromCount con).OneLines := hinit.filled _
  refine ⟨hfill.sec1, fun j => ?_⟩
  have hnew : OneLine { ((initial state).updateSection3FromCount con).sec2 1 with
      options := (((initial state).updateSection3FromCount con).sec2 1).options ++
        history.take tagHistoryMax } := by
    refine ⟨(hfill.sec2 1).value, fun o ho => ?_⟩
    rcases List.mem_append.mp ho with ho | ho
    · exact (hfill.sec2 1).options o ho
    · exact hhistory o (List.mem_of_mem_take ho)
  exact (Function.forall_update_iff _ fun _ => OneLine).mpr ⟨hnew, fun j _ => hfill.sec2 j⟩ j

/-- The states of a session that began with these two files, whatever is in them. -/
def ReachedFromFiles (con : Console) : NCursesUI → Prop :=
  Effects.Reached
    (fun ui => ∃ (stateFile historyFile : Text) (tr : Trace),
      Runs (start con (lines 10 stateFile) (lines 10 historyFile)) tr (.ok ui))
    (turn con) fun ui _ _ => ui.running = true

theorem oneLines_of_reached (h : ui.ReachedFromFiles con) : ui.OneLines := by
  refine (drawn_of_reached (fun ui hs => ?_) (fun _ _ h hu => h.update hu) h).1
  obtain ⟨stateFile, historyFile, tr, hrun⟩ := hs
  exact ⟨_, _, tr, oneLines_launched con (not_mem_of_mem_lines 10 stateFile)
    (not_mem_of_mem_lines 10 historyFile), hrun⟩

/-! ## The round trip -/

theorem mem_kept_sec1 (i : Fin 4) (h : (sec1Table i).editable = true) :
    ⟨(sec1Table i).toForm, ui.sec1 i⟩ ∈ ui.kept :=
  List.mem_filter.mpr ⟨List.mem_append_left _ (List.mem_ofFn.mpr ⟨i, rfl⟩), h⟩

theorem mem_kept_sec2 (i : Fin 5) (h : (sec2Table i).editable = true) :
    ⟨(sec2Table i).toForm, ui.sec2 i⟩ ∈ ui.kept :=
  List.mem_filter.mpr ⟨List.mem_append_right _ (List.mem_ofFn.mpr ⟨i, rfl⟩), h⟩

/-- The file has one line for the label of a field that is saved: the one with its value. -/
theorem assigned_saveState (h : ui.OneLines) {f : Field} (hf : f ∈ ui.kept) :
    assigned f.label (lines 10 ui.saveState) = [f.value] := by
  have hlabels : ∀ g ∈ ui.kept, (61 : UInt8) ∉ g.label ∧ (10 : UInt8) ∉ g.label := by
    have hall : ∀ l ∈ ui.kept.map (fun f => f.label), (61 : UInt8) ∉ l ∧ (10 : UInt8) ∉ l := by
      rw [kept_labels]
      decide
    exact fun g hg => hall g.label (List.mem_map.mpr ⟨g, hg, rfl⟩)
  have hvalues : ∀ g ∈ ui.kept, (10 : UInt8) ∉ g.value := by
    intro g hg
    rcases List.mem_append.mp (List.mem_of_mem_filter hg) with hg | hg
    · obtain ⟨i, rfl⟩ := List.mem_ofFn.mp hg
      exact (h.sec1 i).value
    · obtain ⟨i, rfl⟩ := List.mem_ofFn.mp hg
      exact (h.sec2 i).value
  have hlines : ∀ l ∈ ui.kept.map line, (10 : UInt8) ∉ l := by
    intro l hl
    obtain ⟨g, hg, rfl⟩ := List.mem_map.mp hl
    intro hmem
    rcases List.mem_append.mp hmem with hmem | hmem
    · exact (hlabels g hg).2 hmem
    · rcases List.mem_cons.mp hmem with hmem | hmem
      · exact absurd hmem (by decide)
      · exact hvalues g hg hmem
  have hnodup : (ui.kept.map fun f => f.label).Nodup := by
    rw [kept_labels]
    decide
  rw [saveState_eq, lines_unlines 10 _ hlines, assigned_lines fun g hg => (hlabels g hg).1,
    filter_label hnodup hf]
  rfl

/-- What a session leaves in the state file is read back into every editable field; and whatever is
in the file, an editable field gets the last value given to its label in a line of it, and nothing
else changes. -/
theorem saveState_restores (h : ui.ReachedFromFiles con) :
    ((∀ i, (sec1Table i).editable = true →
        (loadState (lines 10 ui.saveState) sec1Table i).value = (ui.sec1 i).value) ∧
      ∀ i, (sec2Table i).editable = true →
        (loadState (lines 10 ui.saveState) sec2Table i).value = (ui.sec2 i).value) ∧
    ∀ file : Text,
      (∀ i, loadState (lines 10 file) sec1Table i =
        if (sec1Table i).editable then
          { (sec1Table i).toEntry with
            value := (assigned (sec1Table i).label (lines 10 file)).getLast?.getD
              (sec1Table i).value }
        else (sec1Table i).toEntry) ∧
      ∀ i, loadState (lines 10 file) sec2Table i =
        if (sec2Table i).editable then
          { (sec2Table i).toEntry with
            value := (assigned (sec2Table i).label (lines 10 file)).getLast?.getD
              (sec2Table i).value }
        else (sec2Table i).toEntry := by
  have hlines := oneLines_of_reached h
  refine ⟨⟨fun i hi => ?_, fun i hi => ?_⟩, fun file => ⟨loadState_eq _ _, loadState_eq _ _⟩⟩
  · rw [loadState_eq, if_pos hi, assigned_saveState hlines (mem_kept_sec1 i hi)]
    rfl
  · rw [loadState_eq, if_pos hi, assigned_saveState hlines (mem_kept_sec2 i hi)]
    rfl

/-- A session on a file with a path, in which a `=` is typed behind it. -/
theorem saveState_restores_path :
    ∃ ui : NCursesUI, ui.ReachedFromFiles Console.plain ∧ ui.getPath = text "1,2=" ∧
      (loadState (lines 10 ui.saveState) sec1Table 1).value = text "1,2=" := by
  have hend : (session Console.plain (lines 10 (text "Path:=1,2")) (lines 10 [])
      (World.bench 1 swappedStrings.1 swappedStrings.2 []) [.down, .byte 61]).map
        (fun s => s.1.getPath) = some (text "1,2=") := by decide +kernel
  obtain ⟨s, hs, hpath⟩ := Option.map_eq_some_iff.mp hend
  obtain ⟨ui, tr, w', hstart, hplay⟩ := exists_start _ hs
  have hreached : s.1.ReachedFromFiles Console.plain :=
    reached_play _ hplay (fun ui key tr hrun hc => hrun) (.start ui ⟨_, _, tr, hstart⟩)
  exact ⟨s.1, hreached, hpath, ((saveState_restores hreached).1.1 1 rfl).trans hpath⟩

end NCursesUI

end Plctagt.Gui
