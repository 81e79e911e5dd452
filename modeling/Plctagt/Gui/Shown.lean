import Plctagt.Gui.Requested
import Plctagt.Listing.Export

/-! # What the list of tags says

`formatTagDisplay` shows a tag by its type, its name and its dimensions. Three things come between
the record of the controller and that text: the export, which fills the first dimension from one
word past the array and leaves the others 0; `profileTags`, which puts the prefixed name where the
name was; and the stream, which goes on in hexadecimal.
-/
namespace Plctagt.Gui
open Effects Decimal Tag
open Listing (Record TagNode Holds Plc Halt Statics kept tagDimMask tagStringBase ctrlString progString
  exportEntries programNodes)
open NCursesUI (profiledEntry profiled)
set_option autoImplicit false

/-! ## Texts in brackets -/

/-- The texts, each in brackets. -/
def brackets (ts : List Text) : Text := ts.flatMap fun t => text "[" ++ t ++ text "]"

theorem append_cons_inj {α : Type} {a : α} {x x' y y' : List α} (hx : a ∉ x) (hx' : a ∉ x')
    (h : x ++ a :: y = x' ++ a :: y') : x = x' ∧ y = y' := by
  induction x generalizing x' with
  | nil =>
    cases x' with
    | nil => exact ⟨rfl, (List.cons.inj h).2⟩
    | cons b x' =>
      obtain ⟨rfl, -⟩ := List.cons.inj h
      exact absurd List.mem_cons_self hx'
  | cons b x ih =>
    cases x' with
    | nil =>
      obtain ⟨rfl, -⟩ := List.cons.inj h
      exact absurd List.mem_cons_self hx
    | cons b' x' =>
      obtain ⟨rfl, htail⟩ := List.cons.inj h
      obtain ⟨rfl, rfl⟩ := ih (fun hm => hx (List.mem_cons_of_mem _ hm))
        (fun hm => hx' (List.mem_cons_of_mem _ hm)) htail
      exact ⟨rfl, rfl⟩

/-- Texts without a closing bracket can be read off again. -/
theorem brackets_inj {ts ts' : List Text} (h : ∀ t ∈ ts, (93 : UInt8) ∉ t)
    (h' : ∀ t ∈ ts', (93 : UInt8) ∉ t) : brackets ts = brackets ts' ↔ ts = ts' := by
  refine ⟨fun heq => ?_, fun heq => by rw [heq]⟩
  induction ts generalizing ts' with
  | nil =>
    cases ts' with
    | nil => rfl
    | cons t' ts' => simp [brackets, text] at heq
  | cons t ts ih =>
    cases ts' with
    | nil => simp [brackets, text] at heq
    | cons t' ts' =>
      have hsplit : ∀ (u : Text) (us : List Text),
          brackets (u :: us) = 91 :: (u ++ 93 :: brackets us) := by
        intro u us
        simp [brackets, text]
      rw [hsplit, hsplit] at heq
      obtain ⟨rfl, hrest⟩ := append_cons_inj (h t List.mem_cons_self) (h' t' List.mem_cons_self)
        (List.cons.inj heq).2
      rw [ih (fun u hu => h u (List.mem_cons_of_mem _ hu))
        (fun u hu => h' u (List.mem_cons_of_mem _ hu)) hrest]

/-! ## The text of an entry -/

/-- The type word, and the name of the type filled up to a width. -/
def typeColumn (type : UInt16) (width : ℕ) : Text :=
  printHex 4 type.toNat ++ text "-" ++ getTagType type (text "UNKN") ++
    List.replicate (width - (getTagType type (text "UNKN")).length) 32 ++ text ":  "

/-- The dimensions as they are printed. -/
def hexDimensions (e : TagEntry) : List Text :=
  ((List.finRange 3).take e.numDimensions.toNat).map fun i => printHex 0 (e.dimensions i).toNat

/-- After the type column the text says this name, and these dimensions in decimal. -/
def Says (width : ℕ) (e : TagEntry) (name : Text) (dims : List ℕ) : Prop :=
  formatTagDisplay e width = typeColumn e.type width ++ (name ++ brackets (dims.map printNat))

theorem formatTagDisplay_eq (e : TagEntry) (width : ℕ) :
    formatTagDisplay e width =
      typeColumn e.type width ++ (makeTagName e ++ brackets (hexDimensions e)) := by
  have hname : (if e.parentName = [] then [] else e.parentName ++ text ".") ++ e.name =
      makeTagName e := by
    unfold makeTagName
    by_cases hnil : e.parentName = []
    · simp [hnil]
    · rw [if_neg hnil, if_pos (List.length_pos_of_ne_nil hnil)]
  have hdims : ∀ d : Fin 3 → Text,
      (if (0 : Fin 3).val < e.numDimensions.toNat then text "[" ++ d 0 ++ text "]" else []) ++
        (if (1 : Fin 3).val < e.numDimensions.toNat then text "[" ++ d 1 ++ text "]" else []) ++
        (if (2 : Fin 3).val < e.numDimensions.toNat then text "[" ++ d 2 ++ text "]" else []) =
      brackets (((List.finRange 3).take e.numDimensions.toNat).map d) := by
    intro d
    have hfin : List.finRange 3 = [0, 1, 2] := by decide
    rw [hfin]
    match e.numDimensions.toNat with
    | 0 => rfl
    | 1 => simp [brackets]
    | 2 => simp [brackets]
    | n + 3 => simp [brackets]
  unfold formatTagDisplay typeColumn hexDimensions
  dsimp only
  rw [← hname, ← hdims]
  simp only [List.append_assoc]

theorem says_iff (width : ℕ) (e : TagEntry) (name : Text) (dims : List ℕ) :
    Says width e name dims ↔
      makeTagName e ++ brackets (hexDimensions e) = name ++ brackets (dims.map printNat) := by
  rw [Says, formatTagDisplay_eq, List.append_cancel_left_eq]

theorem mem_printHex {n : ℕ} {b : UInt8} (h : b ∈ printHex 0 n) : b ≠ 93 ∧ b ≠ 46 := by
  have hdigit : ∀ d < 16, UInt8.ofNat (if d < 10 then 48 + d else 87 + d) ≠ 93 ∧
      UInt8.ofNat (if d < 10 then 48 + d else 87 + d) ≠ 46 := by decide
  unfold printHex at h
  simp only [Nat.zero_sub, List.replicate_zero, List.nil_append] at h
  split at h
  · obtain rfl := List.mem_singleton.mp h
    exact hdigit 0 (by decide)
  · obtain ⟨d, hd, rfl⟩ := List.mem_map.mp (List.mem_reverse.mp h)
    exact hdigit d (Nat.digits_lt_base (by decide) hd)

theorem mem_printNat_ne {n : ℕ} {b : UInt8} (h : b ∈ printNat n) : b ≠ 93 ∧ b ≠ 46 := by
  obtain ⟨d, hd, rfl⟩ := mem_printNat n b h
  exact (by decide : ∀ d < 10, digitByte d ≠ 93 ∧ digitByte d ≠ 46) d hd

theorem dot_not_mem_brackets {ts : List Text} (h : ∀ t ∈ ts, (46 : UInt8) ∉ t) :
    (46 : UInt8) ∉ brackets ts := by
  intro hmem
  obtain ⟨t, ht, hmem⟩ := List.mem_flatMap.mp hmem
  have hparts : (46 : UInt8) ∈ text "[" ∨ (46 : UInt8) ∈ t ∨ (46 : UInt8) ∈ text "]" := by
    simpa [or_assoc] using hmem
  rcases hparts with hopen | hin | hclose
  · exact absurd hopen (by decide)
  · exact h t ht hin
  · exact absurd hclose (by decide)

/-- A name that is prefixed once more is longer by a dot. -/
theorem prefixed_ne {p name b b' : Text} (hb : (46 : UInt8) ∉ b) (hb' : (46 : UInt8) ∉ b') :
    (p ++ text "." ++ name) ++ b ≠ name ++ b' := by
  intro h
  have hcount := congrArg (List.count (46 : UInt8)) h
  have hdot : List.count (46 : UInt8) (text ".") = 1 := by decide
  simp only [List.count_append, hdot, List.count_eq_zero_of_not_mem hb,
    List.count_eq_zero_of_not_mem hb'] at hcount
  omega

/-! ## What a listing keeps -/

/-- What stands before the name of a program's tag. -/
def qualifier : Option Text → Text
  | none => []
  | some p => p ++ text "."

/-- A record that is kept, with the program it belongs to. -/
structure Source where
  program : Option Text
  record : Record

namespace Source

def node (x : Source) : TagNode := x.record.node x.program

/-- Program name, `.`, tag name; a controller tag has its own name only. -/
def fullName (x : Source) : Text := qualifier x.program ++ x.record.name

/-- How many dimensions the tag has, at most 3. -/
def rank (x : Source) : ℕ := ((x.record.type &&& tagDimMask) >>> 13).toNat

/-- The dimensions of the controller's record. -/
def dimensions (x : Source) : List ℕ :=
  ((List.finRange 3).take x.rank).map fun i => (x.record.dims i).toNat

end Source

/-- The records of a listing in the order of its entries: the last program's first, and the
controller's own behind them. -/
def sources (plc : Plc) (base : Text) (ctrl : List Record) (prog : Text → List Record) :
    List Source :=
  ((kept plc (ctrlString base) 0 ctrl).filter Record.isProgram).flatMap (fun p =>
    ((kept plc (progString base p.name) 0 (prog p.name)).map (Source.mk (some p.name))).reverse) ++
  ((kept plc (ctrlString base) 0 ctrl).map (Source.mk none)).reverse

theorem program_ne_nil {plc : Plc} {base : Text} {ctrl : List Record} {prog : Text → List Record}
    {x : Source} (hx : x ∈ sources plc base ctrl prog) (p : Text)
    (hp : x.program = some p) : p ≠ [] := by
  rcases List.mem_append.mp hx with hx | hx
  · obtain ⟨r, hr, hx⟩ := List.mem_flatMap.mp hx
    obtain ⟨r', -, rfl⟩ := List.mem_map.mp (List.mem_reverse.mp hx)
    have hprogram : Listing.isProgram r.name = true := (List.mem_filter.mp hr).2
    cases hp
    rintro hnil
    rw [hnil] at hprogram
    exact absurd hprogram (by decide)
  · obtain ⟨r', -, rfl⟩ := List.mem_map.mp (List.mem_reverse.mp hx)
    cases hp

theorem map_node_sources (plc : Plc) (base : Text) (ctrl : List Record)
    (prog : Text → List Record) :
    (sources plc base ctrl prog).map Source.node =
      ((kept plc (ctrlString base) 0 ctrl).filter Record.isProgram).flatMap
          (programNodes plc base prog) ++
        ((kept plc (ctrlString base) 0 ctrl).map (Record.node none)).reverse := by
  simp only [sources, List.map_append, List.map_flatMap, List.map_reverse, List.map_map]
  rfl

/-- What the export makes of entry `i`: one word of memory where the first dimension should be. -/
structure Exported (heap : ℕ → UInt16) (i : ℕ) (x : Source) (e : TagEntry) : Prop where
  name : e.name = x.record.name
  parentName : e.parentName = x.program.getD []
  numDimensions : e.numDimensions.toNat = x.rank
  dimensions : ∀ j, e.dimensions j = if j = 0 then heap i else 0

theorem exported_exportEntries (heap : ℕ → UInt16) (k : ℕ) (xs : List Source)
    {entries : List TagEntry} (h : exportEntries heap k (xs.map Source.node) = .ok entries) :
    entries.length = xs.length ∧ ∀ i x e, xs[i]? = some x → entries[i]? = some e →
      Exported heap (k + i) x e := by
  induction xs generalizing k entries with
  | nil =>
    obtain rfl := Except.ok.inj h
    exact ⟨rfl, fun i x e hx => by simp at hx⟩
  | cons y xs ih =>
    obtain ⟨nextName, hnext, h⟩ := Listing.ok_of_bind h
    obtain ⟨name, hname, h⟩ := Listing.ok_of_bind h
    obtain ⟨es, hes, h⟩ := Listing.ok_of_bind h
    obtain rfl := Except.ok.inj h
    obtain rfl : y.record.name = name := Except.ok.inj hname
    obtain ⟨hlen, hall⟩ := ih (k + 1) hes
    refine ⟨by simp [hlen], fun i x e hx he => ?_⟩
    cases i with
    | zero =>
      obtain rfl : y = x := by simpa using hx
      obtain rfl := Option.some.inj he
      exact ⟨rfl, rfl, rfl, fun j => rfl⟩
    | succ i =>
      have hrest := hall i x e (by simpa using hx) (by simpa using he)
      rwa [show k + 1 + i = k + (i + 1) by omega] at hrest

/-! ## The texts shown -/

/-- The word that the export puts first looks like the first dimension, and the others are 0. -/
def Legible (word : UInt16) (x : Source) : Prop :=
  (0 < x.rank → printHex 0 word.toNat = printNat (x.record.dims 0).toNat) ∧
    (1 < x.rank → x.record.dims 1 = 0) ∧ (2 < x.rank → x.record.dims 2 = 0)

theorem mem_take_finRange (j : Fin 3) (n : ℕ) : j ∈ (List.finRange 3).take n ↔ j.val < n := by
  match n with
  | 0 => simp
  | 1 => revert j; decide
  | 2 => revert j; decide
  | n + 3 =>
    rw [List.take_of_length_le (by simp)]
    exact iff_of_true (List.mem_finRange j) (by omega)

section Exported
variable {heap : ℕ → UInt16} {i : ℕ} {x : Source} {e : TagEntry}

theorem hexDimensions_eq_iff (h : Exported heap i x e) :
    hexDimensions e = x.dimensions.map printNat ↔ Legible (heap i) x := by
  have hzero : printHex 0 0 = printNat 0 := by decide
  have hother : ∀ d : UInt32, printHex 0 0 = printNat d.toNat ↔ d = 0 := by
    intro d
    rw [hzero]
    constructor
    · intro hd
      exact UInt32.toNat_inj.mp (printNat_injective hd).symm
    · rintro rfl
      rfl
  unfold hexDimensions Source.dimensions
  rw [h.numDimensions, List.map_map, List.map_inj_left]
  simp only [mem_take_finRange, h.dimensions, Function.comp_apply, Fin.forall_fin_succ]
  simp [Legible, hother]

theorem qualifier_eq (e : TagEntry) {program : Option Text}
    (hparent : e.parentName = program.getD []) (hne : ∀ p, program = some p → p ≠ []) :
    (if e.parentName.length > 0 then e.parentName ++ text "." else []) = qualifier program := by
  rw [hparent]
  cases hp : program with
  | none => rfl
  | some p => exact if_pos (List.length_pos_of_ne_nil (hne p hp))

theorem makeTagName_exported (h : Exported heap i x e) (hne : ∀ p, x.program = some p → p ≠ []) :
    makeTagName e = x.fullName := by
  rw [makeTagName, qualifier_eq e h.parentName hne, h.name]
  rfl

theorem dot_not_mem_hexDimensions (e : TagEntry) : ∀ t ∈ hexDimensions e, (46 : UInt8) ∉ t := by
  intro t ht hdot
  obtain ⟨j, -, rfl⟩ := List.mem_map.mp ht
  exact (mem_printHex hdot).2 rfl

theorem dot_not_mem_printed (dims : List ℕ) : ∀ t ∈ dims.map printNat, (46 : UInt8) ∉ t := by
  intro t ht hdot
  obtain ⟨d, -, rfl⟩ := List.mem_map.mp ht
  exact (mem_printNat_ne hdot).2 rfl

theorem brackets_dimensions_iff (e : TagEntry) (dims : List ℕ) :
    brackets (hexDimensions e) = brackets (dims.map printNat) ↔
      hexDimensions e = dims.map printNat := by
  refine brackets_inj (fun t ht hclose => ?_) fun t ht hclose => ?_
  · obtain ⟨j, -, rfl⟩ := List.mem_map.mp ht
    exact (mem_printHex hclose).1 rfl
  · obtain ⟨d, -, rfl⟩ := List.mem_map.mp ht
    exact (mem_printNat_ne hclose).1 rfl

theorem says_displayed_iff (h : Exported heap i x e) (hne : ∀ p, x.program = some p → p ≠ []) :
    Says 18 e x.fullName x.dimensions ↔ Legible (heap i) x := by
  rw [says_iff, makeTagName_exported h hne, List.append_cancel_left_eq, brackets_dimensions_iff,
    hexDimensions_eq_iff h]

/-- The name that the create loop puts into an entry is printed behind its program once more. -/
theorem makeTagName_profiledEntry (e : TagEntry) {program : Option Text}
    (hparent : e.parentName = program.getD []) (hne : ∀ p, program = some p → p ≠ []) :
    makeTagName (profiledEntry e) = qualifier program ++ makeTagName e := by
  rw [← qualifier_eq e hparent hne]
  rfl

/-- A text of the create loop says a name exactly when there is no program to print twice. -/
theorem says_collected_iff {program : Option Text} (hparent : e.parentName = program.getD [])
    (hne : ∀ p, program = some p → p ≠ []) (dims : List ℕ) :
    Says 10 (profiledEntry e) (makeTagName e) dims ↔
      program = none ∧ hexDimensions e = dims.map printNat := by
  rw [says_iff, makeTagName_profiledEntry e hparent hne]
  cases program with
  | none =>
    show makeTagName e ++ brackets (hexDimensions e) = _ ↔ _
    rw [List.append_cancel_left_eq, brackets_dimensions_iff]
    exact (and_iff_right rfl).symm
  | some p =>
    refine iff_of_false ?_ fun h => Option.some_ne_none p h.1
    exact prefixed_ne (dot_not_mem_brackets (dot_not_mem_hexDimensions _))
      (dot_not_mem_brackets (dot_not_mem_printed dims))

end Exported

/-! ## The lists on the screen -/

/-- The entries of a profile run are those of its listing, and the members of these. -/
theorem profileMade_of_entries {con : Console} {ui : NCursesUI} {types gateway path : Text} {rc : ℤ}
    {entries : List TagEntry} {tr : Trace} {o : Except Fault NCursesUI}
    (h : Runs (ui.profileTags con types) (⟨.listTags gateway path, (rc, entries)⟩ :: tr) o) :
    ∀ p ∈ profileMade types (⟨.listTags gateway path, (rc, entries)⟩ :: tr), ∃ e ∈ entries,
      p.1 = profiledEntry e ∨ ∃ m ∈ memberList e, p.1 = profiledEntry (m.entry e) := by
  intro p hp
  cases hes : expandTags entries with
  | none =>
    rw [profileMade_cons, hes] at hp
    change p ∈ made [] tr at hp
    simp [made] at hp
  | some r =>
    obtain ⟨expanded, fleshed⟩ := r
    obtain ⟨trC, rest, rfl, hasks, hloop, -⟩ := NCursesUI.asks_profileTags h hes
    rw [profileMade_cons, hes] at hp
    change p ∈ made (profiled types expanded) (trC ++ rest) at hp
    rw [hloop.made_append] at hp
    obtain ⟨e', he', hpe⟩ := List.mem_map.mp (hasks.made_subset p hp)
    have hmem := (expandTags_perm entries expanded fleshed hes).1.mem_iff.mp
      (List.mem_filter.mp he').1
    rcases List.mem_append.mp hmem with hmem | hmem
    · exact ⟨e', (List.mem_filter.mp hmem).1, .inl hpe.symm⟩
    · obtain ⟨e, he, hmem⟩ := List.mem_flatMap.mp hmem
      obtain ⟨m, hm, rfl⟩ := List.mem_map.mp hmem
      exact ⟨e, he, .inr ⟨m, hm, hpe.symm⟩⟩

/-- What is shown of the entry `e` of the record `x`: by `displayTags` its own text, by `profileTags`
the text of the entry or of one of its members. -/
structure Shown (word : UInt16) (x : Source) (e : TagEntry) : Prop where
  displayed : Says 18 e x.fullName x.dimensions ↔ Legible word x
  collected : Says 10 (profiledEntry e) x.fullName x.dimensions ↔
    x.program = none ∧ Legible word x
  member : ∀ m ∈ memberList e,
    (Says 10 (profiledEntry (m.entry e)) (x.fullName ++ m.suffix) [] ↔ x.program = none)

/-- For every listing of well-formed records: when the texts of its entries say what they should. -/
theorem listTags_shown {plc : Plc} {turns : ℕ} {gateway path base : Text} {ctrl : List Record}
    {prog : Text → List Record} {s s' : Statics} {entries : List TagEntry}
    (hbase : base = tagStringBase gateway path) (hctrl : Holds (plc.tag (ctrlString base)) ctrl)
    (hprog : ∀ p ∈ ctrl, p.isProgram = true →
      Holds (plc.tag (progString base p.name)) (prog p.name))
    (hok : Listing.listTags plc turns gateway path s = .ok (0, entries) s') :
    entries.length = (sources plc base ctrl prog).length ∧
    (∀ i x e, (sources plc base ctrl prog)[i]? = some x → entries[i]? = some e →
      Shown (plc.heap i) x e) ∧
    ∀ (con : Console) (ui : NCursesUI) (types gateway path : Text) (rc : ℤ) (tr : Trace)
      (o : Except Fault NCursesUI),
      Runs (ui.profileTags con types) (⟨.listTags gateway path, (rc, entries)⟩ :: tr) o →
        ∀ p ∈ profileMade types (⟨.listTags gateway path, (rc, entries)⟩ :: tr), ∃ e ∈ entries,
          p.1 = profiledEntry e ∨ ∃ m ∈ memberList e, p.1 = profiledEntry (m.entry e) := by
  subst hbase
  have hversion : plc.checkLibVersion = plctagStatusOk := by
    by_contra hversion
    rw [Listing.listTags_version s hversion] at hok
    exact Int.one_ne_zero (congrArg Prod.fst (EStateM.Result.ok.inj hok).1)
  obtain ⟨-, base, tagList, s₁, hlist, -, hexport, -⟩ := Listing.listTags_ok s hok hversion
  obtain ⟨rfl, htags⟩ := Listing.tagListing_records hctrl hprog hlist
  rw [htags, ← map_node_sources] at hexport
  obtain ⟨hlen, hall⟩ := exported_exportEntries plc.heap 0 _ hexport
  refine ⟨hlen, fun i x e hx he => ?_, fun con ui types gateway path rc tr o h =>
    profileMade_of_entries h⟩
  have hexported : Exported plc.heap i x e := by
    have h := hall i x e hx he
    rwa [Nat.zero_add] at h
  have hne := program_ne_nil (List.mem_of_getElem? hx)
  have hname := makeTagName_exported hexported hne
  refine ⟨says_displayed_iff hexported hne, ?_, fun m _ => ?_⟩
  · rw [← hname, says_collected_iff hexported.parentName hne, hexDimensions_eq_iff hexported]
  · rw [← hname, ← makeTagName_entry, says_collected_iff (e := m.entry e) hexported.parentName hne]
    exact and_iff_left rfl

instance (width : ℕ) (e : TagEntry) (name : Text) (dims : List ℕ) :
    Decidable (Says width e name dims) :=
  inferInstanceAs (Decidable (_ = _))

/-- The sample controller, and a 7 behind the dimensions of the first entry. -/
def shownPlc : Listing.Plc :=
  { Listing.samplePlc with heap := fun i => if i = 0 then 7 else 0 }

/-- The array of the program is the first entry and is displayed with its dimension; the scalar tag is
the last one and shows its name in a profile run, too. -/
theorem listTags_shown_sample : ∃ entries s e e',
    Listing.listTags shownPlc 2 (text "g") (text "1") Listing.fresh = .ok (0, entries) s ∧
      entries[0]? = some e ∧ Says 18 e (text "Program:P.B") [7] ∧
      entries[2]? = some e' ∧ Says 10 (profiledEntry e') (text "A") [] := by
  have hrun : (EStateM.run' (Listing.listTags shownPlc 2 (text "g") (text "1"))
      Listing.fresh).any (fun x => decide (x.1 = 0 ∧ x.2.length = 3)) = true := by decide +kernel
  obtain ⟨⟨rc, entries⟩, s, hok, htest⟩ := Listing.exists_ok_of_any hrun
  obtain ⟨rfl, hlen⟩ : rc = 0 ∧ entries.length = 3 := of_decide_eq_true htest
  have hfirst : 0 < entries.length := by omega
  have hlast : 2 < entries.length := by omega
  obtain ⟨array, harray, hname, hdims, hlegible⟩ : ∃ array, (sources shownPlc Listing.sampleBase
      Listing.sampleCtrl Listing.sampleProg)[0]? = some array ∧
        array.fullName = text "Program:P.B" ∧ array.dimensions = [7] ∧
        Legible (shownPlc.heap 0) array :=
    ⟨_, rfl, by decide +kernel, by decide +kernel, fun _ => by decide +kernel,
      fun h => absurd h (by decide), fun h => absurd h (by decide)⟩
  obtain ⟨scalar, hscalar, hname', hdims', hlegible', hprogram⟩ : ∃ scalar, (sources shownPlc
      Listing.sampleBase Listing.sampleCtrl Listing.sampleProg)[2]? = some scalar ∧
        scalar.fullName = text "A" ∧ scalar.dimensions = [] ∧
        Legible (shownPlc.heap 2) scalar ∧ scalar.program = none :=
    ⟨_, rfl, by decide +kernel, by decide +kernel, ⟨fun h => absurd h (by decide),
      fun h => absurd h (by decide), fun h => absurd h (by decide)⟩, rfl⟩
  have hctrl : Holds (shownPlc.tag (ctrlString Listing.sampleBase)) Listing.sampleCtrl :=
    Listing.holds_sampleCtrl
  have hprog : ∀ p ∈ Listing.sampleCtrl, p.isProgram = true →
      Holds (shownPlc.tag (progString Listing.sampleBase p.name)) (Listing.sampleProg p.name) :=
    Listing.holds_sampleProg
  have hshown := (listTags_shown rfl hctrl hprog hok).2.1
  have hdisplayed := (hshown 0 _ _ harray (List.getElem?_eq_getElem hfirst)).displayed.mpr hlegible
  have hcollected :=
    (hshown 2 _ _ hscalar (List.getElem?_eq_getElem hlast)).collected.mpr ⟨hprogram, hlegible'⟩
  rw [hname, hdims] at hdisplayed
  rw [hname', hdims'] at hcollected
  exact ⟨entries, s, _, _, hok, List.getElem?_eq_getElem hfirst, hdisplayed,
    List.getElem?_eq_getElem hlast, hcollected⟩

/-- `Program:P.B[7]` of the sample controller is shown with a dimension of 0, and in a profile run
behind its program's name twice. -/
theorem listTags_shown_wrong : ∃ entries s e,
    Listing.listTags Listing.samplePlc 2 (text "g") (text "1") Listing.fresh = .ok (0, entries) s ∧
      entries[0]? = some e ∧
      formatTagDisplay e 18 = text "20c3-INT               :  Program:P.B[0]" ∧
      ¬ Says 18 e (text "Program:P.B") [7] ∧
      formatTagDisplay (profiledEntry e) 10 = text "20c3-INT       :  Program:P.Program:P.B[0]" ∧
      ¬ Says 10 (profiledEntry e) (text "Program:P.B") [7] := by
  have hrun : (EStateM.run' (Listing.listTags Listing.samplePlc 2 (text "g") (text "1"))
      Listing.fresh).any (fun x => decide (x.1 = 0 ∧ ∃ e ∈ x.2[0]?,
        formatTagDisplay e 18 = text "20c3-INT               :  Program:P.B[0]" ∧
        ¬ Says 18 e (text "Program:P.B") [7] ∧
        formatTagDisplay (profiledEntry e) 10 =
          text "20c3-INT       :  Program:P.Program:P.B[0]" ∧
        ¬ Says 10 (profiledEntry e) (text "Program:P.B") [7])) = true := by decide +kernel
  obtain ⟨⟨rc, entries⟩, s, hok, htest⟩ := Listing.exists_ok_of_any hrun
  obtain ⟨hrc, e, he, htexts⟩ := of_decide_eq_true htest
  exact ⟨entries, s, e, by rw [hok, ← hrc], he, htexts⟩

end Plctagt.Gui
