import Plctagt.Foundations.Lines
import Plctagt.Tag.Types

/-! # What the library reads from a tag string

`plc_tag_create` takes the string of `buildTagstring` apart again: at every `&`, and each part at its
first `=`. Nothing in a value can stand for an `&`, and a value must not be empty. So the attributes
are those that were entered as long as no entered text is empty or has an `&`; a `=` in one does no
harm.
-/
namespace Plctagt.Tag
open Decimal Lines
set_option autoImplicit false

/-! ## `attr.c` -/

/-- `struct attr_entry_t`, less the link. -/
structure AttrEntry where
  name : Text
  val : Text
  deriving DecidableEq

/-- `str_split` at `&`: the parts that are not empty. -/
def strSplit (str : Text) : List Text := (str.splitOn 38).filter (· ≠ [])

/-- The key without the spaces around it. -/
def trimKey (key : Text) : Text := (key.dropWhile (· = 32)).rdropWhile (· = 32)

/-- `attr_set_str`: a new entry is linked in at the head. -/
def attrSetStr (attrs : List AttrEntry) (name val : Text) : List AttrEntry :=
  let e := attrs.findIdx fun e => e.name = name
  if e < attrs.length then attrs.modify e fun e => { e with val := val } else ⟨name, val⟩ :: attrs

/-- The body of the loop in `attr_create_from_str`. -/
def attrSetPair (attrs : List AttrEntry) (kvPair : Text) : Option (List AttrEntry) :=
  if (61 : UInt8) ∉ kvPair then none
  else
    let key := trimKey (kvPair.takeWhile (· ≠ 61))
    let value := (kvPair.dropWhile (· ≠ 61)).tail
    if key = [] ∨ value = [] then none else some (attrSetStr attrs key value)

/-- `attr_create_from_str`, with memory for the list. -/
def attrCreateFromStr (attrStr : Text) : Option (List AttrEntry) :=
  if attrStr = [] then none else (strSplit attrStr).foldlM attrSetPair []

/-! ## What can be read at all -/

/-- The text stands for itself as a value. -/
def Writable (v : Text) : Prop := v ≠ [] ∧ (38 : UInt8) ∉ v

instance decidableWritable (v : Text) : Decidable (Writable v) := inferInstanceAs (Decidable (_ ∧ _))

theorem val_of_mem_attrSetStr {attrs : List AttrEntry} {name val : Text} {P : Text → Prop}
    (h : ∀ e ∈ attrs, P e.val) (hval : P val) : ∀ e ∈ attrSetStr attrs name val, P e.val := by
  unfold attrSetStr
  dsimp only
  split
  · next hlt =>
    obtain ⟨l₁, a, l₂, hattrs, -, hmodify⟩ :=
      List.exists_of_modify (fun e : AttrEntry => { e with val := val }) hlt
    rw [hattrs] at h
    rw [hmodify]
    intro e he
    rcases List.mem_append.mp he with he | he
    · exact h e (List.mem_append_left _ he)
    · rcases List.mem_cons.mp he with rfl | he
      · exact hval
      · exact h e (List.mem_append_right _ (List.mem_cons_of_mem a he))
  · intro e he
    rcases List.mem_cons.mp he with rfl | he
    · exact hval
    · exact h e he

/-- One part of the string. -/
theorem writable_attrSetPair {attrs attrs' : List AttrEntry} {kvPair : Text}
    (h : ∀ e ∈ attrs, Writable e.val) (hpair : (38 : UInt8) ∉ kvPair)
    (hset : attrSetPair attrs kvPair = some attrs') : ∀ e ∈ attrs', Writable e.val := by
  unfold attrSetPair at hset
  dsimp only at hset
  split_ifs at hset with hsep hempty
  obtain rfl := Option.some.inj hset
  refine val_of_mem_attrSetStr h ⟨fun hval => hempty (.inr hval), fun hmem => hpair ?_⟩
  exact (List.dropWhile_suffix _).subset (List.mem_of_mem_tail hmem)

theorem writable_attrSetPairs {pairs : List Text} (hpairs : ∀ p ∈ pairs, (38 : UInt8) ∉ p)
    {attrs attrs' : List AttrEntry} (h : ∀ e ∈ attrs, Writable e.val)
    (hrun : pairs.foldlM attrSetPair attrs = some attrs') : ∀ e ∈ attrs', Writable e.val := by
  induction pairs generalizing attrs with
  | nil =>
    obtain rfl := Option.some.inj hrun
    exact h
  | cons p pairs ih =>
    obtain ⟨hp, hpairs⟩ := List.forall_mem_cons.mp hpairs
    rw [List.foldlM_cons] at hrun
    obtain ⟨attrs₁, hset, hrun⟩ := Option.bind_eq_some_iff.mp hrun
    exact ih hpairs (writable_attrSetPair h hp hset) hrun

/-- Whatever the string, no value that is read is empty or has an `&`. -/
theorem writable_attrCreateFromStr {attrStr : Text} {attrs : List AttrEntry}
    (h : attrCreateFromStr attrStr = some attrs) : ∀ e ∈ attrs, Writable e.val := by
  unfold attrCreateFromStr at h
  split_ifs at h
  refine writable_attrSetPairs (fun p hp => ?_) (fun e he => absurd he List.not_mem_nil) h
  exact not_mem_of_mem_splitOn p (List.mem_of_mem_filter hp)

/-! ## What was entered -/

/-- A part of the string. -/
def AttrEntry.pair (e : AttrEntry) : Text := e.name ++ 61 :: e.val

/-- The names that `buildTagstring` writes: they are not changed by the parser. -/
def Plain (name : Text) : Prop := name ≠ [] ∧ ∀ b ∈ name, b ≠ 38 ∧ b ≠ 61 ∧ b ≠ 32

instance decidablePlain (name : Text) : Decidable (Plain name) := inferInstanceAs (Decidable (_ ∧ _))

theorem trimKey_plain {name : Text} (h : Plain name) : trimKey name = name := by
  have hleft : name.dropWhile (· = 32) = name :=
    List.dropWhile_eq_self_iff.mpr fun hlen => by
      simpa using (h.2 _ (List.getElem_mem hlen)).2.2
  rw [trimKey, hleft, List.rdropWhile_eq_self_iff]
  intro hne
  simpa using (h.2 _ (List.getLast_mem hne)).2.2

theorem attrSetPair_pair {attrs : List AttrEntry} {e : AttrEntry} (hname : Plain e.name)
    (hval : e.val ≠ []) (hnew : ∀ e' ∈ attrs, e'.name ≠ e.name) :
    attrSetPair attrs e.pair = some (e :: attrs) := by
  have hsep : (61 : UInt8) ∈ e.pair := List.mem_append_right _ List.mem_cons_self
  have hmem : (61 : UInt8) ∉ e.name := fun h => (hname.2 61 h).2.1 rfl
  have hkey : e.pair.takeWhile (· ≠ 61) = e.name := takeWhile_append_sep hmem e.val
  have hvalue : e.pair.dropWhile (· ≠ 61) = 61 :: e.val := dropWhile_append_sep hmem e.val
  have hnone : (attrs.findIdx fun e' => e'.name = e.name) = attrs.length :=
    List.findIdx_eq_length.mpr fun e' he' => decide_eq_false (hnew e' he')
  unfold attrSetPair
  dsimp only
  rw [if_neg (not_not.mpr hsep), hkey, hvalue, trimKey_plain hname, List.tail_cons,
    if_neg (not_or.mpr ⟨hname.1, hval⟩), attrSetStr, hnone, if_neg (lt_irrefl _)]

theorem attrSetPairs_pairs {es attrs : List AttrEntry} (hnames : ∀ e ∈ es, Plain e.name)
    (hvals : ∀ e ∈ es, Writable e.val) (hnodup : (es.map AttrEntry.name).Nodup)
    (hnew : ∀ e ∈ es, ∀ e' ∈ attrs, e'.name ≠ e.name) :
    (es.map AttrEntry.pair).foldlM attrSetPair attrs = some (es.reverse ++ attrs) := by
  induction es generalizing attrs with
  | nil => rfl
  | cons e es ih =>
    obtain ⟨hname, hnames⟩ := List.forall_mem_cons.mp hnames
    obtain ⟨hval, hvals⟩ := List.forall_mem_cons.mp hvals
    obtain ⟨hfirst, hnodup⟩ := List.nodup_cons.mp hnodup
    have hset := attrSetPair_pair hname hval.1 (hnew e List.mem_cons_self)
    have hrest : (es.map AttrEntry.pair).foldlM attrSetPair (e :: attrs) =
        some (es.reverse ++ e :: attrs) := by
      refine ih hnames hvals hnodup fun e' he' e'' he'' => ?_
      rcases List.mem_cons.mp he'' with rfl | he''
      · exact fun heq => hfirst (heq ▸ List.mem_map.mpr ⟨e', he', rfl⟩)
      · exact hnew e' (List.mem_cons_of_mem e he') e'' he''
    rw [List.map_cons, List.foldlM_cons, hset, List.reverse_cons, List.append_assoc]
    exact hrest

theorem pair_ne_nil (e : AttrEntry) : e.pair ≠ [] :=
  List.append_ne_nil_of_right_ne_nil e.name (List.cons_ne_nil 61 e.val)

theorem not_mem_pair {e : AttrEntry} (hname : Plain e.name) (hval : Writable e.val) :
    (38 : UInt8) ∉ e.pair := by
  intro hmem
  rcases List.mem_append.mp hmem with hmem | hmem
  · exact (hname.2 38 hmem).1 rfl
  · rcases List.mem_cons.mp hmem with hmem | hmem
    · exact absurd hmem (by decide)
    · exact hval.2 hmem

theorem strSplit_pairs {es : List AttrEntry} (hes : es ≠ []) (hnames : ∀ e ∈ es, Plain e.name)
    (hvals : ∀ e ∈ es, Writable e.val) :
    strSplit ([38].intercalate (es.map AttrEntry.pair)) = es.map AttrEntry.pair := by
  have hparts : ∀ p ∈ es.map AttrEntry.pair, (38 : UInt8) ∉ p := by
    intro p hp
    obtain ⟨e, he, rfl⟩ := List.mem_map.mp hp
    exact not_mem_pair (hnames e he) (hvals e he)
  rw [strSplit, List.splitOn_intercalate 38 hparts (fun h => hes (List.map_eq_nil_iff.mp h)),
    List.filter_eq_self]
  intro p hp
  obtain ⟨e, he, rfl⟩ := List.mem_map.mp hp
  exact decide_eq_true (pair_ne_nil e)

/-- Entries of different plain names, whose values can be written, are read back. -/
theorem attrCreateFromStr_pairs {es : List AttrEntry} (hes : es ≠ [])
    (hnames : ∀ e ∈ es, Plain e.name) (hvals : ∀ e ∈ es, Writable e.val)
    (hnodup : (es.map AttrEntry.name).Nodup) :
    attrCreateFromStr ([38].intercalate (es.map AttrEntry.pair)) = some es.reverse := by
  have hsplit := strSplit_pairs hes hnames hvals
  have hne : [38].intercalate (es.map AttrEntry.pair) ≠ [] := by
    intro hnil
    rw [hnil] at hsplit
    exact hes (List.map_eq_nil_iff.mp hsplit.symm)
  have hrun := attrSetPairs_pairs hnames hvals hnodup
    fun e _ e' (he' : e' ∈ []) => absurd he' List.not_mem_nil
  rw [attrCreateFromStr, if_neg hne, hsplit, hrun, List.append_nil]

/-- The attributes that stand for the entered texts. -/
def entered (gateway tagname : Text) (count : ℤ) (path cpu protocol : Text) : List AttrEntry :=
  [⟨text "protocol", protocol⟩, ⟨text "gateway", gateway⟩, ⟨text "name", tagname⟩,
    ⟨text "elem_count", printInt count⟩] ++
    if protocol = text "modbus_tcp" then [⟨text "path", text "0"⟩]
    else [⟨text "cpu", cpu⟩, ⟨text "path", path⟩]

variable {gateway tagname path cpu protocol : Text} {count : ℤ}

theorem buildTagstring_eq :
    buildTagstring gateway tagname count path cpu protocol =
      [38].intercalate ((entered gateway tagname count path cpu protocol).map AttrEntry.pair) := by
  unfold buildTagstring entered
  split
  · simp [AttrEntry.pair, List.intercalate_cons_cons, text]
  · simp [AttrEntry.pair, List.intercalate_cons_cons, text]

theorem printInt_ne_nil (n : ℤ) : printInt n ≠ [] := by
  unfold printInt
  split
  · exact List.cons_ne_nil _ _
  · exact printNat_ne_nil _

theorem forall_entered {P : AttrEntry → Prop} :
    (∀ e ∈ entered gateway tagname count path cpu protocol, P e) ↔
      P ⟨text "protocol", protocol⟩ ∧ P ⟨text "gateway", gateway⟩ ∧ P ⟨text "name", tagname⟩ ∧
        P ⟨text "elem_count", printInt count⟩ ∧
        if protocol = text "modbus_tcp" then P ⟨text "path", text "0"⟩
        else P ⟨text "cpu", cpu⟩ ∧ P ⟨text "path", path⟩ := by
  unfold entered
  split <;> simp

theorem writable_entered_iff :
    (∀ e ∈ entered gateway tagname count path cpu protocol, Writable e.val) ↔
      Writable protocol ∧ Writable gateway ∧ Writable tagname ∧
        (protocol = text "modbus_tcp" ∨ Writable cpu ∧ Writable path) := by
  have hcount : Writable (printInt count) :=
    ⟨printInt_ne_nil count, not_mem_printInt count (by decide) (by decide)⟩
  have hzero : Writable (text "0") := by decide
  rw [forall_entered]
  by_cases h : protocol = text "modbus_tcp"
  · simp only [hcount, hzero, h, if_true, and_true, true_or]
  · simp only [hcount, h, if_false, true_and, false_or]

theorem names_entered :
    (entered gateway tagname count path cpu protocol).map AttrEntry.name =
      [text "protocol", text "gateway", text "name", text "elem_count"] ++
        if protocol = text "modbus_tcp" then [text "path"] else [text "cpu", text "path"] := by
  unfold entered
  split <;> rfl

theorem plain_entered : ∀ e ∈ entered gateway tagname count path cpu protocol, Plain e.name := by
  have hall : ∀ name ∈ (entered gateway tagname count path cpu protocol).map AttrEntry.name,
      Plain name := by
    rw [names_entered]
    split <;> decide +kernel
  exact fun e he => hall e.name (List.mem_map.mpr ⟨e, he, rfl⟩)

theorem nodup_entered :
    ((entered gateway tagname count path cpu protocol).map AttrEntry.name).Nodup := by
  rw [names_entered]
  split <;> decide

/-- For entered texts without a NUL: the library reads the attributes that were entered, and no
other, just when none of the texts is empty or has an `&`; with the protocol `modbus_tcp`, CPU and
path may. -/
theorem parsed_buildTagstring_iff (hgateway : (0 : UInt8) ∉ gateway) (htagname : (0 : UInt8) ∉ tagname)
    (hpath : (0 : UInt8) ∉ path) (hcpu : (0 : UInt8) ∉ cpu) (hprotocol : (0 : UInt8) ∉ protocol) :
    (∃ attrs, attrCreateFromStr (cstr (buildTagstring gateway tagname count path cpu protocol)) =
        some attrs ∧ attrs.Perm (entered gateway tagname count path cpu protocol)) ↔
      Writable protocol ∧ Writable gateway ∧ Writable tagname ∧
        (protocol = text "modbus_tcp" ∨ Writable cpu ∧ Writable path) := by
  have hcount : (0 : UInt8) ∉ printInt count := not_mem_printInt count (by decide) (by decide)
  have hzero : (0 : UInt8) ∉ buildTagstring gateway tagname count path cpu protocol := by
    unfold buildTagstring
    split
    · simp [hgateway, htagname, hprotocol, hcount, text]
    · simp [hgateway, htagname, hpath, hcpu, hprotocol, hcount, text]
  rw [cstr_eq_self _ hzero, ← writable_entered_iff]
  constructor
  · rintro ⟨attrs, hparse, hperm⟩ e he
    exact writable_attrCreateFromStr hparse e (hperm.mem_iff.mpr he)
  · intro hvals
    have hne : entered gateway tagname count path cpu protocol ≠ [] := List.cons_ne_nil _ _
    refine ⟨_, ?_, List.reverse_perm _⟩
    rw [buildTagstring_eq]
    exact attrCreateFromStr_pairs hne plain_entered hvals nodup_entered

theorem parsed_buildTagstring_defaults :
    ∃ attrs, attrCreateFromStr (cstr (buildTagstring (text "192.168.0.102") (text "TEST=ARRAY") 1
        (text "1,0") (text "controllogix") (text "ab-eip"))) = some attrs ∧
      attrs.Perm (entered (text "192.168.0.102") (text "TEST=ARRAY") 1 (text "1,0")
        (text "controllogix") (text "ab-eip")) :=
  (parsed_buildTagstring_iff (by decide) (by decide) (by decide) (by decide) (by decide)).mpr
    (by decide)

/-- A gateway that spells another attribute: it ends before the `&`. -/
theorem parsed_buildTagstring_spelled :
    attrCreateFromStr (cstr (buildTagstring (text "plc&name=x") (text "TEST") 1 (text "1,0")
        (text "controllogix") (text "ab-eip"))) =
      some [⟨text "path", text "1,0"⟩, ⟨text "cpu", text "controllogix"⟩,
        ⟨text "elem_count", text "1"⟩, ⟨text "name", text "TEST"⟩, ⟨text "gateway", text "plc"⟩,
        ⟨text "protocol", text "ab-eip"⟩] ∧
    ¬∃ attrs, attrCreateFromStr (cstr (buildTagstring (text "plc&name=x") (text "TEST") 1 (text "1,0")
        (text "controllogix") (text "ab-eip"))) = some attrs ∧
      attrs.Perm (entered (text "plc&name=x") (text "TEST") 1 (text "1,0") (text "controllogix")
        (text "ab-eip")) := by
  have hparse : attrCreateFromStr (cstr (buildTagstring (text "plc&name=x") (text "TEST") 1
      (text "1,0") (text "controllogix") (text "ab-eip"))) =
      some [⟨text "path", text "1,0"⟩, ⟨text "cpu", text "controllogix"⟩,
        ⟨text "elem_count", text "1"⟩, ⟨text "name", text "TEST"⟩, ⟨text "gateway", text "plc"⟩,
        ⟨text "protocol", text "ab-eip"⟩] := by decide +kernel
  refine ⟨hparse, ?_⟩
  rintro ⟨attrs, h, hperm⟩
  rw [hparse] at h
  obtain rfl := Option.some.inj h
  have hgateway : (⟨text "gateway", text "plc&name=x"⟩ : AttrEntry) ∈
      entered (text "plc&name=x") (text "TEST") 1 (text "1,0") (text "controllogix")
        (text "ab-eip") := List.mem_cons_of_mem _ List.mem_cons_self
  exact absurd (hperm.mem_iff.mpr hgateway) (by decide)

end Plctagt.Tag
