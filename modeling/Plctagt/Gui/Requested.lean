import Plctagt.Gui.Expanded
import Plctagt.Gui.Owned

/-! # The types a profile run asks for

A type name is read in three places: as part of a text at the end of `expand_tags`, as a prefix in
the create loop, and as a whole in the read loop. They agree but for `STRING`, which is part of
`STRING_LGX` and has no reader.
-/
namespace Plctagt.Gui
open Effects Decimal Tag
set_option autoImplicit false

/-! ## The names of the expanded entries -/

/-- The types the read loop has a reader for. -/
def readableTypes : List String := ["BIT", "SINT", "INT", "DINT", "LINT", "REAL", "STRING_LGX"]

theorem getTagType_mem (type : UInt16) :
    getTagType type [] = [] ∨ ∃ p ∈ cipDataMap, getTagType type [] = text p.2 := by
  have hfind : ∀ key, mapFind key [] = [] ∨ ∃ p ∈ cipDataMap, mapFind key [] = text p.2 := by
    intro key
    unfold mapFind
    cases h : cipDataMap.find? fun p => p.1 = key with
    | none => exact .inl rfl
    | some p => exact .inr ⟨p, List.mem_of_find?_eq_some h, rfl⟩
  unfold getTagType
  dsimp only
  split
  · exact hfind _
  · exact hfind _

theorem baseName_cipDataMap : ∀ p ∈ cipDataMap, BaseName (text p.2) →
    text p.2 = text "STRING" ∨ text p.2 ∈ readableTypes.map text := by
  decide +kernel

theorem baseName_getTagType {type : UInt16} (h : BaseName (getTagType type [])) :
    getTagType type [] = text "STRING" ∨ getTagType type [] ∈ readableTypes.map text := by
  rcases getTagType_mem type with hnil | ⟨p, hp, hname⟩
  · exact absurd hnil h.1
  · rw [hname] at h ⊢
    exact baseName_cipDataMap p hp h

theorem getTagTypeCode_readable : ∀ name ∈ readableTypes,
    getTagType (getTagTypeCode name) [] = text name := by
  decide +kernel

theorem forall_mem_ite {α : Type} {P : α → Prop} {c : Prop} [Decidable c] {l₁ l₂ : List α}
    (h₁ : ∀ a ∈ l₁, P a) (h₂ : ∀ a ∈ l₂, P a) : ∀ a ∈ if c then l₁ else l₂, P a := by
  split
  · exact h₁
  · exact h₂

/-- Members are given types that can be read. -/
theorem memberList_readable (e : TagEntry) : ∀ m ∈ memberList e, m.type ∈ readableTypes := by
  have hplain : ∀ l : List (String × String), (∀ p ∈ l, p.2 ∈ readableTypes) →
      ∀ m ∈ l.map Member.plain, m.type ∈ readableTypes := by
    intro l hl m hm
    obtain ⟨p, hp, rfl⟩ := List.mem_map.mp hm
    exact hl p hp
  have hxfr : ∀ p ∈ xfrMembers, p.2 ∈ readableTypes := by decide
  have hchannel : ∀ p ∈ channelMembers, p.2 ∈ readableTypes := by decide
  unfold memberList
  refine forall_mem_ite (hplain _ (by decide)) ?_
  refine forall_mem_ite (hplain _ (by decide)) ?_
  refine forall_mem_ite (hplain _ (by decide)) ?_
  refine forall_mem_ite (hplain _ (by decide)) ?_
  refine forall_mem_ite (fun m hm => ?_) ?_
  · obtain ⟨k, -, hm⟩ := List.mem_flatMap.mp hm
    rcases List.mem_append.mp hm with hm | hm
    · obtain ⟨p, hp, rfl⟩ := List.mem_map.mp hm
      exact hxfr p hp
    · obtain rfl := List.mem_singleton.mp hm
      show "DINT" ∈ readableTypes
      decide
  refine forall_mem_ite (hplain _ (by decide)) ?_
  refine forall_mem_ite (hplain _ (by decide)) ?_
  refine forall_mem_ite (hplain _ (by decide)) ?_
  refine forall_mem_ite ?_ (List.forall_mem_nil _)
  rw [List.forall_mem_append]
  refine ⟨hplain _ (by decide), fun m hm => ?_⟩
  obtain ⟨i, -, hm⟩ := List.mem_flatMap.mp hm
  obtain ⟨p, hp, rfl⟩ := List.mem_map.mp hm
  exact hchannel p hp

/-- After the expansion only `STRING` is left beside the types that can be read. -/
theorem getTagType_expandTags {es entries : List TagEntry} {fleshed : ℤ}
    (h : expandTags es = some (entries, fleshed)) {e : TagEntry} (he : e ∈ entries) :
    e ∈ es ∧ getTagType e.type [] = text "STRING" ∨ getTagType e.type [] ∈ readableTypes.map text := by
  rw [(expandTags_perm es entries fleshed h).1.mem_iff, List.mem_append] at he
  rcases he with he | he
  · obtain ⟨hmem, hmarked⟩ := List.mem_filter.mp he
    obtain ⟨x, hx⟩ := (expandTags_eq es entries fleshed h).1 e hmem
    have hbase := (marked_eq_false_iff e x hx).mp (by simpa using hmarked)
    exact (baseName_getTagType hbase).imp_left fun hstring => ⟨hmem, hstring⟩
  · obtain ⟨e', -, he⟩ := List.mem_flatMap.mp he
    obtain ⟨m, hm, rfl⟩ := List.mem_map.mp he
    have hread := memberList_readable e' m hm
    have hname : getTagType (m.entry e').type [] = text m.type := getTagTypeCode_readable _ hread
    rw [hname]
    exact .inr (List.mem_map_of_mem hread)

theorem mem_expandTags_of_string {es entries : List TagEntry} {fleshed : ℤ}
    (h : expandTags es = some (entries, fleshed)) {e : TagEntry} (he : e ∈ es)
    (hstring : getTagType e.type [] = text "STRING") : e ∈ entries := by
  rw [(expandTags_perm es entries fleshed h).1.mem_iff]
  have hbase : BaseName (getTagType e.type []) := by
    rw [hstring]
    decide
  have hmarked := (marked_eq_false_iff e _ (expansion_of_baseName e hbase)).mpr hbase
  exact List.mem_append_left _ (List.mem_filter.mpr ⟨he, by simp [hmarked]⟩)

/-! ## The filter and the dispatch -/

namespace NCursesUI

/-- The entries whose type is the one asked for; without a type, all of them. -/
def requested (types : Text) (entries : List TagEntry) : List TagEntry :=
  entries.filter fun e => types = [] ∨ getTagType e.type [] = types

theorem profiledKind_eq_none_iff (type : Text) :
    profiledKind type = none ↔ type ∉ readableTypes.map text := by
  constructor
  · intro hnone hmem
    exact (by decide : ∀ type ∈ readableTypes.map text, profiledKind type ≠ none) type hmem hnone
  · intro hmem
    have hne : ∀ name ∈ readableTypes, type ≠ text name := by
      rintro name hname rfl
      exact hmem (List.mem_map_of_mem hname)
    unfold profiledKind
    rw [if_neg (hne "BIT" (by decide)), if_neg (hne "SINT" (by decide)),
      if_neg (hne "INT" (by decide)), if_neg (hne "DINT" (by decide)),
      if_neg (hne "LINT" (by decide)), if_neg (hne "REAL" (by decide)),
      if_neg (hne "STRING_LGX" (by decide))]

theorem readable_iff (e : TagEntry) :
    Readable e ↔ getTagType e.type [] ∈ readableTypes.map text := by
  rw [Readable, ne_eq, profiledKind_eq_none_iff, not_not]

theorem wanted_readable : ∀ types ∈ profileTypes, ∀ name ∈ readableTypes.map text,
    (types.isEmpty || name.isPrefixOf types) = decide (types = [] ∨ name = types) := by
  decide

theorem wanted_string : ∀ types ∈ profileTypes, types ≠ text "STRING_LGX" →
    (types.isEmpty || (text "STRING").isPrefixOf types) =
      decide (types = [] ∨ text "STRING" = types) := by
  decide

/-- The condition on a listing: what `STRING` tags spoil. -/
def Unspoiled (types : Text) (es : List TagEntry) : Prop :=
  types = [] ∨ types = text "STRING_LGX" → ∀ e ∈ es, getTagType e.type [] ≠ text "STRING"

section Entries
variable {types : Text} {es entries : List TagEntry} {fleshed : ℤ}

theorem profiled_eq_requested (h : expandTags es = some (entries, fleshed))
    (htypes : types ∈ profileTypes) (hclean : Unspoiled types es) :
    profiled types entries = (requested types entries).map profiledEntry := by
  unfold profiled requested
  congr 1
  refine List.filter_congr fun e he => ?_
  rcases getTagType_expandTags h he with ⟨hmem, hstring⟩ | hread
  · have hne : types ≠ text "STRING_LGX" := fun hlgx => hclean (.inr hlgx) e hmem hstring
    rw [wanted, hstring]
    exact wanted_string types htypes hne
  · exact wanted_readable types htypes _ hread

theorem readable_requested (h : expandTags es = some (entries, fleshed))
    (htypes : types ∈ profileTypes) (hclean : Unspoiled types es) {e : TagEntry}
    (he : e ∈ requested types entries) : Readable e := by
  obtain ⟨hmem, htype⟩ := List.mem_filter.mp he
  rw [readable_iff]
  rcases getTagType_expandTags h hmem with ⟨hes, hstring⟩ | hread
  · rcases of_decide_eq_true htype with hnil | htype
    · exact absurd hstring (hclean (.inl hnil) e hes)
    · rw [← htype, hstring] at htypes
      exact absurd htypes (by decide)
  · exact hread

end Entries

/-! ## The create loop -/

/-- The string a tag is created from. -/
def createdString : Event Call.Reply → Option Text
  | ⟨.create s _, _⟩ => some s
  | _ => none

def createdStrings (tr : Trace) : List Text := tr.filterMap createdString

theorem createdStrings_append (tr tr' : Trace) :
    createdStrings (tr ++ tr') = createdStrings tr ++ createdStrings tr' :=
  List.filterMap_append

theorem createdStrings_eq_nil {tr : Trace} (h : ∀ ev ∈ tr, ∀ s t, ev.1 ≠ .create s t) :
    createdStrings tr = [] := by
  refine List.filterMap_eq_nil_iff.mpr fun ev hev => ?_
  unfold createdString
  split
  · exact absurd rfl (h _ hev _ _)
  · rfl

/-- Every version check of the run succeeded. -/
def Compatible (tr : Trace) : Prop := ∀ rc : ℤ, ⟨.checkLibVersion, rc⟩ ∈ tr → rc = plctagStatusOk

/-- Every tag that was created got a handle. -/
def Accepted (tr : Trace) : Prop := ∀ s t, ∀ tag : ℤ, ⟨.create s t, tag⟩ ∈ tr → 0 ≤ tag

/-- The string `createTag` is given for an entry of the create loop. -/
def tagstring (ui : NCursesUI) (e : TagEntry) : Text :=
  cstr (buildTagstring ui.getGateway e.name e.elemCount.toNat ui.getPath ui.getCpu ui.getProtocol)

/-- The create loop asks for tags of its entries in order, and leaves one out only after a version
check that failed. -/
structure Asks (ui : NCursesUI) (es : List TagEntry) (tr : Trace) : Prop where
  sublist : (createdStrings tr).Sublist (es.map ui.tagstring)
  all : Compatible tr → createdStrings tr = es.map ui.tagstring
  made_subset : ∀ p ∈ made es tr, p.1 ∈ es
  made_all : Compatible tr → Accepted tr → (made es tr).map Prod.fst = es

theorem asks_createTags (ui : NCursesUI) (es : List TagEntry) :
    Meets (ui.createTags es) fun tr _ => ui.Asks es tr := by
  induction es with
  | nil => exact meets_pure ⟨.slnil, fun _ => rfl, fun p hp => (nomatch hp), fun _ _ => rfl⟩
  | cons e es ih =>
    intro tr o h
    rcases (runs_bind _ _ _ _).mp h with ⟨tr₁, tr', r, rfl, h₁, h⟩ | ⟨e', rfl, h₁⟩
    · obtain ⟨tag, es', hr, -, -, hmade⟩ := made_cons e es h₁
      cases hr
      rcases (runs_bind _ _ _ _).mp h with ⟨tr₂, tr₃, r', rfl, h₂, h₃⟩ | ⟨e', rfl, h₂⟩
      · obtain rfl : tr₃ = [] := by
          change Runs (if tag < 0 then _ else _) tr₃ o at h₃
          split at h₃ <;> exact h₃.1
        rw [List.append_nil]
        have hrest := ih tr₂ _ h₂
        have hright : ∀ ev ∈ tr₂, ev ∈ tr₁ ++ tr₂ := fun _ => List.mem_append_right tr₁
        have hsubset : ∀ p ∈ made (e :: es) (tr₁ ++ tr₂), p.1 ∈ e :: es := by
          intro p hp
          rw [hmade] at hp
          split at hp
          · rcases List.mem_cons.mp hp with rfl | hp
            · exact List.mem_cons_self
            · exact List.mem_cons_of_mem _ (hrest.made_subset p hp)
          · exact List.mem_cons_of_mem _ (hrest.made_subset p hp)
        obtain ⟨tag', es'', hr, ⟨-, rc, hrc, rfl⟩ | rfl⟩ := runs_createTag h₁
        · refine ⟨hrest.sublist.cons _, fun hc => ?_, hsubset, fun hc => ?_⟩
          · exact absurd (hc rc List.mem_cons_self) hrc
          · exact absurd (hc rc List.mem_cons_self) hrc
        · cases hr
          refine ⟨hrest.sublist.cons_cons _, fun hc => ?_, hsubset, fun hc ha => ?_⟩
          · exact congrArg (ui.tagstring e :: ·) (hrest.all fun rc hrc => hc rc (hright _ hrc))
          · have htag : 0 ≤ tag :=
              ha (ui.tagstring e) dataTimeout tag (List.mem_cons_of_mem _ List.mem_cons_self)
            rw [hmade, if_pos htag, List.map_cons]
            exact congrArg (e :: ·) (hrest.made_all (fun rc hrc => hc rc (hright _ hrc))
              fun s t tag htag => ha s t tag (hright _ htag))
      · obtain ⟨hr, -⟩ := runs_createTags ui es h₂
        cases hr
    · obtain ⟨_, _, hr, -⟩ := creates_createTag h₁
      cases hr

/-! ## The profile run -/

/-- A run of `profileTags` on an expanded list: tags are created for the entries of the type asked
for and for no others, and the read loop has a reader for each. -/
structure Served (types : Text) (ui : NCursesUI) (entries : List TagEntry) (tr : Trace)
    (o : Except Fault NCursesUI) : Prop where
  only : (createdStrings tr).Sublist ((requested types entries).map fun e =>
    cstr (buildTagstring ui.getGateway (makeTagName e) 1 ui.getPath ui.getCpu ui.getProtocol))
  all : Compatible tr → createdStrings tr = (requested types entries).map fun e =>
    cstr (buildTagstring ui.getGateway (makeTagName e) 1 ui.getPath ui.getCpu ui.getProtocol)
  readable : ∀ p ∈ profileMade types tr, Readable p.1
  untrapped : o ≠ .error .sigtrap

theorem untrapped_readAndDestroy (con : Console) (types : Text) {es : List TagEntry}
    {ui : NCursesUI} {tr : Trace} {o : Except Fault NCursesUI}
    (h : Runs (ui.readAndDestroy con types es) tr o) (hread : ∀ e ∈ es, Readable e) :
    o ≠ .error .sigtrap := by
  rintro rfl
  rcases (runs_bind _ _ _ _).mp h with ⟨trR, rest, a, rfl, hR, h⟩ | ⟨e, he, hR⟩
  · rcases (runs_bind _ _ _ _).mp h with ⟨trD, rest, a', rfl, hD, h⟩ | ⟨e, -, hD⟩
    · obtain ⟨r, rest, rfl, -, ho⟩ := h
      cases ho
    · obtain ⟨-, -, hok⟩ := destroys_destroyTags es _ _ hD
      cases hok
  · cases he
    obtain ⟨es₁, e, es₂, rfl, hnot, -⟩ := (readLoop_readTags con es tr _ hR).trapped rfl
    exact hnot (hread e (by simp))

/-- The list of the reply that opens a profile run. -/
def listed : Trace → List TagEntry
  | ⟨.listTags _ _, (_, es)⟩ :: _ => es
  | _ => []

theorem untrapped_of_readable (con : Console) {types : Text} {ui : NCursesUI} {tr : Trace}
    {o : Except Fault NCursesUI} (h : Runs (ui.profileTags con types) tr o)
    (hsome : expandTags (listed tr) ≠ none) (hread : ∀ p ∈ profileMade types tr, Readable p.1) :
    o ≠ .error .sigtrap := by
  cases runs_profileTags con ui types h with
  | trapped gateway path rc es hes => exact absurd hes hsome
  | unshown gateway path rc fleshed es entries tr e hes hloop he hfield =>
    subst he
    simp
  | shown gateway path rc fleshed es entries tr rest ui' o hes hloop hshape hrun =>
    refine untrapped_readAndDestroy con types hrun fun e he => ?_
    obtain ⟨p, hp, rfl⟩ := List.mem_map.mp he
    have hmade : profileMade types (⟨.listTags gateway path, (rc, es)⟩ :: (tr ++ rest)) =
        made (profiled types entries) tr := by
      rw [profileMade_cons, hes]
      exact hloop.made_append rest
    exact hread p (hmade ▸ hp)

section Runs
variable {con : Console} {ui : NCursesUI} {types gateway path : Text} {rc fleshed : ℤ}
  {es entries : List TagEntry} {tr : Trace} {o : Except Fault NCursesUI}

theorem asks_profileTags
    (h : Runs (ui.profileTags con types) (⟨.listTags gateway path, (rc, es)⟩ :: tr) o)
    (hes : expandTags es = some (entries, fleshed)) :
    ∃ trC rest, tr = trC ++ rest ∧ ui.Asks (profiled types entries) trC ∧
      CreateLoop (profiled types entries) trC ∧
      ∀ ev ∈ rest, ∀ s t, ev.1 ≠ .create s t := by
  unfold profileTags at h
  obtain ⟨reply, tr', heq, h⟩ := h
  cases heq
  dsimp only [Prog.bind, pure] at h
  rw [hes] at h
  rcases (runs_bind _ _ _ _).mp h with ⟨trC, rest, r, rfl, hC, h⟩ | ⟨e, rfl, hC⟩
  · have hasks := asks_createTags _ _ trC _ hC
    refine ⟨trC, rest, rfl, ⟨hasks.sublist, hasks.all, hasks.made_subset, hasks.made_all⟩,
      (runs_createTags _ _ hC).2, ?_⟩
    exact (((calls_updateUI con _).weaken fun _ h => h.elim).bind fun ui' =>
      calls_readAndDestroy con ui' types r.2) rest o h
  · obtain ⟨hr, -⟩ := runs_createTags _ _ hC
    cases hr

theorem served_of_unspoiled (htypes : types ∈ profileTypes)
    (h : Runs (ui.profileTags con types) (⟨.listTags gateway path, (rc, es)⟩ :: tr) o)
    (hes : expandTags es = some (entries, fleshed)) (hclean : Unspoiled types es) :
    Served types ui entries (⟨.listTags gateway path, (rc, es)⟩ :: tr) o := by
  obtain ⟨trC, rest, rfl, hasks, hloop, hrest⟩ := asks_profileTags h hes
  have hstrings : createdStrings (⟨.listTags gateway path, (rc, es)⟩ :: (trC ++ rest)) =
      createdStrings trC := by
    refine (createdStrings_append trC rest).trans ?_
    rw [createdStrings_eq_nil hrest, List.append_nil]
  have hprofiled := profiled_eq_requested hes htypes hclean
  have hmap : (profiled types entries).map ui.tagstring = (requested types entries).map fun e =>
      cstr (buildTagstring ui.getGateway (makeTagName e) 1 ui.getPath ui.getCpu
        ui.getProtocol) := by
    rw [hprofiled, List.map_map]
    rfl
  have hmade : profileMade types (⟨.listTags gateway path, (rc, es)⟩ :: (trC ++ rest)) =
      made (profiled types entries) trC := by
    rw [profileMade_cons, hes]
    exact hloop.made_append rest
  have hreadable : ∀ p ∈ made (profiled types entries) trC, Readable p.1 := by
    intro p hp
    have hmem := hasks.made_subset p hp
    rw [hprofiled] at hmem
    obtain ⟨e, he, hpe⟩ := List.mem_map.mp hmem
    have hread : Readable e := readable_requested hes htypes hclean he
    rw [← hpe]
    exact hread
  refine ⟨?_, fun hc => ?_, ?_, ?_⟩
  · rw [hstrings, ← hmap]
    exact hasks.sublist
  · rw [hstrings, ← hmap]
    exact hasks.all fun rc' hrc => hc rc' (List.mem_cons_of_mem _ (List.mem_append_left _ hrc))
  · rw [hmade]
    exact hreadable
  · refine untrapped_of_readable con h ?_ (by rw [hmade]; exact hreadable)
    show expandTags es ≠ none
    rw [hes]
    exact Option.some_ne_none _

end Runs

/-! ## A run over a listing that is spoiled -/

theorem nonempty_reply (c : Call) : Nonempty c.Reply := by
  cases c with
  | getNum t tag offset => exact ⟨t.sentinel⟩
  | popupSelect options title => exact ⟨none⟩
  | popupSelectOptions label value options => exact ⟨none⟩
  | _ => exact ⟨default⟩

/-- The create loop when the library is compatible and accepts every tag. -/
theorem exists_createTags (ui : NCursesUI) (es : List TagEntry) :
    ∃ tr res, Runs (ui.createTags es) tr (.ok res) ∧ Compatible tr ∧ Accepted tr := by
  induction es with
  | nil => exact ⟨[], ([], []), ⟨rfl, rfl⟩, fun _ h => (nomatch h), fun _ _ _ h => nomatch h⟩
  | cons e es ih =>
    obtain ⟨tr, res, h, hcompatible, haccepted⟩ := ih
    have hcreate : Runs (createTag [] (buildTagstring ui.getGateway e.name e.elemCount.toNat
        ui.getPath ui.getCpu ui.getProtocol) dataTimeout)
        [⟨.checkLibVersion, plctagStatusOk⟩, ⟨.create (ui.tagstring e) dataTimeout, (0 : ℤ)⟩]
        (.ok (0, [])) := ⟨_, _, rfl, _, _, rfl, rfl, rfl⟩
    refine ⟨_, _, (hcreate.bind_iff _ _ _).mpr ((h.bind_iff _ [] _).mpr ⟨rfl, rfl⟩), ?_, ?_⟩
    · intro rc hrc
      rw [List.append_nil, List.mem_append] at hrc
      rcases hrc with hrc | hrc
      · simpa using hrc
      · exact hcompatible rc hrc
    · intro s t tag htag
      rw [List.append_nil, List.mem_append] at htag
      rcases htag with htag | htag
      · obtain ⟨-, rfl⟩ : (s = ui.tagstring e ∧ t = dataTimeout) ∧ tag = 0 := by simpa using htag
        exact le_refl 0
      · exact haccepted s t tag htag

theorem exists_profileTags (con : Console) (ui : NCursesUI) (types : Text)
    {es entries : List TagEntry} {fleshed : ℤ} (hes : expandTags es = some (entries, fleshed)) :
    ∃ gateway path tr o,
      Runs (ui.profileTags con types) (⟨.listTags gateway path, (0, es)⟩ :: tr) o ∧
        (profileMade types (⟨.listTags gateway path, (0, es)⟩ :: tr)).map Prod.fst =
          profiled types entries := by
  obtain ⟨trC, res, hC, hcompatible, haccepted⟩ :=
    exists_createTags { ui with tobefleshed := ui.tobefleshed + fleshed } (profiled types entries)
  have hmade := (asks_createTags _ _ trC _ hC).made_all hcompatible haccepted
  obtain ⟨rest, o, hrest⟩ := exists_runs nonempty_reply
    (((({ ui with tobefleshed := ui.tobefleshed + fleshed } : NCursesUI).setStringType
      con).updateSection3FromVector con res.1).updateUI con >>= fun ui =>
        ui.readAndDestroy con types res.2)
  refine ⟨cstr ui.getGateway, cstr ui.getPath, trC ++ rest, o, ⟨_, _, rfl, ?_⟩, ?_⟩
  · dsimp only [Prog.bind, pure]
    rw [hes]
    exact (runs_bind _ _ _ _).mpr (.inl ⟨trC, rest, res, rfl, hC, hrest⟩)
  · rw [profileMade_cons, hes]
    exact (congrArg _ ((runs_createTags _ _ hC).2.made_append rest)).trans hmade

/-- For a listing that is expanded without a trap and a type of the menu: every run asks for the
tags of that type and reads each of them, if and only if no `STRING` tag of the listing gets in
under `''` or `STRING_LGX`. -/
theorem profileTags_served_iff {es entries : List TagEntry} {fleshed : ℤ}
    (hes : expandTags es = some (entries, fleshed)) {types : Text} (htypes : types ∈ profileTypes) :
    (∀ (con : Console) (ui : NCursesUI) (gateway path : Text) (rc : ℤ) (tr : Trace)
      (o : Except Fault NCursesUI),
      Runs (ui.profileTags con types) (⟨.listTags gateway path, (rc, es)⟩ :: tr) o →
        Served types ui entries (⟨.listTags gateway path, (rc, es)⟩ :: tr) o) ↔
      Unspoiled types es := by
  constructor
  · intro hserved hspoil e he hstring
    obtain ⟨gateway, path, tr, o, h, hmade⟩ :=
      exists_profileTags Console.plain (initial []) types hes
    have hwanted : wanted types e = true := by
      rw [wanted, hstring]
      rcases hspoil with rfl | rfl <;> decide
    have hmem : profiledEntry e ∈ profiled types entries := List.mem_map_of_mem
      (List.mem_filter.mpr ⟨mem_expandTags_of_string hes he hstring, hwanted⟩)
    rw [← hmade] at hmem
    obtain ⟨p, hp, hpe⟩ := List.mem_map.mp hmem
    have hread := (hserved _ _ _ _ _ _ _ h).readable p hp
    rw [hpe, readable_iff] at hread
    change getTagType e.type [] ∈ _ at hread
    rw [hstring] at hread
    exact absurd hread (by decide)
  · intro hclean con ui gateway path rc tr o h
    exact served_of_unspoiled htypes h hes hclean

theorem profileTags_served_timers :
    ∃ entries fleshed, expandTags timers = some (entries, fleshed) ∧
      ∀ (con : Console) (ui : NCursesUI) (gateway path : Text) (rc : ℤ) (tr : Trace)
        (o : Except Fault NCursesUI),
        Runs (ui.profileTags con (text "DINT")) (⟨.listTags gateway path, (rc, timers)⟩ :: tr) o →
          Served (text "DINT") ui entries (⟨.listTags gateway path, (rc, timers)⟩ :: tr) o := by
  have hsome : (expandTags timers).isSome = true := by decide +kernel
  obtain ⟨⟨entries, fleshed⟩, hes⟩ := Option.isSome_iff_exists.mp hsome
  refine ⟨entries, fleshed, hes, (profileTags_served_iff hes (by decide)).mpr fun hspoil => ?_⟩
  revert hspoil
  decide

def stringEntry : TagEntry := ⟨[], text "s", [], 0, 0xD0, 0, 1, 0, fun _ => 0⟩

/-- The calls that create its tag in a new session. -/
def stringCreated : Trace :=
  [⟨.checkLibVersion, plctagStatusOk⟩,
    ⟨.create ((initial []).tagstring (profiledEntry stringEntry)) dataTimeout, (3 : ℤ)⟩]

/-- A `STRING` tag comes through the expansion; the menu's `STRING_LGX` creates it, though its type
is another, and the read loop raises the signal. -/
theorem profileTags_string :
    expandTags [stringEntry] = some ([stringEntry], 1) ∧ text "STRING_LGX" ∈ profileTypes ∧
      requested (text "STRING_LGX") [stringEntry] = [] ∧
      (createdStrings stringCreated).length = 1 ∧
      Runs ((initial []).profileTags Console.plain (text "STRING_LGX"))
        (⟨.listTags (text "192.168.0.102") (text "1,0"), (0, [stringEntry])⟩ :: stringCreated)
        (.error .sigtrap) ∧
      ¬ Served (text "STRING_LGX") (initial []) [stringEntry]
        (⟨.listTags (text "192.168.0.102") (text "1,0"), (0, [stringEntry])⟩ :: stringCreated)
        (.error .sigtrap) := by
  have hes : expandTags [stringEntry] = some ([stringEntry], 1) := by decide +kernel
  have hprofiled : profiled (text "STRING_LGX") [stringEntry] = [profiledEntry stringEntry] := by
    decide +kernel
  have hnone : profiledKind (getTagType (profiledEntry stringEntry).type []) = none := by
    decide +kernel
  refine ⟨hes, by decide, by decide +kernel, rfl, ?_, fun h => h.untrapped rfl⟩
  refine ⟨_, _, rfl, ?_⟩
  dsimp only [Prog.bind, pure]
  rw [hes]
  dsimp only
  rw [hprofiled]
  refine (runs_bind _ _ _ _).mpr (.inl ⟨stringCreated, [], (_, [parked (profiledEntry stringEntry,
    3)]), rfl, ⟨_, _, rfl, _, _, rfl, rfl, rfl⟩, ?_⟩)
  refine (runs_bind _ _ _ _).mpr (.inl ⟨[], [], _, rfl, ⟨rfl, rfl⟩, ?_⟩)
  rw [readAndDestroy, readTags, show (parked (profiledEntry stringEntry, 3)).type =
    (profiledEntry stringEntry).type from rfl, hnone]
  exact ⟨rfl, rfl⟩

end NCursesUI

end Plctagt.Gui
