import Plctagt.Gui.Press
import Plctagt.Gui.Run
import Plctagt.Tag.StringRoundTrip

/-! # Handles in entries

`profileTags` keeps the handle of a tag in the entry's `instance_id`, which has 16 bits, and takes
it from there for the reads and for the destroy loop.
-/
namespace Plctagt.Gui
open Effects Decimal Tag
set_option autoImplicit false

/-! ## Reads and destroys -/

def readHandle : Event Call.Reply → Option ℤ
  | ⟨.read tag _, _⟩ => some tag
  | _ => none

def destroyHandle : Event Call.Reply → Option ℤ
  | ⟨.destroy tag, _⟩ => some tag
  | _ => none

def readHandles (tr : Trace) : List ℤ := tr.filterMap readHandle

def destroyed (tr : Trace) : List ℤ := tr.filterMap destroyHandle

def NoRead (c : Call) : Prop := ∀ tag timeOutMs, c ≠ .read tag timeOutMs

theorem readHandles_append (tr tr' : Trace) :
    readHandles (tr ++ tr') = readHandles tr ++ readHandles tr' :=
  List.filterMap_append

theorem destroyed_append (tr tr' : Trace) :
    destroyed (tr ++ tr') = destroyed tr ++ destroyed tr' :=
  List.filterMap_append

theorem readHandles_eq_nil {tr : Trace} (h : ∀ ev ∈ tr, NoRead ev.1) : readHandles tr = [] := by
  apply List.filterMap_eq_nil_iff.mpr
  intro ev hev
  unfold readHandle
  split
  · exact absurd rfl (h _ hev _ _)
  · rfl

theorem noRead_of_creates {c : Call} (h : Creates c) : NoRead c := by
  rintro tag timeOutMs rfl
  exact h

/-! ## Each reader reads once -/

section Readers
variable (es : Text) (tag : ℤ)

theorem noRead_tagGetSizes : Calls (tagGetSizes es tag) NoRead := by
  refine (calls_perform (by simp [NoRead])).bind fun elemSize => ?_
  split
  · exact calls_pure _
  · refine (calls_perform (by simp [NoRead])).bind fun elemCount => ?_
    split <;> exact calls_pure _

theorem noRead_readElems (t : ElemType) (elemSize : ℤ) (n i : ℕ) (values : List t.Val) :
    Calls (readElems t tag elemSize n i values) NoRead := by
  induction n generalizing i values with
  | zero => exact calls_pure _
  | succ n ih =>
    refine Calls.bind ?_ fun _ => ih _ _
    cases t with
    | num t => exact calls_perform (by simp [NoRead])
    | bool => exact (calls_perform (by simp [NoRead])).bind fun _ => calls_pure _

theorem noRead_readStrings (turns : ℕ) (strNum offset : ℤ) (values : List Text) :
    Calls (readStrings es tag turns strNum offset values) NoRead := by
  induction turns generalizing strNum offset values with
  | zero => exact calls_stop _
  | succ turns ih =>
    refine (calls_perform (by simp [NoRead])).bind fun size => ?_
    split
    · refine (calls_ask (.getStringLength tag _) id (by simp [NoRead])).bind fun length => ?_
      split
      · exact calls_stop _
      refine (calls_perform (by simp [NoRead])).bind fun got => ?_
      split
      · exact (calls_perform (by simp [NoRead])).bind fun _ => calls_pure _
      · refine (calls_ask (.getString tag _ _) id (by simp [NoRead])).bind fun str => ?_
        split
        split
        · exact (calls_perform (by simp [NoRead])).bind fun _ => calls_pure _
        · split
          · exact (calls_ask (.getStringTotalLength tag _) id (by simp [NoRead])).bind fun _ =>
              ih _ _ _
          · exact calls_stop _
    · exact calls_pure _

theorem reads_once {α : Type} {timeOutMs : ℤ} {k : ℤ → Program α} (hk : ∀ rc, Calls (k rc) NoRead) :
    Meets (perform (.read tag timeOutMs) >>= k) fun tr _ => readHandles tr = [tag] := by
  apply meets_call
  intro rc tr o h
  show tag :: readHandles tr = [tag]
  rw [readHandles_eq_nil (hk rc tr o h)]

theorem reads_readNumericTag (t : ElemType) (values : List t.Val) (timeOutMs : ℤ) :
    Meets (readNumericTag t es tag values timeOutMs) fun tr _ => readHandles tr = [tag] := by
  apply reads_once
  intro rc
  split
  · exact calls_pure _
  · refine (noRead_tagGetSizes es tag).bind fun sizes => ?_
    split
    split
    · exact calls_pure _
    · exact (noRead_readElems tag t _ _ _ _).bind fun _ => calls_pure _

theorem reads_readStringTag (turns : ℕ) (values : List Text) (timeOutMs : ℤ) :
    Meets (readStringTag turns es tag values timeOutMs) fun tr _ => readHandles tr = [tag] := by
  apply reads_once
  intro rc
  split
  · exact calls_pure _
  · refine (noRead_tagGetSizes es tag).bind fun sizes => ?_
    split
    split
    · exact calls_pure _
    · exact noRead_readStrings _ tag _ _ _ _

end Readers

/-! ## The loops over the tags that were made -/

def handleOf (e : TagEntry) : ℤ := e.instanceId.toNat

namespace NCursesUI
variable (con : Console)

theorem reads_profileRead (kind : Option TagKind) (tag : ℤ) :
    Meets (profileRead con kind tag) fun tr o =>
      readHandles tr = [tag] ∨ readHandles tr = [] ∧ ∀ a, o ≠ .ok a := by
  cases kind with
  | none =>
    apply meets_stop
    right
    exact ⟨rfl, by simp⟩
  | some kind =>
    cases kind with
    | elem t =>
      refine meets_bind (reads_readNumericTag [] tag t [] dataTimeout) ?_ ?_
      · intro tr₁ a h
        apply meets_pure
        left
        rwa [List.append_nil]
      · intro tr e h
        exact .inl h
    | string =>
      refine meets_bind (reads_readStringTag [] tag con.turns [] dataTimeout) ?_ ?_
      · intro tr₁ a h
        apply meets_pure
        left
        rwa [List.append_nil]
      · intro tr e h
        exact .inl h

/-- The read loop reads the tags of the entries in turn; a loop that ends well has read them all. -/
theorem reads_readTags (es : List TagEntry) :
    Meets (readTags con es) fun tr o => readHandles tr <+: es.map handleOf ∧
      ∀ a, o = .ok a → readHandles tr = es.map handleOf := by
  induction es with
  | nil =>
    apply meets_pure
    exact ⟨List.nil_prefix, fun _ _ => rfl⟩
  | cons e es ih =>
    refine meets_bind (reads_profileRead con _ _) ?_ ?_
    · rintro tr₁ a (h₁ | ⟨-, h₁⟩)
      · intro tr₂ o h₂
        obtain ⟨hinitial, hall⟩ := ih tr₂ o h₂
        rw [readHandles_append, h₁]
        refine ⟨List.cons_prefix_cons.mpr ⟨rfl, hinitial⟩, fun a ha => ?_⟩
        rw [hall a ha]
        rfl
      · exact absurd rfl (h₁ a)
    · rintro tr e' (h₁ | ⟨h₁, -⟩)
      · rw [h₁]
        exact ⟨List.cons_prefix_cons.mpr ⟨rfl, List.nil_prefix⟩, by simp⟩
      · rw [h₁]
        exact ⟨List.nil_prefix, by simp⟩

theorem destroys_destroyTags (es : List TagEntry) :
    Meets (destroyTags es) fun tr o => readHandles tr = [] ∧
      destroyed tr = es.map handleOf ∧ o = .ok () := by
  induction es with
  | nil =>
    apply meets_pure
    exact ⟨rfl, rfl, rfl⟩
  | cons e es ih =>
    apply meets_call
    intro rc tr o h
    obtain ⟨hread, hdestroyed, rfl⟩ := ih tr o h
    refine ⟨hread, ?_, rfl⟩
    show handleOf e :: destroyed tr = _
    rw [hdestroyed]
    rfl

theorem reads_readAndDestroy (types : Text) (es : List TagEntry) (ui : NCursesUI) :
    Meets (ui.readAndDestroy con types es) fun tr o =>
      readHandles tr <+: es.map handleOf ∧
        ∀ ui', o = .ok ui' → readHandles tr = es.map handleOf ∧
          es.map handleOf <:+ destroyed tr := by
  refine meets_bind (reads_readTags con es) ?_ ?_
  · rintro tr₁ a ⟨-, hread⟩
    refine meets_bind (destroys_destroyTags es) ?_ ?_
    · rintro tr₂ b ⟨hquiet, hdestroyed, -⟩
      apply meets_call
      intro r
      apply meets_pure
      have hreads : readHandles (tr₁ ++ (tr₂ ++ [⟨.profileReport types es.length ui.tobefleshed, r⟩]))
          = es.map handleOf := by
        rw [readHandles_append, readHandles_append, hread a rfl, hquiet]
        exact List.append_nil _
      have hdestroys :
          destroyed (tr₁ ++ (tr₂ ++ [⟨.profileReport types es.length ui.tobefleshed, r⟩])) =
            destroyed tr₁ ++ es.map handleOf := by
        rw [destroyed_append, destroyed_append, hdestroyed]
        exact congrArg (destroyed tr₁ ++ ·) (List.append_nil _)
      rw [hreads, hdestroys]
      exact ⟨List.prefix_refl _, fun _ _ => ⟨rfl, List.suffix_append _ _⟩⟩
    · rintro tr e ⟨-, -, h⟩
      cases h
  · rintro tr e ⟨hread, -⟩
    exact ⟨hread, by simp⟩

end NCursesUI

/-! ## What is handed on -/

/-- Each entry is read with the handle `createTag` returned for it; and when the run ends well, the
destroy loop is over the handles it returned. -/
structure HandsOn (tr : Trace) (o : Except Fault NCursesUI) : Prop where
  read : readHandles tr <+: created tr
  destroy : ∀ ui, o = .ok ui → created tr <:+ destroyed tr

/-- What becomes of a handle in 16 bits. -/
def park (tag : ℤ) : ℤ := (UInt16.ofInt tag).toNat

theorem park_eq_iff {tag : ℤ} (h : 0 ≤ tag) : park tag = tag ↔ tag < 65536 := by
  have hpark : park tag = tag % 65536 := by
    rw [park, UInt16.ofInt, UInt16.toNat_ofNat']
    omega
  rw [hpark]
  omega

theorem map_handleOf_parked (ps : List (TagEntry × ℤ)) :
    (ps.map parked).map handleOf = (ps.map Prod.snd).map park := by
  rw [List.map_map, List.map_map]
  rfl

theorem prefix_park_iff {tags reads : List ℤ} (htags : ∀ tag ∈ tags, 0 ≤ tag)
    (hreads : reads <+: tags.map park) :
    reads <+: tags ↔ ∀ tag ∈ tags.take reads.length, tag < 65536 := by
  have hcut : reads = (tags.take reads.length).map park := by
    rw [List.map_take]
    exact List.prefix_iff_eq_take.mp hreads
  have hpark : ∀ tag ∈ tags.take reads.length, park tag = tag ↔ tag < 65536 :=
    fun tag htag => park_eq_iff (htags tag (List.mem_of_mem_take htag))
  constructor
  · intro h tag htag
    have heq : (tags.take reads.length).map park = (tags.take reads.length).map id := by
      rw [← hcut, List.map_id]
      exact List.prefix_iff_eq_take.mp h
    exact (hpark tag htag).mp (List.map_inj_left.mp heq tag htag)
  · intro h
    apply List.prefix_iff_eq_take.mpr
    calc reads = (tags.take reads.length).map park := hcut
      _ = (tags.take reads.length).map id :=
        List.map_congr_left fun tag htag => (hpark tag htag).mpr (h tag htag)
      _ = tags.take reads.length := List.map_id _

theorem created_nonneg (tr : Trace) : ∀ tag ∈ created tr, 0 ≤ tag := by
  intro tag htag
  obtain ⟨ev, -, hev⟩ := List.mem_filterMap.mp htag
  unfold createdHandle at hev
  split at hev
  · split_ifs at hev with h
    obtain rfl := Option.some.inj hev
    exact h
  · cases hev

namespace NCursesUI
variable (con : Console)

theorem handsOn_of_nil {tr : Trace} {e : Fault} (h : readHandles tr = []) :
    HandsOn tr (.error e) := by
  refine ⟨?_, by simp⟩
  rw [h]
  exact List.nil_prefix

/-- In every run a handle is handed on as `createTag` returned it, if and only if each handle that
the read loop gets to fits 16 bits. -/
theorem profileTags_handsOn_iff (ui : NCursesUI) (types : Text) (tr : Trace)
    (o : Except Fault NCursesUI) (h : Runs (ui.profileTags con types) tr o) :
    HandsOn tr o ↔ ∀ tag ∈ (created tr).take (readHandles tr).length, tag < 65536 := by
  cases runs_profileTags con ui types h with
  | trapped gateway path rc es hes =>
    exact iff_of_true (handsOn_of_nil rfl) fun tag htag => absurd htag List.not_mem_nil
  | unshown gateway path rc fleshed es entries trC e hes hloop he hfield =>
    have hnone : readHandles (⟨.listTags gateway path, (rc, es)⟩ :: trC) = [] := by
      show readHandles trC = []
      apply readHandles_eq_nil
      exact fun ev hev => noRead_of_creates (hloop.creates ev hev)
    refine iff_of_true (handsOn_of_nil hnone) fun tag htag => ?_
    rw [hnone] at htag
    exact absurd htag List.not_mem_nil
  | shown gateway path rc fleshed es entries trC rest ui' o hes hloop hshape hrun =>
    obtain ⟨hinitial, hdone⟩ := reads_readAndDestroy con types _ ui' rest o hrun
    rw [map_handleOf_parked, ← hloop.created] at hinitial hdone
    have hreads : readHandles (⟨.listTags gateway path, (rc, es)⟩ :: (trC ++ rest)) =
        readHandles rest := by
      show readHandles (trC ++ rest) = _
      rw [readHandles_append,
        readHandles_eq_nil fun ev hev => noRead_of_creates (hloop.creates ev hev)]
      rfl
    have hcreated : created (⟨.listTags gateway path, (rc, es)⟩ :: (trC ++ rest)) =
        created trC := by
      have hquiet := created_eq_nil (calls_readAndDestroy con ui' types _ rest _ hrun)
      show created (trC ++ rest) = _
      rw [created_append, hquiet, List.append_nil]
    have hdestroyed : destroyed (⟨.listTags gateway path, (rc, es)⟩ :: (trC ++ rest)) =
        destroyed trC ++ destroyed rest := destroyed_append trC rest
    have hiff := prefix_park_iff (created_nonneg trC) hinitial
    rw [hreads, hcreated]
    constructor
    · rintro ⟨hread, -⟩
      rw [hreads, hcreated] at hread
      exact hiff.mp hread
    · intro hfit
      refine ⟨?_, fun ui₁ ho => ?_⟩
      · rw [hreads, hcreated]
        exact hiff.mpr hfit
      · obtain ⟨hall, hsuffix⟩ := hdone ui₁ ho
        have hsame : (created trC).map park = created trC := by
          rw [← hall]
          apply (hiff.mpr hfit).eq_of_length
          rw [hall, List.length_map]
        rw [hcreated, hdestroyed]
        rw [hsame] at hsuffix
        exact hsuffix.trans (List.suffix_append _ _)

/-- A controller with one DINT, in a library that creates it with this handle. -/
def dintWorld (tag : ℤ) : World :=
  World.bench tag swappedStrings.1 swappedStrings.2
    [⟨[], text "LEVEL", [], 1, 0x00C4, 4, 1, 0, fun _ => 0⟩]

/-- The last handle that fits. -/
theorem profileTags_handsOn_fitting :
    HandsOn (trace World.serve ((initial []).profileTags Console.plain []) (dintWorld 65535))
      (eval World.serve ((initial []).profileTags Console.plain []) (dintWorld 65535)).1 := by
  apply (profileTags_handsOn_iff Console.plain (initial []) [] _ _ (runs_trace _ _ _)).mpr
  decide +kernel

/-- The handle 65536 is read, and destroyed, as 0. -/
theorem profileTags_cuts_handle : ¬∀ (con : Console) (ui : NCursesUI) (types : Text) (tr : Trace)
    (o : Except Fault NCursesUI), Runs (ui.profileTags con types) tr o → HandsOn tr o := by
  intro h
  have hrun := runs_trace World.serve ((initial []).profileTags Console.plain []) (dintWorld 65536)
  have hread := (h Console.plain (initial []) [] _ _ hrun).read
  have hhandles : readHandles (trace World.serve ((initial []).profileTags Console.plain [])
      (dintWorld 65536)) = [0] := by decide +kernel
  have hcreated : created (trace World.serve ((initial []).profileTags Console.plain [])
      (dintWorld 65536)) = [65536] := by decide +kernel
  rw [hhandles, hcreated] at hread
  exact absurd hread (by decide)

end NCursesUI

end Plctagt.Gui
