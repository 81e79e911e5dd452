import Plctagt.Gui.Expand
import Plctagt.Foundations.SwapRemove

/-! # What the expansion leaves

The list that `expand_tags` leaves is the list of the entries it does not mark, and the members of
those it replaces. Which entries are marked depends on the type word alone: on its name in the map,
and for a word the map does not have on the name of its low byte.
-/
namespace Plctagt.Gui
open Decimal Tag SwapRemove
set_option autoImplicit false

/-! ## Members -/

/-- A member of a composite tag. With an index it belongs to that element of an array. -/
structure Member where
  index : Option ℕ
  name : Text
  type : String
  count : UInt16

namespace Member

/-- What follows the name of the tag in the name of the member. -/
def suffix (m : Member) : Text :=
  (match m.index with
    | none => []
    | some k => text "[" ++ printNat k ++ text "]") ++ text "." ++ m.name

def entry (e : TagEntry) (m : Member) : TagEntry where
  nextName := []
  name := e.name ++ m.suffix
  parentName := e.parentName
  instanceId := 0
  type := getTagTypeCode m.type
  elemSize := 0
  elemCount := m.count
  numDimensions := 0
  dimensions := fun _ => 0

def plain (m : String × String) : Member := ⟨none, text m.1, m.2, 1⟩

/-- The members of one channel of an analog input module. -/
def channel (i : ℕ) : List Member :=
  channelMembers.map fun m => ⟨none, text "Ch" ++ printNat i ++ text "Config." ++ text m.1, m.2, 1⟩

def xfrElement (k : ℕ) : List Member :=
  xfrMembers.map (fun m => ⟨some k, text m.1, m.2, 1⟩) ++ [⟨some k, text "LIGHTS", "DINT", 2⟩]

end Member

/-- The full member list of an entry of a composite type. -/
def memberList (e : TagEntry) : List Member :=
  let type := getTagType e.type []
  if type = text "Timer" then timerMembers.map Member.plain
  else if type = text "MESSAGE" then messageMembers.map Member.plain
  else if type = text "COUNTER" then counterMembers.map Member.plain
  else if type = text "ALARM_DIGITAL" then alarmDigitalMembers.map Member.plain
  else if type = text "XFR_TYPE" then (List.range e.elemCount.toNat).flatMap Member.xfrElement
  else if type = text "1756_DI_C" then digitalInputConfigMembers.map Member.plain
  else if type = text "1756_DI_I" then digitalInputMembers.map Member.plain
  else if type = text "1756_DO_C" then digitalOutputConfigMembers.map Member.plain
  else if type = text "1756_IF16_C" then
    [("ModuleFilter", "SINT"), ("RealTimeSample", "INT")].map Member.plain ++
      (List.range 16).flatMap Member.channel
  else []

theorem makeTagName_entry (e : TagEntry) (m : Member) :
    makeTagName (m.entry e) = makeTagName e ++ m.suffix := by
  unfold makeTagName Member.entry
  rw [List.append_assoc]

theorem expandTagentry_plain (e : TagEntry) (m : String × String) :
    expandTagentry e m.1 m.2 1 = (Member.plain m).entry e := by
  simp [expandTagentry, Member.entry, Member.plain, Member.suffix]

theorem addMembers_plain (e : TagEntry) (members : List (String × String)) :
    addMembers e members = (members.map Member.plain).map fun m => m.entry e := by
  unfold addMembers
  rw [List.map_map]
  apply List.map_congr_left
  intro m _
  exact expandTagentry_plain e m

theorem addMembers_element (e : TagEntry) (k : ℕ) :
    addMembers { e with name := e.name ++ text "[" ++ printNat k ++ text "]" } xfrMembers ++
        [expandTagentry { e with name := e.name ++ text "[" ++ printNat k ++ text "]" } "LIGHTS" "DINT"
          2] =
      (Member.xfrElement k).map fun m => m.entry e := by
  unfold Member.xfrElement addMembers
  rw [List.map_append, List.map_map]
  congr 1
  · apply List.map_congr_left
    intro m _
    simp [expandTagentry, Member.entry, Member.suffix]
  · simp [expandTagentry, Member.entry, Member.suffix]

theorem channelMembers_entry (e : TagEntry) (i : ℕ) :
    (channelMembers.map fun m =>
        expandTagentry { e with name := e.name ++ text ".Ch" ++ printNat i ++ text "Config" }
          m.1 m.2 1) =
      (Member.channel i).map fun m => m.entry e := by
  unfold Member.channel
  rw [List.map_map]
  apply List.map_congr_left
  intro m _
  have hdot : text ".Ch" = text "." ++ text "Ch" := by decide
  have hconfig : text "Config." = text "Config" ++ text "." := by decide
  simp [expandTagentry, Member.entry, Member.suffix, hdot, hconfig]

theorem add_of_ite (e : TagEntry) {c : Prop} [Decidable c] {x y : Expansion}
    {rest : Option Expansion} {members others : List Member}
    (hthen : y.add = members.map fun m => m.entry e)
    (helse : rest = some x → x.add = others.map fun m => m.entry e)
    (h : (if c then some y else rest) = some x) :
    x.add = (if c then members else others).map fun m => m.entry e := by
  by_cases hc : c
  · rw [if_pos hc] at h ⊢
    cases h
    exact hthen
  · rw [if_neg hc] at h ⊢
    exact helse h

theorem expansion_add (e : TagEntry) (x : Expansion) (h : expansion e = some x) :
    x.add = (memberList e).map fun m => m.entry e := by
  unfold expansion at h
  unfold memberList
  dsimp only at h ⊢
  generalize getTagType e.type [] = type at h ⊢
  by_cases hnone : type = [] ∨ type = text ".UNKNOWN."
  · rw [if_pos hnone] at h
    cases h
    have hne : ∀ name ∈ ["Timer", "MESSAGE", "COUNTER", "ALARM_DIGITAL", "XFR_TYPE", "1756_DI_C",
        "1756_DI_I", "1756_DO_C", "1756_IF16_C"], type ≠ text name := by
      rcases hnone with hnone | hnone <;> rw [hnone] <;> decide
    rw [if_neg (hne _ (by decide)), if_neg (hne _ (by decide)), if_neg (hne _ (by decide)),
      if_neg (hne _ (by decide)), if_neg (hne _ (by decide)), if_neg (hne _ (by decide)),
      if_neg (hne _ (by decide)), if_neg (hne _ (by decide)), if_neg (hne _ (by decide))]
    rfl
  rw [if_neg hnone] at h
  refine add_of_ite e (addMembers_plain e _) (fun h => ?_) h
  refine add_of_ite e (addMembers_plain e _) (fun h => ?_) h
  refine add_of_ite e (addMembers_plain e _) (fun h => ?_) h
  refine add_of_ite e (addMembers_plain e _) (fun h => ?_) h
  refine add_of_ite e ?_ (fun h => ?_) h
  · rw [List.map_flatMap]
    exact List.flatMap_congr fun k _ => addMembers_element e k
  refine add_of_ite e (addMembers_plain e _) (fun h => ?_) h
  refine add_of_ite e (addMembers_plain e _) (fun h => ?_) h
  refine add_of_ite e (addMembers_plain e _) (fun h => ?_) h
  refine add_of_ite e ?_ (fun h => ?_) h
  · rw [List.map_append, List.map_flatMap, ← addMembers_plain]
    exact congrArg (addMembers e _ ++ ·) (List.flatMap_congr fun i _ => channelMembers_entry e i)
  -- what is left of the chain adds nothing
  split at h
  · cases h
    rfl
  · split at h
    · cases h
      rfl
    · cases h

/-! ## The list as a whole -/

def marked (e : TagEntry) : Bool := ((expansion e).map Expansion.remove).getD false

theorem removeEntry_eq_swapRemove : removeEntry = swapRemove := by
  funext entries i
  unfold removeEntry swapRemove
  cases entries.getLast? <;> rfl

theorem mapM_expansion (entries : List TagEntry) (es : List Expansion)
    (h : entries.mapM expansion = some es) :
    es = entries.map (fun e => (expansion e).getD ⟨false, [], 0⟩) ∧
      ∀ e ∈ entries, ∃ x, expansion e = some x := by
  induction entries generalizing es with
  | nil =>
    cases h
    simp
  | cons e entries ih =>
    rw [List.mapM_cons] at h
    obtain ⟨x, hx, h⟩ := Option.bind_eq_some_iff.mp h
    obtain ⟨es', hes', h⟩ := Option.bind_eq_some_iff.mp h
    cases h
    obtain ⟨hmap, hsome⟩ := ih es' hes'
    refine ⟨?_, ?_⟩
    · rw [List.map_cons, ← hmap, hx]
      rfl
    · intro a ha
      rcases List.mem_cons.mp ha with rfl | ha
      · exact ⟨x, hx⟩
      · exact hsome a ha

theorem expandTags_eq (entries result : List TagEntry) (n : ℤ)
    (h : expandTags entries = some (result, n)) :
    (∀ e ∈ entries, ∃ x, expansion e = some x) ∧
      result = (positions marked entries).reverse.foldl swapRemove entries ++
        entries.flatMap fun e => (memberList e).map fun m => m.entry e := by
  obtain ⟨es, hes, hresult⟩ := Option.map_eq_some_iff.mp h
  obtain ⟨rfl, hsome⟩ := mapM_expansion entries es hes
  refine ⟨hsome, ?_⟩
  have hmarked : positions Expansion.remove
      (entries.map fun e => (expansion e).getD ⟨false, [], 0⟩) = positions marked entries := by
    rw [positions_map]
    congr 1
    funext e
    unfold marked
    cases expansion e <;> rfl
  have hadd : (entries.map fun e => (expansion e).getD ⟨false, [], 0⟩).flatMap Expansion.add =
      entries.flatMap fun e => (memberList e).map fun m => m.entry e := by
    rw [List.flatMap_map]
    apply List.flatMap_congr
    intro e he
    obtain ⟨x, hx⟩ := hsome e he
    rw [hx, ← expansion_add e x hx]
    rfl
  rw [← (Prod.mk.inj hresult).1, ← hadd, ← hmarked, removeEntry_eq_swapRemove]
  rfl

/-- The list is, in some order, the entries not marked and the members of the composite ones, each
under the name of its source and then its own. -/
theorem expandTags_perm (entries result : List TagEntry) (n : ℤ)
    (h : expandTags entries = some (result, n)) :
    result.Perm (entries.filter (fun e => !marked e) ++
        entries.flatMap fun e => (memberList e).map fun m => m.entry e) ∧
      ∀ e m, makeTagName (Member.entry e m) = makeTagName e ++ m.suffix := by
  refine ⟨?_, makeTagName_entry⟩
  rw [(expandTags_eq entries result n h).2]
  exact (foldl_swapRemove_perm marked entries).append_right _

/-- Timers at both ends, two of them side by side, and one between the tags that are kept. -/
def timers : List TagEntry :=
  [0x8F83, 0xC4, 0x8F83, 0xC3, 0x8F83, 0x8F83].map fun type =>
    ⟨[], text "t", text "Program:p", 0, type, 0, 1, 0, fun _ => 0⟩

theorem expandTags_timers : ∃ r, expandTags timers = some r ∧ r.1.length = 22 := by
  have hrun : (expandTags timers).any (fun r => r.1.length = 22) = true := by decide +kernel
  cases h : expandTags timers with
  | none =>
    rw [h] at hrun
    cases hrun
  | some r =>
    rw [h] at hrun
    exact ⟨r, rfl, of_decide_eq_true hrun⟩

theorem expandTags_perm_timers :
    ∃ result n, expandTags timers = some (result, n) ∧
      result.Perm (timers.filter (fun e => !marked e) ++
        timers.flatMap fun e => (memberList e).map fun m => m.entry e) ∧ result.length = 22 := by
  obtain ⟨⟨result, n⟩, h, hlength⟩ := expandTags_timers
  exact ⟨result, n, h, (expandTags_perm timers result n h).1, hlength⟩

/-! ## Which entries are kept -/

def stringLgx : UInt16 := 0x8FCE

/-- The low bytes of the atomic types that can be profiled. -/
def atomicCodes : List UInt16 := [0xC1, 0xC2, 0xC3, 0xC4, 0xC5, 0xCA]

/-- The words of the types that are to be profiled, whatever their dimension bits. -/
def Profiled (type : UInt16) : Prop :=
  type &&& 0x9FFF = stringLgx ∨ type &&& 0x9000 = 0 ∧ type &&& 0xff ∈ atomicCodes

/-- No array of `STRING`, no structured or system type with the low byte of an atomic type, and no
word with the low byte of the CIP type `STRING`. -/
structure WellSorted (type : UInt16) : Prop where
  array : type &&& 0x9FFF = stringLgx → type = stringLgx
  atomic : type &&& 0xff ∈ atomicCodes → type &&& 0x9000 = 0
  string : type &&& 0xff ≠ 0xD0

/-- The name passes the test at the end of the chain. -/
def BaseName (name : Text) : Prop :=
  name ≠ [] ∧ name <:+: text "BIT SINT INT DINT LINT REAL STRING_LGX"

instance (name : Text) : Decidable (BaseName name) :=
  inferInstanceAs (Decidable (_ ∧ _))

/-- The names that the loop tests for before it comes to the base types. -/
def testedNames : List String :=
  [".UNKNOWN.", "Timer", "MESSAGE", "COUNTER", "ALARM_DIGITAL", "XFR_TYPE", "1756_DI_C",
    "1756_DI_I", "1756_DO_C", "1756_IF16_C"] ++ removedTypes

theorem testedNames_not_base : ∀ name ∈ testedNames, ¬BaseName (text name) := by decide +kernel

theorem expansion_of_baseName (e : TagEntry) (h : BaseName (getTagType e.type [])) :
    expansion e = some ⟨false, [], 1⟩ := by
  have hne : ∀ name ∈ testedNames, ¬getTagType e.type [] = text name := by
    intro name hname heq
    exact testedNames_not_base name hname (heq ▸ h)
  have hremoved : ¬(removedTypes.any fun t => getTagType e.type [] = text t) = true := by
    simp only [List.any_eq_true, decide_eq_true_eq, not_exists, not_and]
    intro name hname
    exact hne name (List.mem_append_right _ hname)
  have hnone : ¬(getTagType e.type [] = [] ∨ getTagType e.type [] = text ".UNKNOWN.") := by
    rintro (hnil | hunknown)
    · exact h.1 hnil
    · exact hne _ (by decide) hunknown
  unfold expansion
  dsimp only
  rw [if_neg hnone, if_neg (hne "Timer" (by decide)), if_neg (hne "MESSAGE" (by decide)),
    if_neg (hne "COUNTER" (by decide)), if_neg (hne "ALARM_DIGITAL" (by decide)),
    if_neg (hne "XFR_TYPE" (by decide)), if_neg (hne "1756_DI_C" (by decide)),
    if_neg (hne "1756_DI_I" (by decide)), if_neg (hne "1756_DO_C" (by decide)),
    if_neg (hne "1756_IF16_C" (by decide)), if_neg hremoved, if_pos h.2]

theorem remove_of_ite {c : Prop} [Decidable c] {x y : Expansion} {rest : Option Expansion}
    (hthen : y.remove = true) (helse : rest = some x → x.remove = true)
    (h : (if c then some y else rest) = some x) : x.remove = true := by
  by_cases hc : c
  · rw [if_pos hc] at h
    cases h
    exact hthen
  · rw [if_neg hc] at h
    exact helse h

theorem expansion_remove (e : TagEntry) (x : Expansion) (h : expansion e = some x)
    (hbase : ¬BaseName (getTagType e.type [])) : x.remove = true := by
  have hnil : ¬getTagType e.type [] = [] → ¬getTagType e.type [] <:+:
      text "BIT SINT INT DINT LINT REAL STRING_LGX" := fun hne hinfix => hbase ⟨hne, hinfix⟩
  unfold expansion at h
  by_cases hnone : getTagType e.type [] = [] ∨ getTagType e.type [] = text ".UNKNOWN."
  · rw [if_pos hnone] at h
    cases h
    rfl
  rw [if_neg hnone, if_neg (hnil fun hnil => hnone (.inl hnil))] at h
  iterate 10 refine remove_of_ite rfl (fun h => ?_) h
  cases h

theorem marked_eq_false_iff (e : TagEntry) (x : Expansion) (h : expansion e = some x) :
    marked e = false ↔ BaseName (getTagType e.type []) := by
  have hmarked : marked e = x.remove := by
    unfold marked
    rw [h]
    rfl
  constructor
  · intro hfalse
    by_contra hbase
    rw [hmarked, expansion_remove e x h hbase] at hfalse
    cases hfalse
  · intro hbase
    unfold marked
    rw [expansion_of_baseName e hbase]
    rfl

/-! ## The type words -/

/-- What the code keeps: the low bytes it knows, whatever stands above them, and `STRING_LGX`. -/
def Kept (type : UInt16) : Prop :=
  type &&& 0xff ∈ atomicCodes ∨ type &&& 0xff = 0xD0 ∨ type = stringLgx

instance (type : UInt16) : Decidable (Kept type) :=
  inferInstanceAs (Decidable (_ ∨ _))

theorem baseName_key : ∀ p ∈ cipDataMap, BaseName (getTagType p.1 []) ↔ Kept p.1 := by
  decide +kernel

theorem baseName_lowByte : ∀ n < 256,
    BaseName (mapFind (UInt16.ofNat n) []) ↔
      UInt16.ofNat n ∈ atomicCodes ∨ UInt16.ofNat n = 0xD0 := by decide +kernel

theorem baseName_iff (type : UInt16) : BaseName (getTagType type []) ↔ Kept type := by
  by_cases hkey : type ∈ cipDataMap.map Prod.fst
  · obtain ⟨p, hp, rfl⟩ := List.mem_map.mp hkey
    exact baseName_key p hp
  · have hfind : mapFind type [] = [] := by
      unfold mapFind
      rw [List.find?_eq_none.mpr]
      · rfl
      · intro p hp
        rw [decide_eq_true_eq]
        intro heq
        exact hkey (List.mem_map.mpr ⟨p, hp, heq⟩)
    have hne : type ≠ stringLgx := by
      rintro rfl
      exact hkey (by decide)
    have hlt : (type &&& 0xff).toNat < 256 := by
      rw [UInt16.toNat_and]
      exact Nat.lt_of_le_of_lt Nat.and_le_right (by decide)
    have hbyte := baseName_lowByte (type &&& 0xff).toNat hlt
    rw [UInt16.ofNat_toNat] at hbyte
    unfold getTagType Kept
    dsimp only
    rw [if_pos hfind, hbyte]
    simp [hne]

theorem lowByte_masked (type : UInt16) : (type &&& 0x9FFF) &&& 0xff = type &&& 0xff := by
  rw [UInt16.and_assoc]
  rfl

/-- The words on which the code keeps what is to be profiled. -/
theorem kept_iff_profiled_iff (type : UInt16) :
    (Kept type ↔ Profiled type) ↔ WellSorted type := by
  have hmasked : type &&& 0x9FFF = stringLgx → type &&& 0xff = 0xCE := by
    intro h
    rw [← lowByte_masked, h]
    decide
  have hstring : type = stringLgx → type &&& 0x9FFF = stringLgx := by
    rintro rfl
    decide
  have hlow : (0xCE : UInt16) ∉ atomicCodes ∧ (0xD0 : UInt16) ∉ atomicCodes := by decide
  unfold Kept Profiled
  constructor
  · intro h
    refine ⟨fun harray => ?_, fun hatomic => ?_, fun hd0 => ?_⟩
    · rcases h.mpr (.inl harray) with hatomic | hd0 | hlgx
      · exact absurd (hmasked harray ▸ hatomic) hlow.1
      · exact absurd (hmasked harray ▸ hd0) (by decide)
      · exact hlgx
    · rcases h.mp (.inl hatomic) with harray | ⟨hbits, _⟩
      · exact absurd (hmasked harray ▸ hatomic) hlow.1
      · exact hbits
    · rcases h.mp (.inr (.inl hd0)) with harray | ⟨_, hatomic⟩
      · exact absurd (hmasked harray ▸ hd0) (by decide)
      · exact absurd (hd0 ▸ hatomic) hlow.2
  · intro h
    constructor
    · rintro (hatomic | hd0 | hlgx)
      · exact .inr ⟨h.atomic hatomic, hatomic⟩
      · exact absurd hd0 h.string
      · exact .inl (hstring hlgx)
    · rintro (harray | ⟨_, hatomic⟩)
      · exact .inr (.inr (h.array harray))
      · exact .inl hatomic

/-- A list that is expanded without a trap has just the tags to be profiled kept, when all its words
are sorted well. -/
theorem marked_iff_profiled (entries : List TagEntry) (r : List TagEntry × ℤ)
    (h : expandTags entries = some r) :
    (∀ e ∈ entries, marked e = false ↔ Profiled e.type) ↔ ∀ e ∈ entries, WellSorted e.type := by
  obtain ⟨hsome, _⟩ := expandTags_eq entries r.1 r.2 h
  have hentry : ∀ e ∈ entries, (marked e = false ↔ Profiled e.type) ↔ WellSorted e.type := by
    intro e he
    obtain ⟨x, hx⟩ := hsome e he
    rw [marked_eq_false_iff e x hx, baseName_iff, kept_iff_profiled_iff]
  constructor
  · intro hkept e he
    exact (hentry e he).mp (hkept e he)
  · intro hsorted e he
    exact (hentry e he).mpr (hsorted e he)

theorem marked_iff_profiled_timers :
    (∃ r, expandTags timers = some r) ∧
      ((∀ e ∈ timers, marked e = false ↔ Profiled e.type) ↔ ∀ e ∈ timers, WellSorted e.type) := by
  obtain ⟨r, h, -⟩ := expandTags_timers
  exact ⟨⟨r, h⟩, marked_iff_profiled timers r h⟩

def structEntry : TagEntry := ⟨[], text "s", [], 0, 0x80C4, 0, 1, 0, fun _ => 0⟩

theorem structEntry_kept :
    (expandTags [structEntry]).map Prod.snd = some 1 ∧
      ¬∀ e ∈ [structEntry], marked e = false ↔ Profiled e.type := by
  refine ⟨by decide +kernel, fun h => ?_⟩
  have hprofiled : Profiled 0x80C4 :=
    (h structEntry (List.mem_singleton.mpr rfl)).mp (by decide +kernel)
  revert hprofiled
  unfold Profiled
  decide

end Plctagt.Gui
