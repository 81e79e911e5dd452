import Plctagt.Listing.Sequence
import Plctagt.Listing.Spared
import Plctagt.Listing.Template

/-! # Where the queue is stored to

`list_tags` looks whether there is a place left after each id it has queued, and not before the
first one. `get_udt_definition` does not look at all. So the stores of a call stay inside the array
when the worklist of its templates fits behind what earlier calls have left there.
-/
namespace Plctagt.Listing
open Decimal Tag Worklist Relation
set_option autoImplicit false

/-- The queue has room for what the UDT phase of a call will put there. -/
structure PhaseFits (plc : Plc) (base : Text) (tagList : List TagNode) (s : Statics) : Prop where
  seed : seeds tagList = [] ∨ s.lastUdt < maxUdts
  work : SeedRoom s (seeds tagList) →
    ∀ w, Turns (visit plc base) (start (pending s ++ seeds tagList)) w → Room (consumed s) w

/-- The call reads no tag list, or the queue has room for its UDT phase. -/
def Fits (c : ListCall) (s : Statics) : Prop :=
  c.plc.checkLibVersion = plctagStatusOk → ∀ base tagList,
    tagListing c.plc c.turns c.gateway c.path = .ok (base, tagList) →
      PhaseFits c.plc base tagList s

/-- No store of the call is outside the array. -/
def Inside (c : ListCall) (s : Statics) : Prop := ∀ s', c.run s ≠ .error .overrun s'

section Phase
variable (plc : Plc) (base : Text) (tagList : List TagNode) {s : Statics}

theorem seedRoom_lt (h : SeedRoom s (seeds tagList)) :
    seeds tagList = [] ∨ s.lastUdt < maxUdts := by
  rcases h with h | h
  · exact .inl h
  · exact .inr (by omega)

theorem result_inside {old : List UInt16} {ids : List UInt16} {w : Work UInt16 Stop}
    {r : EStateM.Result Halt Statics Unit} (hrun : Turns (visit plc base) (start ids) w)
    (hres : Result old w r) (s' : Statics) : r ≠ .error .overrun s' := by
  unfold Result at hres
  cases hend : w.ended with
  | none =>
    rw [hend] at hres
    obtain ⟨s₁, rfl, -⟩ := hres
    simp
  | some e =>
    rw [hend] at hres
    cases e with
    | unsupported =>
      obtain ⟨s₁, rfl, -⟩ := hres
      simp
    | halt e =>
      obtain ⟨s₁, rfl, -⟩ := hres
      intro h
      cases h
      obtain ⟨a, ha⟩ := ended_of_turns _ hrun hend
      exact visit_spares (by decide) (by decide) plc base a ha

theorem collectUdts_inside_iff (hs : Bounded s) :
    (∀ s', collectUdts plc base tagList (clear s) ≠ .error .overrun s') ↔
      PhaseFits plc base tagList s := by
  by_cases hroom : SeedRoom s (seeds tagList)
  · obtain ⟨w, hrun, ⟨hover, hw, hres⟩ | ⟨hw, s', hs'⟩⟩ :=
      collectUdts_run plc base tagList (cleared_clear hs) hroom
    · refine iff_of_true (fun s' => result_inside plc base hrun hres s')
        ⟨seedRoom_lt tagList hroom, fun _ w' hrun' => ?_⟩
      have hle := queue_le_of_turns _ (turns_of_over _ hrun hover hrun')
      exact (Nat.add_le_add_left hle _).trans hw
    · exact iff_of_false (fun h => h s' hs') fun h => hw (h.work hroom w hrun)
  · obtain ⟨s', -, hs'⟩ := collectUdts_full plc base tagList (cleared_clear hs).toBounded hroom
    have hlast : (clear s).lastUdt = s.lastUdt := rfl
    rw [hlast] at hs'
    by_cases hlt : s.lastUdt < maxUdts
    · rw [if_pos hlt] at hs'
      refine iff_of_true (fun s'' h => ?_) ⟨.inr hlt, fun h => absurd h hroom⟩
      rw [hs'] at h
      cases h
    · rw [if_neg hlt] at hs'
      refine iff_of_false (fun h => h s' hs') fun h => ?_
      rcases h.seed with hnil | h
      · exact hroom (.inl hnil)
      · exact hlt h

end Phase

theorem run_inside_iff (c : ListCall) {s : Statics} (hs : Bounded s) : Inside c s ↔ Fits c s := by
  unfold Inside ListCall.run
  by_cases hversion : c.plc.checkLibVersion = plctagStatusOk
  · cases hlist : tagListing c.plc c.turns c.gateway c.path with
    | error e =>
      refine iff_of_true (fun s' h => ?_) fun _ base tagList h => ?_
      · rw [listTags_error s hversion hlist] at h
        cases h
        exact spares_tagListing (by decide) (by decide) (by decide) c.plc c.turns _ _ hlist
      · rw [hlist] at h
        cases h
    | ok y =>
      have hphase : (∀ s', listTags c.plc c.turns c.gateway c.path s ≠ .error .overrun s') ↔
          ∀ s', collectUdts c.plc y.1 y.2 (clear s) ≠ .error .overrun s' := by
        rw [listTags_listing s hversion hlist]
        cases hc : collectUdts c.plc y.1 y.2 (clear s) with
        | error e s₁ =>
          rw [bind_of_error _ hc]
          constructor
          · intro h s' he
            cases he
            exact h s₁ rfl
          · intro h s' he
            cases he
            exact h s₁ rfl
        | ok _ s₁ =>
          rw [bind_of_ok _ hc]
          refine iff_of_true (fun s' h => ?_) fun s' h => by cases h
          cases hx : exportEntries c.plc.heap 0 y.2 with
          | error e =>
            rw [hx] at h
            cases h
            exact spares_exportEntries (by decide) c.plc.heap 0 y.2 hx
          | ok entries =>
            rw [hx] at h
            cases h
      rw [hphase, collectUdts_inside_iff c.plc y.1 y.2 hs]
      constructor
      · intro h _ base tagList hlist'
        rw [hlist] at hlist'
        cases hlist'
        exact h
      · intro h
        exact h hversion y.1 y.2 hlist
  · refine iff_of_true (fun s' h => ?_) fun h => absurd h hversion
    rw [listTags_version s hversion] at h
    cases h

/-- In a process no call stores outside the array, if and only if each call finds room in it. -/
theorem calls_inside_iff (cs : List ListCall) :
    (∀ p ∈ calls cs fresh, Inside p.1 p.2) ↔ ∀ p ∈ calls cs fresh, Fits p.1 p.2 := by
  have hcall : ∀ p ∈ calls cs fresh, Inside p.1 p.2 ↔ Fits p.1 p.2 :=
    fun p hp => run_inside_iff p.1 (bounded_of_calls cs bounded_fresh p hp)
  constructor
  · intro h p hp
    exact (hcall p hp).mp (h p hp)
  · intro h p hp
    exact (hcall p hp).mpr (h p hp)

def wideCall : ListCall where
  plc := imagePlc [(templateBase ++ text "@tags", listingTagLogixByteOrder,
      [1, 0, 0, 0, 1, 0x80, 4, 0, 0, 0, 0, 0, 0, 0, 0, 0, 0, 0, 0, 0, 1, 0, 65]),
    (templateBase ++ udtName wideTemplate.id, udtTagLogixByteOrder, wideTemplate.encode)]
  turns := 1
  gateway := text "t"
  path := text "1"

theorem holds_wideCall :
    HoldsTemplate (wideCall.plc.tag (templateBase ++ udtName 1)) wideTemplate := by
  have htag : wideCall.plc.tag (templateBase ++ udtName 1) =
      ⟨some wideTemplate.encode, false, 0, false, udtTagLogixByteOrder⟩ := rfl
  rw [htag]
  exact ⟨⟨[], by rw [List.append_nil], fun _ => rfl, by
    rw [List.append_nil]
    exact wideTemplate_size⟩, rfl, rfl⟩

/-- A process stores past the end of the queue in its first call. -/
theorem calls_overrun : ¬∀ cs, ∀ p ∈ calls cs fresh, Inside p.1 p.2 := by
  intro h
  have hmem : (wideCall, fresh) ∈ calls [wideCall] fresh := by
    unfold calls
    exact List.mem_cons_self
  have hinside : Inside wideCall fresh := h [wideCall] (wideCall, fresh) hmem
  have hfits := (run_inside_iff wideCall bounded_fresh).mp hinside
  have hlist : ∃ tagList, tagListing wideCall.plc 1 (text "t") (text "1") =
      .ok (templateBase, tagList) ∧ seeds tagList = [1] := ⟨_, rfl, rfl⟩
  obtain ⟨tagList, hlist, hseeds⟩ := hlist
  have hwork := (hfits rfl templateBase tagList hlist).work (.inr (by rw [hseeds]; decide))
  rw [hseeds] at hwork
  have hvisit : visit wideCall.plc templateBase 1 =
      ⟨fieldUdts (wideTemplate.fields.map Descriptor.field), none⟩ :=
    @visit_template wideCall.plc templateBase (templateBase ++ udtName 1) 1 wideTemplate (by rfl)
      (by rfl) holds_wideCall fun _ _ => rfl
  have hroom := hwork (next (visit wideCall.plc templateBase) (start [1]) 1)
    (.single ⟨rfl, 1, rfl, rfl⟩)
  have hqueue : (next (visit wideCall.plc templateBase) (start [1]) 1).queue =
      [1] ++ wideTemplate.queued fresh := by
    have hnew : ∀ c ∈ fieldUdts (wideTemplate.fields.map Descriptor.field),
        decide (c ∉ ([] : List UInt16) ++ [1]) = decide (c ≠ wideTemplate.id ∧
          (fresh.udts c).isNone) := by
      intro c _
      simp [fresh, wideTemplate]
    rw [next_queue _ List.not_mem_nil, hvisit, Template.queued, ← List.filter_congr hnew]
    rfl
  unfold Room at hroom
  rw [hqueue, List.length_append, length_wideTemplate] at hroom
  exact absurd hroom (by decide)

end Plctagt.Listing
