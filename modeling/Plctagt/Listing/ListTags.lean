import Plctagt.Listing.Run

/-! # Listing a controller: the call

`list_tags`, with the UDT phase as a step of its own, and what the phase does from any statics that
earlier calls may leave.
-/
namespace Plctagt.Listing
open Decimal Tag Worklist Relation
set_option autoImplicit false

/-- The UDT phase. The queue is consumed within as many turns as it has room for, and one more. -/
def collectUdts (plc : Plc) (base : Text) (tagList : List TagNode) : Step Unit := do
  seedUdts tagList
  processUdts plc base (maxUdts + 1)

def clearUdts : Step Unit := modify fun s => { s with udts := fun _ => none }

/-- `list_tags` from the clearing of the table to the end of the processing loop. -/
def listWithUdts (plc : Plc) (turns : ℕ) (gateway path : Text) : Step (Text × List TagNode) := do
  clearUdts
  let (base, tagList) ← lift (tagListing plc turns gateway path)
  collectUdts plc base tagList
  pure (base, tagList)

/-- `list_tags`: the status, and the entries it appends. -/
def listTags (plc : Plc) (turns : ℕ) (gateway path : Text) : Step (ℤ × List TagEntry) := do
  modify fun s => { s with opened := [] }
  if plc.checkLibVersion ≠ plctagStatusOk then pure (1, [])
  else do
    let (_, tagList) ← listWithUdts plc turns gateway path
    let entries ← lift (exportEntries plc.heap 0 tagList)
    clearUdts
    pure (0, entries)

theorem listWithUdts_eq {plc : Plc} {turns : ℕ} {gateway path base : Text}
    {tagList : List TagNode} (h : tagListing plc turns gateway path = .ok (base, tagList))
    (s : Statics) :
    listWithUdts plc turns gateway path s = (collectUdts plc base tagList >>= fun _ =>
      pure (base, tagList)) { s with udts := fun _ => none } := by
  show (lift (tagListing plc turns gateway path) >>= _ : Step (Text × List TagNode)) _ = _
  rw [h]
  rfl

def seeds (tagList : List TagNode) : List UInt16 :=
  (tagList.filter fun tag => isUdtType tag.type).map fun tag => udtId tag.type

/-! ## How a call goes on -/

/-- The statics at the start of a call's UDT phase. -/
def clear (s : Statics) : Statics := { s with udts := fun _ => none, opened := [] }

section Call
variable {plc : Plc} {turns : ℕ} {gateway path : Text} (s : Statics)

theorem listTags_version (h : plc.checkLibVersion ≠ plctagStatusOk) :
    listTags plc turns gateway path s = .ok (1, []) { s with opened := [] } := by
  show (if plc.checkLibVersion ≠ plctagStatusOk then _ else _ : Step (ℤ × List TagEntry)) _ = _
  rw [if_pos h]
  rfl

theorem listTags_error (h : plc.checkLibVersion = plctagStatusOk) {e : Halt}
    (hlist : tagListing plc turns gateway path = .error e) :
    listTags plc turns gateway path s = .error e (clear s) := by
  show (if plc.checkLibVersion ≠ plctagStatusOk then _ else _ : Step (ℤ × List TagEntry)) _ = _
  rw [if_neg (not_not.mpr h)]
  refine bind_of_error _ ?_
  show (lift (tagListing plc turns gateway path) >>= _ : Step (Text × List TagNode)) _ = _
  rw [hlist]
  rfl

theorem listTags_listing (h : plc.checkLibVersion = plctagStatusOk) {base : Text}
    {tagList : List TagNode}
    (hlist : tagListing plc turns gateway path = .ok (base, tagList)) :
    listTags plc turns gateway path s = (collectUdts plc base tagList >>= fun _ =>
      lift (exportEntries plc.heap 0 tagList) >>= fun entries =>
        clearUdts >>= fun _ => pure (0, entries)) (clear s) := by
  show (if plc.checkLibVersion ≠ plctagStatusOk then _ else _ : Step (ℤ × List TagEntry)) _ = _
  rw [if_neg (not_not.mpr h)]
  show (listWithUdts plc turns gateway path >>= _ : Step (ℤ × List TagEntry)) _ = _
  have hstep := listWithUdts_eq hlist { s with opened := [] }
  cases hc : collectUdts plc base tagList (clear s) with
  | error e s₁ =>
    rw [bind_of_error _ hc, bind_of_error _ (hstep.trans (bind_of_error _ hc))]
  | ok _ s₁ =>
    rw [bind_of_ok _ hc, bind_of_ok _ (hstep.trans (bind_of_ok _ hc))]

theorem listTags_ok {entries : List TagEntry} {s' : Statics} {rc : ℤ}
    (h : listTags plc turns gateway path s = .ok (rc, entries) s')
    (hversion : plc.checkLibVersion = plctagStatusOk) :
    rc = 0 ∧ ∃ base tagList s₁, tagListing plc turns gateway path = .ok (base, tagList) ∧
      collectUdts plc base tagList (clear s) = .ok () s₁ ∧
      exportEntries plc.heap 0 tagList = .ok entries ∧ s' = { s₁ with udts := fun _ => none } := by
  cases hlist : tagListing plc turns gateway path with
  | error e =>
    rw [listTags_error s hversion hlist] at h
    exact nomatch h
  | ok y =>
    rw [listTags_listing s hversion hlist] at h
    cases hc : collectUdts plc y.1 y.2 (clear s) with
    | error e s₁ =>
      rw [bind_of_error _ hc] at h
      exact nomatch h
    | ok _ s₁ =>
      rw [bind_of_ok _ hc] at h
      cases hx : exportEntries plc.heap 0 y.2 with
      | error e =>
        rw [hx] at h
        exact nomatch h
      | ok es =>
        rw [hx] at h
        obtain ⟨hres, rfl⟩ := EStateM.Result.ok.inj h
        obtain ⟨rfl, rfl⟩ := Prod.mk.inj hres
        exact ⟨rfl, y.1, y.2, s₁, rfl, hc, hx, rfl⟩

end Call

/-! ## Queueing the seeds -/

/-- The walk that queues the seeds does not leave while there is a free place after the last. -/
def SeedRoom (s : Statics) (ids : List UInt16) : Prop :=
  ids = [] ∨ s.lastUdt + ids.length < maxUdts

theorem seedRoom_cons {s s₁ : Statics} (id : UInt16) (ids : List UInt16)
    (hlast : s₁.lastUdt = s.lastUdt + 1) (hlt : s₁.lastUdt < maxUdts) :
    SeedRoom s (id :: ids) ↔ SeedRoom s₁ ids := by
  unfold SeedRoom
  rw [List.length_cons]
  constructor
  · rintro (h | h)
    · exact absurd h (List.cons_ne_nil _ _)
    · exact .inr (by omega)
  · rintro (h | h)
    · rw [h, List.length_nil]
      exact .inr (by omega)
    · exact .inr (by omega)

theorem seedUdts_eq (tagList : List TagNode) (s : Statics) (hle : s.lastUdt ≤ maxUdts) :
    (SeedRoom s (seeds tagList) → seedUdts tagList s =
      .ok () { s with udtsToProcess := s.udtsToProcess ++ seeds tagList }) ∧
    (¬ SeedRoom s (seeds tagList) → ∃ s', s'.opened = s.opened ∧
      seedUdts tagList s = .error (if s.lastUdt < maxUdts then .exit else .overrun) s') := by
  induction tagList generalizing s with
  | nil =>
    refine ⟨fun _ => ?_, fun h => absurd (.inl rfl) h⟩
    show EStateM.Result.ok () s = _
    simp [seeds]
  | cons tag tagList ih =>
    by_cases htype : isUdtType tag.type = true
    · have hseeds : seeds (tag :: tagList) = udtId tag.type :: seeds tagList := by
        simp [seeds, htype]
      have hstep : seedUdts (tag :: tagList) s = (pushUdt (udtId tag.type) >>= fun _ =>
          get >>= fun s =>
            if maxUdts ≤ s.lastUdt then (throw Halt.exit : Step PUnit) >>= fun _ => seedUdts tagList
            else seedUdts tagList) s := by
        show (if isUdtType tag.type = true then _ else _ : Step Unit) s = _
        rw [if_pos htype]
      set s₁ : Statics := { s with udtsToProcess := s.udtsToProcess ++ [udtId tag.type] } with hs₁
      have hlast : s₁.lastUdt = s.lastUdt + 1 := by simp [hs₁, Statics.lastUdt]
      rw [hseeds, hstep]
      by_cases hfull : s.lastUdt < maxUdts
      · rw [bind_of_ok _ (pushUdt_ok _ s hfull)]
        show (_ → (if maxUdts ≤ s₁.lastUdt then _ else _ : Step Unit) s₁ = _) ∧
          (_ → ∃ s', _ ∧ (if maxUdts ≤ s₁.lastUdt then _ else _ : Step Unit) s₁ = _)
        by_cases hexit : maxUdts ≤ s₁.lastUdt
        · rw [if_pos hexit]
          refine ⟨fun h => ?_, fun _ => ⟨s₁, rfl, by rw [if_pos hfull]; rfl⟩⟩
          rcases h with h | h
          · exact absurd h (List.cons_ne_nil _ _)
          · rw [List.length_cons] at h
            omega
        · rw [if_neg hexit]
          obtain ⟨hok, herr⟩ := ih s₁ (by omega)
          rw [seedRoom_cons (udtId tag.type) (seeds tagList) hlast (Nat.lt_of_not_le hexit)]
          refine ⟨fun h => ?_, fun h => ?_⟩
          · show seedUdts tagList s₁ = _
            rw [hok h, hs₁]
            simp only [List.append_assoc, List.singleton_append]
          · obtain ⟨s', hopened, hs'⟩ := herr h
            rw [if_pos (by omega)] at hs'
            exact ⟨s', hopened, by rw [if_pos hfull]; exact hs'⟩
      · rw [bind_of_error _ (pushUdt_full _ s hfull)]
        refine ⟨fun h => ?_, fun _ => ⟨s, rfl, by rw [if_neg hfull]⟩⟩
        rcases h with h | h
        · exact absurd h (List.cons_ne_nil _ _)
        · omega
    · have hseeds : seeds (tag :: tagList) = seeds tagList := by simp [seeds, htype]
      have hstep : seedUdts (tag :: tagList) s = seedUdts tagList s := by
        show (if isUdtType tag.type = true then _ else _ : Step Unit) s = _
        rw [if_neg htype]
      rw [hseeds, hstep]
      exact ih s hle

/-! ## The UDT phase -/

def consumed (s : Statics) : List UInt16 := s.udtsToProcess.take s.currentUdt
def pending (s : Statics) : List UInt16 := s.udtsToProcess.drop s.currentUdt

/-- The statics between two calls. -/
structure Bounded (s : Statics) : Prop where
  current_le : s.currentUdt ≤ s.lastUdt
  last_le : s.lastUdt ≤ maxUdts

/-- The statics at the start of the UDT phase. -/
structure Cleared (s : Statics) : Prop extends Bounded s where
  udts : ∀ c, s.udts c = none
  opened : s.opened = []

theorem length_consumed {s : Statics} (h : Bounded s) : (consumed s).length = s.currentUdt :=
  List.length_take_of_le h.current_le

/-- With its seeds queued, a call's worklist starts behind what has been consumed, with what has
not been consumed in front of the seeds. -/
theorem matches_start {s : Statics} (h : Cleared s) (ids : List UInt16) :
    Matches (consumed s) { s with udtsToProcess := s.udtsToProcess ++ ids }
      (start (pending s ++ ids)) where
  queue := by
    show s.udtsToProcess ++ ids = consumed s ++ (pending s ++ ids)
    rw [← List.append_assoc, consumed, pending, List.take_append_drop]
  current := (length_consumed h.toBounded).symm
  udts c := by
    show (s.udts c).isSome = true ↔ c ∈ []
    simp [h.udts c]
  opened := h.opened

theorem collectUdts_full (plc : Plc) (base : Text) (tagList : List TagNode) {s : Statics}
    (h : Bounded s) (hroom : ¬ SeedRoom s (seeds tagList)) :
    ∃ s', s'.opened = s.opened ∧ collectUdts plc base tagList s =
      .error (if s.lastUdt < maxUdts then .exit else .overrun) s' := by
  obtain ⟨s', hopened, hs'⟩ := (seedUdts_eq tagList s h.last_le).2 hroom
  exact ⟨s', hopened, bind_of_error _ hs'⟩

theorem collectUdts_run (plc : Plc) (base : Text) (tagList : List TagNode) {s : Statics}
    (h : Cleared s) (hroom : SeedRoom s (seeds tagList)) :
    ∃ w, Turns (visit plc base) (start (pending s ++ seeds tagList)) w ∧
      ((Over w ∧ Room (consumed s) w ∧ Result (consumed s) w (collectUdts plc base tagList s)) ∨
        (¬ Room (consumed s) w ∧ ∃ s', collectUdts plc base tagList s = .error .overrun s')) := by
  have hstep : collectUdts plc base tagList s = processUdts plc base (maxUdts + 1)
      { s with udtsToProcess := s.udtsToProcess ++ seeds tagList } :=
    bind_of_ok _ ((seedUdts_eq tagList s h.last_le).1 hroom)
  rw [hstep]
  refine processUdts_run plc base (maxUdts + 1) (matches_start h _) rfl ?_ (Nat.zero_le _) ?_
  · show (consumed s).length + (pending s ++ seeds tagList).length ≤ maxUdts
    have hlen : (consumed s).length + (pending s).length = s.lastUdt := by
      rw [← List.length_append, consumed, pending, List.take_append_drop]
      rfl
    have hlast := h.last_le
    rw [List.length_append]
    rcases hroom with hnil | hlt
    · rw [hnil, List.length_nil]
      omega
    · omega
  · omega

end Plctagt.Listing
