import Plctagt.Foundations.StaleWork
import Plctagt.Listing.ListTags

/-! # Sequences of listings

The queue of the UDT phase outlives a call, and a phase that stopped early leaves ids in it. What a
call returns and requests is compared with what it would do as the first call of a process.
-/
namespace Plctagt.Listing
open Decimal Tag Worklist Relation
set_option autoImplicit false

structure ListCall where
  plc : Plc
  turns : ℕ
  gateway : Text
  path : Text

def ListCall.run (c : ListCall) : Step (ℤ × List TagEntry) :=
  listTags c.plc c.turns c.gateway c.path

/-- What a caller and the controller see of a step: what it returns, and the ids it requests. -/
def outcome {α : Type} : EStateM.Result Halt Statics α → Except Halt α × List UInt16
  | .ok a s => (.ok a, s.opened)
  | .error e s => (.error e, s.opened)

/-- The calls a process gets to make, each with the statics it finds. -/
def calls : List ListCall → Statics → List (ListCall × Statics)
  | [], _ => []
  | c :: cs, s => (c, s) ::
    match c.run s with
    | .ok _ s' => calls cs s'
    | .error _ _ => []

/-- Nothing that earlier calls have left can show in this one: its seeds overflow the array in any
case, or there is room for what it queues, and what is left over from earlier calls is a beginning
of its own seeds or begins like them up to an id that ends the phase. -/
def Undisturbed (c : ListCall) (s : Statics) : Prop :=
  c.plc.checkLibVersion = plctagStatusOk → ∀ base tagList,
    tagListing c.plc c.turns c.gateway c.path = .ok (base, tagList) →
      s.lastUdt = 0 ∨ (s.lastUdt < maxUdts ∧ maxUdts ≤ (seeds tagList).length) ∨
        (SeedRoom s (seeds tagList) ∧
          Harmless (visit c.plc base) (pending s) (seeds tagList) ∧
          ∀ w, Turns (visit c.plc base) (start (pending s ++ seeds tagList)) w →
            Room (consumed s) w)

/-! ## The UDT phase -/

def workOutcome (w : Work UInt16 Stop) : Except Halt Unit × List UInt16 :=
  (match w.ended with
    | some (.halt e) => .error e
    | _ => .ok (), requested w)

theorem outcome_of_result {old : List UInt16} {w : Work UInt16 Stop}
    {r : EStateM.Result Halt Statics Unit} (h : Result old w r) : outcome r = workOutcome w := by
  unfold Result at h
  unfold workOutcome
  cases hend : w.ended with
  | none =>
    rw [hend] at h
    obtain ⟨s, rfl, hm⟩ := h
    rw [requested_of_none hend, ← hm.opened]
    rfl
  | some e =>
    rw [hend] at h
    cases e with
    | unsupported =>
      obtain ⟨s, rfl, hopened, -⟩ := h
      rw [← hopened]
      rfl
    | halt e =>
      obtain ⟨s, rfl, hopened⟩ := h
      rw [← hopened]
      rfl

theorem cleared_clear {s : Statics} (h : Bounded s) : Cleared (clear s) :=
  ⟨⟨h.current_le, h.last_le⟩, fun _ => rfl, rfl⟩

theorem bounded_fresh : Bounded fresh := ⟨le_rfl, Nat.zero_le _⟩

section Phase
variable (plc : Plc) (base : Text) (tagList : List TagNode) {s : Statics} (hs : Bounded s)
include hs

theorem clear_eq_fresh (h : s.lastUdt = 0) : clear s = fresh := by
  have hqueue : s.udtsToProcess = [] := List.length_eq_zero_iff.mp h
  have hcurrent : s.currentUdt = 0 := Nat.le_zero.mp (h ▸ hs.current_le)
  unfold clear fresh
  rw [hqueue, hcurrent]

/-- Seeds that are too many for an empty array end the call in any case. -/
theorem collectUdts_overflow (hlt : s.lastUdt < maxUdts) (hfull : maxUdts ≤ (seeds tagList).length) :
    outcome (collectUdts plc base tagList (clear s)) = (.error .exit, []) := by
  have hroom : ¬ SeedRoom (clear s) (seeds tagList) := by
    rintro (hnil | hlt')
    · rw [hnil] at hfull
      exact absurd hfull (by decide)
    · omega
  obtain ⟨s', hopened, hs'⟩ := collectUdts_full plc base tagList (cleared_clear hs).toBounded hroom
  have hlt' : (clear s).lastUdt < maxUdts := hlt
  rw [hs', if_pos hlt']
  show (Except.error Halt.exit, s'.opened) = _
  rw [hopened]
  rfl

theorem collectUdts_harmless (hroom : SeedRoom s (seeds tagList))
    (hharmless : Harmless (visit plc base) (pending s) (seeds tagList))
    (hfits : ∀ w, Turns (visit plc base) (start (pending s ++ seeds tagList)) w →
      Room (consumed s) w) :
    outcome (collectUdts plc base tagList (clear s)) =
      outcome (collectUdts plc base tagList fresh) := by
  have hstale := stale_start (visit plc base) hharmless
  have hroom₀ : SeedRoom fresh (seeds tagList) := by
    rcases hroom with hnil | hlt
    · exact .inl hnil
    · exact .inr (by
        show 0 + (seeds tagList).length < maxUdts
        omega)
  obtain ⟨w₁, hrun₁, ⟨hover₁, -, hres₁⟩ | ⟨hfull, -⟩⟩ :=
    collectUdts_run plc base tagList (cleared_clear bounded_fresh) hroom₀
  · obtain ⟨w₂, hrun₂, ⟨hover₂, -, hres₂⟩ | ⟨hfull, -⟩⟩ :=
      collectUdts_run plc base tagList (cleared_clear hs) hroom
    · obtain ⟨w, hrun, hsame⟩ := stale_ends (visit plc base) hstale hrun₁ hover₁
      obtain rfl : w₂ = w := over_unique (visit plc base) hrun₂ hover₂ hrun hsame.over₂
      have hwork : workOutcome w₂ = workOutcome w₁ := by
        unfold workOutcome
        rw [hsame.ended, hsame.requested]
      exact (outcome_of_result hres₂).trans (hwork.trans (outcome_of_result hres₁).symm)
    · exact absurd (hfits w₂ hrun₂) hfull
  · -- the work of the fresh process never has the longer queue
    obtain ⟨w, hrun, hle⟩ := stale_length (visit plc base) hstale hrun₁
    have hw : (consumed s).length + w.queue.length ≤ maxUdts := hfits w hrun
    refine absurd ?_ hfull
    show 0 + w₁.queue.length ≤ maxUdts
    omega

theorem collectUdts_bounded {s' : Statics} (h : collectUdts plc base tagList (clear s) = .ok () s') :
    Bounded s' := by
  by_cases hroom : SeedRoom (clear s) (seeds tagList)
  · obtain ⟨w, hrun, ⟨-, hw, hres⟩ | ⟨-, s₁, hs₁⟩⟩ :=
      collectUdts_run plc base tagList (cleared_clear hs) hroom
    · unfold Result at hres
      rw [h] at hres
      cases hend : w.ended with
      | none =>
        rw [hend] at hres
        obtain ⟨_, ⟨⟩, hm⟩ := hres
        have hcursor := (sound_turns _ hrun).cursor_le
        refine ⟨?_, ?_⟩
        · rw [hm.current, hm.lastUdt]
          omega
        · rw [hm.lastUdt]
          exact hw
      | some e =>
        rw [hend] at hres
        cases e with
        | unsupported =>
          obtain ⟨_, ⟨⟩, -, hlt, hle⟩ := hres
          exact ⟨Nat.le_of_lt hlt, hle⟩
        | halt e => exact nomatch hres
    · rw [h] at hs₁
      exact nomatch hs₁
  · obtain ⟨s₁, -, hs₁⟩ := collectUdts_full plc base tagList (cleared_clear hs).toBounded hroom
    rw [h] at hs₁
    exact nomatch hs₁

end Phase

/-! ## A call -/

section Call
variable (c : ListCall) (s : Statics)

/-- What a call returns after its UDT phase. -/
def finish (plc : Plc) (tagList : List TagNode) (x : Except Halt Unit × List UInt16) :
    Except Halt (ℤ × List TagEntry) × List UInt16 :=
  (x.1.bind fun _ => (exportEntries plc.heap 0 tagList).map fun entries => (0, entries), x.2)

theorem outcome_run (h : c.plc.checkLibVersion = plctagStatusOk) {base : Text}
    {tagList : List TagNode}
    (hlist : tagListing c.plc c.turns c.gateway c.path = .ok (base, tagList)) :
    outcome (c.run s) = finish c.plc tagList (outcome (collectUdts c.plc base tagList (clear s))) := by
  rw [ListCall.run, listTags_listing s h hlist]
  cases hc : collectUdts c.plc base tagList (clear s) with
  | error e s₁ =>
    rw [bind_of_error _ hc]
    rfl
  | ok _ s₁ =>
    rw [bind_of_ok _ hc]
    unfold finish
    cases hx : exportEntries c.plc.heap 0 tagList <;> rfl

theorem run_bounded (hs : Bounded s) {s' : Statics} {x : ℤ × List TagEntry}
    (h : c.run s = .ok x s') : Bounded s' := by
  by_cases hversion : c.plc.checkLibVersion = plctagStatusOk
  · obtain ⟨-, base, tagList, s₁, -, hc, -, rfl⟩ := listTags_ok s h hversion
    have hb := collectUdts_bounded c.plc base tagList hs hc
    exact ⟨hb.current_le, hb.last_le⟩
  · rw [ListCall.run, listTags_version s hversion] at h
    obtain ⟨-, rfl⟩ := EStateM.Result.ok.inj h
    exact ⟨hs.current_le, hs.last_le⟩

/-- An undisturbed call does what it would do as the first call of a process. -/
theorem run_undisturbed (hs : Bounded s) (h : Undisturbed c s) :
    outcome (c.run s) = outcome (c.run fresh) := by
  unfold ListCall.run
  by_cases hversion : c.plc.checkLibVersion = plctagStatusOk
  · cases hlist : tagListing c.plc c.turns c.gateway c.path with
    | error e =>
      rw [listTags_error s hversion hlist, listTags_error fresh hversion hlist]
      rfl
    | ok y =>
      have hout := outcome_run c s hversion hlist
      have hout₀ := outcome_run c fresh hversion hlist
      unfold ListCall.run at hout hout₀
      rw [hout, hout₀]
      refine congrArg (finish c.plc y.2) ?_
      rcases h hversion y.1 y.2 hlist with hempty | ⟨hlt, hfull⟩ | ⟨hroom, hharmless, hfits⟩
      · rw [clear_eq_fresh hs hempty]
        rfl
      · rw [collectUdts_overflow c.plc y.1 y.2 hs hlt hfull,
          collectUdts_overflow c.plc y.1 y.2 bounded_fresh (by decide) hfull]
      · exact collectUdts_harmless c.plc y.1 y.2 hs hroom hharmless hfits
  · rw [listTags_version s hversion, listTags_version fresh hversion]
    rfl

end Call

/-! ## Sequences of calls -/

theorem bounded_of_calls (cs : List ListCall) {s : Statics} (hs : Bounded s) :
    ∀ p ∈ calls cs s, Bounded p.2 := by
  induction cs generalizing s with
  | nil => exact fun p hp => absurd hp List.not_mem_nil
  | cons c cs ih =>
    intro p hp
    rcases List.mem_cons.mp hp with rfl | hp
    · exact hs
    · cases hr : c.run s with
      | ok x s' =>
        rw [hr] at hp
        exact ih (run_bounded c s hs hr) p hp
      | error e s' =>
        rw [hr] at hp
        exact absurd hp List.not_mem_nil

/-- In a process whose calls are all undisturbed, each call returns, appends and requests what it
would as the first call. -/
theorem calls_undisturbed (cs : List ListCall) (h : ∀ p ∈ calls cs fresh, Undisturbed p.1 p.2) :
    ∀ p ∈ calls cs fresh, outcome (p.1.run p.2) = outcome (p.1.run fresh) := by
  intro p hp
  exact run_undisturbed p.1 p.2 (bounded_of_calls cs bounded_fresh p hp) (h p hp)

instance decidableSeedRoom (s : Statics) (ids : List UInt16) : Decidable (SeedRoom s ids) :=
  inferInstanceAs (Decidable (_ ∨ _))

/-- `Undisturbed` by its last case, for a call whose work is over after `n` turns. -/
def undisturbed (n : ℕ) (c : ListCall) (s : Statics) : Bool :=
  match tagListing c.plc c.turns c.gateway c.path with
  | .error _ => true
  | .ok (base, tagList) =>
    let w := advance (visit c.plc base) n (start (pending s ++ seeds tagList))
    SeedRoom s (seeds tagList) ∧ Harmless (visit c.plc base) (pending s) (seeds tagList) ∧
      Over w ∧ Room (consumed s) w

theorem undisturbed_sound {n : ℕ} {c : ListCall} {s : Statics} (h : undisturbed n c s = true) :
    Undisturbed c s := by
  intro _ base tagList hlist
  rw [undisturbed, hlist] at h
  obtain ⟨hseeds, hharmless, hover, hroom⟩ := of_decide_eq_true h
  refine .inr (.inr ⟨hseeds, hharmless, fun w hw => ?_⟩)
  exact (Nat.add_le_add_left (queue_le_of_over _ hover hw) _).trans hroom

/-! ## Controllers with structured tags -/

def tagRecord (low high : UInt8) : List UInt8 :=
  [1, 0, 0, 0, low, high, 4, 0, 0, 0, 0, 0, 0, 0, 0, 0, 0, 0, 0, 0, 1, 0, 65]

def oneTagCall (gateway : Text) (low high : UInt8) : ListCall where
  plc := imagePlc [(tagStringBase gateway (text "1") ++ text "@tags", listingTagLogixByteOrder,
    tagRecord low high)]
  turns := 1
  gateway := gateway
  path := text "1"

/-- A tag for each of the ids, which are seeds from the last one on, and the templates of some of
them: one DINT each. -/
def structsCall (gateway : Text) (ids templates : List UInt8) : ListCall where
  plc := imagePlc <|
    (tagStringBase gateway (text "1") ++ text "@tags", listingTagLogixByteOrder,
        ids.flatMap fun id => tagRecord id 0x80) ::
      templates.map fun id =>
        (tagStringBase gateway (text "1") ++ text "@udt/" ++ [48 + id], udtTagLogixByteOrder,
          [id, 0, 0, 0, 0, 0, 4, 0, 0, 0, 1, 0, 0, 0, 0, 0, 0xC4, 0, 0, 0, 0, 0, 85, 59, 0, 86, 0])
  turns := ids.length
  gateway := gateway
  path := text "1"

/-- A controller that lists no templates is asked twice, then one that does: the second call finds
ids 1 and 2 left over and stops at 1 again, the third finds a beginning of its own seeds. -/
def refusedCalls : List ListCall :=
  [structsCall (text "a") [2, 1] [], structsCall (text "a") [1] [],
    structsCall (text "b") [3, 1, 2, 1] [1, 2, 3]]

theorem calls_undisturbed_leftovers :
    (calls refusedCalls fresh).map (fun p => pending p.2) = [[], [1, 2], [1, 2, 1]] ∧
    (calls refusedCalls fresh).map (fun p => (outcome (p.1.run p.2)).2) = [[1], [1], [1, 2, 3]] ∧
    ∀ p ∈ calls refusedCalls fresh, outcome (p.1.run p.2) = outcome (p.1.run fresh) := by
  refine ⟨by decide +kernel, by decide +kernel, calls_undisturbed _ fun p hp => ?_⟩
  have hall : (calls refusedCalls fresh).all (fun p => undisturbed 8 p.1 p.2) = true := by
    decide +kernel
  exact undisturbed_sound (List.all_eq_true.mp hall p hp)

/-- A controller that refuses template 1 leaves the id in the queue, and the next call requests it,
for a tag list without structured tags. -/
theorem calls_stale_request : ¬ ∀ cs, ∀ p ∈ calls cs fresh,
    outcome (p.1.run p.2) = outcome (p.1.run fresh) := by
  intro h
  have hall : (calls [oneTagCall (text "a") 1 0x80, oneTagCall (text "b") 0xC4 0] fresh).all
      (fun p => (outcome (p.1.run p.2)).2 = (outcome (p.1.run fresh)).2) = true :=
    List.all_eq_true.mpr fun p hp => decide_eq_true (congrArg Prod.snd (h _ p hp))
  exact absurd hall (by decide +kernel)

end Plctagt.Listing
