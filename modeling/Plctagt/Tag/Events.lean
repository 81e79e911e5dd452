import Plctagt.Foundations.Precedence
import Plctagt.Tag.Accessors

/-! # Events and the callback of a tag

`tag_raise_event` sets flags, `plc_tag_generic_handle_event_callbacks` hands what is flagged to the
callback. Both work under the mutex of the tag, in any order and from any thread, so that events are
put together and handed over late. The mutex is recursive: a callback may call the functions of its tag,
and then the event it was told of is still flagged and can be handed over again. The results are about
callbacks that do not.
-/
namespace Plctagt.Tag
open Precedence
set_option autoImplicit false

abbrev plctagErrDuplicate : ℤ := -12

inductive Operation where
  | read
  | write
  deriving DecidableEq

/-- `PLCTAG_EVENT_CREATED` and so on. -/
inductive TagEvent where
  | created
  | started (op : Operation)
  | aborted
  | completed (op : Operation)
  | destroyed
  deriving DecidableEq

/-- The flags of the events with their statuses, and the other fields that `tag_raise_event` reads. -/
structure EventFlags where
  callback : Bool
  hadCreatedEvent : Bool
  completeEnable : Operation → Bool
  pending : TagEvent → Option ℤ

/-- A tag as it is allocated, with or without a callback. -/
def EventFlags.zero (callback : Bool) : EventFlags :=
  ⟨callback, false, fun _ => false, fun _ => none⟩

def EventFlags.mark (f : EventFlags) (event : TagEvent) (status : ℤ) : EventFlags :=
  { f with pending := Function.update f.pending event (some status) }

/-- The created event comes with the first event that shows that the tag was made. -/
def EventFlags.create (f : EventFlags) (status : ℤ) : EventFlags :=
  if f.hadCreatedEvent then f else { f.mark .created status with hadCreatedEvent := true }

def EventFlags.enable (f : EventFlags) (op : Operation) (on : Bool) : EventFlags :=
  { f with completeEnable := Function.update f.completeEnable op on }

/-- The `switch` of `tag_raise_event`. -/
def EventFlags.raise (f : EventFlags) (event : TagEvent) (status : ℤ) : EventFlags :=
  match event with
  | .created => f.create status
  | .started op => (f.mark (.started op) status).enable op true
  | .aborted => (f.mark .aborted status).create status
  | .completed op =>
    if f.completeEnable op then ((f.create status).mark (.completed op) status).enable op false
    else f.create status
  | .destroyed => f.mark .destroyed status

/-- Events do not stack up when there is no callback. -/
def tagRaiseEvent (f : EventFlags) (event : TagEvent) (status : ℤ) : EventFlags :=
  if f.callback then f.raise event status else f

/-- The order in which the flags are looked at. -/
def eventOrder : List TagEvent :=
  [.created, .started .read, .started .write, .aborted, .completed .read, .completed .write, .destroyed]

def EventFlags.clear (f : EventFlags) (event : TagEvent) : EventFlags :=
  { f with pending := Function.update f.pending event none }

/-- A callback that is told of an event: what it is told meanwhile, through the functions of the tag
that it calls, and the flags as it leaves them; `none` when one of these functions crashes. -/
abbrev Callback : Type := TagEvent → ℤ → EventFlags → Option (List (TagEvent × ℤ) × EventFlags)

/-- Calls no function of its tag that sees to these flags. -/
def silent : Callback := fun _ _ f => some ([], f)

/-- The calls from one event on. The flag is cleared when the callback has returned. A callback that
was unregistered meanwhile is called through `NULL`. -/
def handleEvents (callback : Callback) :
    List TagEvent → EventFlags → Option (List (TagEvent × ℤ) × EventFlags)
  | [], f => some ([], f)
  | event :: events, f =>
    match f.pending event with
    | none => handleEvents callback events f
    | some status =>
      if f.callback then do
        let (told, f) ← callback event status f
        let (rest, f) ← handleEvents callback events (f.clear event)
        pure ((event, status) :: told ++ rest, f)
      else none

/-- `plc_tag_generic_handle_event_callbacks`, with what the callback is called with. -/
def handleEventCallbacks (callback : Callback) (f : EventFlags) :
    Option (List (TagEvent × ℤ) × EventFlags) :=
  if f.callback then handleEvents callback eventOrder f else some ([], f)

/-- A callback that reads the tag when it is told that it was created: the flag is still there. -/
example : (handleEventCallbacks
      (fun event _ f =>
        if event = .created then handleEventCallbacks silent (tagRaiseEvent f (.started .read) 0)
        else some ([], f))
      (tagRaiseEvent (.zero true) .created 0)).map (fun r => r.1.map Prod.fst) =
    some [.created, .created, .started .read] := by decide

/-- `plc_tag_register_callback_ex`; `given` when the function is not `NULL`. -/
def registerCallback (f : EventFlags) (given : Bool) : ℤ × EventFlags :=
  if f.callback then (plctagErrDuplicate, f) else (plctagStatusOk, { f with callback := given })

def unregisterCallback (f : EventFlags) : ℤ × EventFlags :=
  if f.callback then (plctagStatusOk, { f with callback := false }) else (plctagErrNotFound, f)

/-! ## Runs -/

inductive EventOp where
  | raise (event : TagEvent) (status : ℤ)
  | handle
  | register (given : Bool)
  | unregister

/-- The flags, the events that were raised while there was a callback, and what it was called with. -/
structure EventRun where
  flags : EventFlags
  raised : List TagEvent
  handed : List (TagEvent × ℤ)

def EventRun.start (callback : Bool) : EventRun := ⟨.zero callback, [], []⟩

def EventRun.step (callback : Callback) (r : EventRun) : EventOp → Option EventRun
  | .raise event status =>
    some ⟨tagRaiseEvent r.flags event status,
      if r.flags.callback then r.raised ++ [event] else r.raised, r.handed⟩
  | .handle => do
    let (told, flags) ← handleEventCallbacks callback r.flags
    pure ⟨flags, r.raised, r.handed ++ told⟩
  | .register given => some { r with flags := (registerCallback r.flags given).2 }
  | .unregister => some { r with flags := (unregisterCallback r.flags).2 }

def EventRun.runs (callback : Callback) (r : EventRun) (ops : List EventOp) : Option EventRun :=
  ops.foldlM (EventRun.step callback) r

def EventRun.events (r : EventRun) : List TagEvent := r.handed.map Prod.fst

/-! ## Runs with a callback that calls no function of its tag -/

theorem mem_eventOrder (event : TagEvent) : event ∈ eventOrder := by
  cases event with
  | started op => cases op <;> simp [eventOrder]
  | completed op => cases op <;> simp [eventOrder]
  | _ => simp [eventOrder]

/-- Every flag that is there is handed over, in one go. -/
def EventFlags.handOver (f : EventFlags) : List (TagEvent × ℤ) × EventFlags :=
  if f.callback then
    (eventOrder.filterMap fun event => (f.pending event).map fun status => (event, status),
      { f with pending := fun _ => none })
  else ([], f)

theorem handleEvents_silent {f : EventFlags} (h : f.callback = true) {events : List TagEvent}
    (hnodup : events.Nodup) : handleEvents silent events f =
      some (events.filterMap fun event => (f.pending event).map fun status => (event, status),
        { f with pending := fun event => if event ∈ events then none else f.pending event }) := by
  induction events generalizing f with
  | nil =>
    rw [handleEvents]
    simp
  | cons event events ih =>
    obtain ⟨hnot, hnodup⟩ := List.nodup_cons.mp hnodup
    rw [handleEvents]
    cases hp : f.pending event with
    | none =>
      rw [List.filterMap_cons_none (by rw [hp]; rfl)]
      simp only []
      rw [ih h hnodup]
      refine congrArg some (Prod.ext rfl ?_)
      refine congrArg (fun pending => { f with pending := pending }) (funext fun event' => ?_)
      by_cases heq : event' = event
      · simp [heq, hp]
      · simp [heq]
    | some status =>
      have hrest := ih (f := f.clear event) h hnodup
      have hsame : ∀ event' ∈ events, (f.clear event).pending event' = f.pending event' :=
        fun event' hmem => Function.update_of_ne (fun heq : event' = event => hnot (heq ▸ hmem)) _ _
      rw [List.filterMap_congr fun event' hmem => by rw [hsame event' hmem]] at hrest
      rw [List.filterMap_cons_some (by rw [hp]; rfl)]
      simp only []
      rw [if_pos h]
      show (handleEvents silent events (f.clear event)).bind _ = _
      rw [hrest]
      refine congrArg some (Prod.ext rfl ?_)
      refine congrArg (fun pending => { f with pending := pending }) (funext fun event' => ?_)
      by_cases heq : event' = event
      · simp [heq, EventFlags.clear]
      · simp [heq, EventFlags.clear, Function.update_of_ne]

theorem handleEventCallbacks_silent (f : EventFlags) :
    handleEventCallbacks silent f = some f.handOver := by
  rw [handleEventCallbacks, EventFlags.handOver]
  split_ifs with h
  · rw [handleEvents_silent h (by decide)]
    simp only [mem_eventOrder, if_true]
  · rfl

/-- What a step comes to. -/
def EventRun.quietStep (r : EventRun) : EventOp → EventRun
  | .raise event status =>
    ⟨tagRaiseEvent r.flags event status,
      if r.flags.callback then r.raised ++ [event] else r.raised, r.handed⟩
  | .handle => ⟨r.flags.handOver.2, r.raised, r.handed ++ r.flags.handOver.1⟩
  | .register given => { r with flags := (registerCallback r.flags given).2 }
  | .unregister => { r with flags := (unregisterCallback r.flags).2 }

theorem step_silent (r : EventRun) (op : EventOp) : r.step silent op = some (r.quietStep op) := by
  cases op with
  | handle =>
    rw [EventRun.step, handleEventCallbacks_silent]
    rfl
  | _ => rfl

/-! ## What one step does to the flags -/

/-- The events that only come once the tag was created. -/
def TagEvent.Late (event : TagEvent) : Prop := event = .aborted ∨ ∃ op, event = .completed op

def EventFlags.Flagged (f : EventFlags) (event : TagEvent) : Prop := f.pending event ≠ none

theorem flagged_mark (f : EventFlags) (event event' : TagEvent) (status : ℤ) :
    (f.mark event status).Flagged event' ↔ event' = event ∨ f.Flagged event' := by
  by_cases h : event' = event
  · subst h
    exact iff_of_true (by simp [EventFlags.Flagged, EventFlags.mark]) (.inl rfl)
  · show Function.update f.pending event (some status) event' ≠ none ↔ _
    rw [Function.update_of_ne h]
    exact ⟨.inr, fun hor => hor.resolve_left h⟩

theorem flagged_create (f : EventFlags) (event : TagEvent) (status : ℤ) :
    (f.create status).Flagged event ↔
      f.Flagged event ∨ event = .created ∧ f.hadCreatedEvent = false := by
  rw [EventFlags.create]
  split_ifs with h
  · simp [h]
  · have hflag := flagged_mark f .created event status
    rw [EventFlags.Flagged] at hflag ⊢
    rw [hflag]
    simp [h, or_comm]

@[simp] theorem hadCreatedEvent_mark (f : EventFlags) (event : TagEvent) (status : ℤ) :
    (f.mark event status).hadCreatedEvent = f.hadCreatedEvent := rfl

@[simp] theorem completeEnable_mark (f : EventFlags) (event : TagEvent) (status : ℤ) :
    (f.mark event status).completeEnable = f.completeEnable := rfl

@[simp] theorem hadCreatedEvent_enable (f : EventFlags) (op : Operation) (on : Bool) :
    (f.enable op on).hadCreatedEvent = f.hadCreatedEvent := rfl

@[simp] theorem hadCreatedEvent_create (f : EventFlags) (status : ℤ) :
    (f.create status).hadCreatedEvent = true := by
  rw [EventFlags.create]
  split_ifs with h
  · exact h
  · rfl

@[simp] theorem completeEnable_create (f : EventFlags) (status : ℤ) :
    (f.create status).completeEnable = f.completeEnable := by
  rw [EventFlags.create]
  split_ifs <;> rfl

theorem completeEnable_enable (f : EventFlags) (op op' : Operation) (on : Bool) :
    (f.enable op on).completeEnable op' = if op' = op then on else f.completeEnable op' :=
  Function.update_apply f.completeEnable op on op'

theorem flagged_enable (f : EventFlags) (op : Operation) (on : Bool) (event : TagEvent) :
    (f.enable op on).Flagged event ↔ f.Flagged event := Iff.rfl

theorem flagged_raise (f : EventFlags) (event event' : TagEvent) (status : ℤ) :
    (f.raise event status).Flagged event' ↔ f.Flagged event' ∨
      event' = event ∧ event ≠ .created ∧ (∀ op, event = .completed op → f.completeEnable op = true) ∨
      event' = .created ∧ (event = .created ∨ event.Late) ∧ f.hadCreatedEvent = false := by
  cases event with
  | created => simp [EventFlags.raise, flagged_create]
  | started op => simp [EventFlags.raise, flagged_enable, flagged_mark, TagEvent.Late, or_comm]
  | aborted =>
    rw [EventFlags.raise, flagged_create, flagged_mark, hadCreatedEvent_mark]
    simp [TagEvent.Late, or_comm, or_left_comm, or_assoc]
  | completed op =>
    by_cases hop : f.completeEnable op = true
    · rw [EventFlags.raise, if_pos hop, flagged_enable, flagged_mark, flagged_create]
      simp [hop, TagEvent.Late, or_left_comm]
    · simp [EventFlags.raise, hop, flagged_create, TagEvent.Late]
  | destroyed => simp [EventFlags.raise, flagged_mark, TagEvent.Late, or_comm]

theorem hadCreatedEvent_raise (f : EventFlags) (event : TagEvent) (status : ℤ) :
    (f.raise event status).hadCreatedEvent = true ↔
      f.hadCreatedEvent = true ∨ event = .created ∨ event.Late := by
  cases event with
  | created => simp [EventFlags.raise]
  | started op => simp [EventFlags.raise, TagEvent.Late]
  | aborted => simp [EventFlags.raise, TagEvent.Late]
  | completed op =>
    by_cases hop : f.completeEnable op = true
    · simp [EventFlags.raise, hop, TagEvent.Late]
    · simp [EventFlags.raise, hop, TagEvent.Late]
  | destroyed => simp [EventFlags.raise, TagEvent.Late]

theorem completeEnable_raise (f : EventFlags) (event : TagEvent) (status : ℤ) (op : Operation) :
    (f.raise event status).completeEnable op =
      if event = .started op then true else if event = .completed op then false
      else f.completeEnable op := by
  cases event with
  | created => simp [EventFlags.raise]
  | started op' => simp [EventFlags.raise, completeEnable_enable, eq_comm]
  | aborted => simp [EventFlags.raise]
  | completed op' =>
    by_cases hop : f.completeEnable op' = true
    · simp [EventFlags.raise, hop, completeEnable_enable, eq_comm]
    · by_cases heq : op = op'
      · simp [EventFlags.raise, hop, heq]
      · simp [EventFlags.raise, hop, Ne.symm heq]
  | destroyed => simp [EventFlags.raise]

/-! ## What holds between the steps -/

instance decidableFlagged (f : EventFlags) (event : TagEvent) : Decidable (f.Flagged event) :=
  inferInstanceAs (Decidable (_ ≠ _))

def one (p : Prop) [Decidable p] : ℕ := if p then 1 else 0

theorem one_of_true {p : Prop} [Decidable p] (h : p) : one p = 1 := if_pos h

theorem one_of_false {p : Prop} [Decidable p] (h : ¬p) : one p = 0 := if_neg h

theorem one_congr {p q : Prop} [Decidable p] [Decidable q] (h : p ↔ q) : one p = one q := by
  by_cases hp : p
  · rw [one_of_true hp, one_of_true (h.mp hp)]
  · rw [one_of_false hp, one_of_false (hp ∘ h.mpr)]

structure EventRun.Inv (r : EventRun) : Prop where
  created : r.events.count .created + one (r.flags.Flagged .created) =
    one (r.flags.hadCreatedEvent = true)
  made : ∀ event, event.Late → r.flags.Flagged event ∨ event ∈ r.events →
    r.flags.hadCreatedEvent = true
  afterCreated : ∀ event, event.Late → Before .created event r.events
  started : ∀ op, r.flags.completeEnable op = true ∨ r.flags.Flagged (.completed op) →
    r.flags.Flagged (.started op) ∨ .started op ∈ r.events
  afterStarted : ∀ op, Before (.started op) (.completed op) r.events
  counted : ∀ op, r.events.count (.completed op) + one (r.flags.Flagged (.completed op)) +
    one (r.flags.completeEnable op = true) ≤ r.raised.count (.started op)

theorem inv_start (callback : Bool) : (EventRun.start callback).Inv := by
  refine ⟨rfl, ?_, fun _ _ => trivial, ?_, fun _ => trivial, fun _ => le_rfl⟩
  · rintro event - (h | h)
    · exact absurd rfl h
    · exact absurd h List.not_mem_nil
  · rintro op (h | h)
    · exact absurd h Bool.false_ne_true
    · exact absurd rfl h

theorem EventRun.Inv.created_mem {r : EventRun} (h : r.Inv) (hmade : r.flags.hadCreatedEvent = true)
    (hnot : ¬r.flags.Flagged .created) : .created ∈ r.events := by
  have hcount := h.created
  rw [one, if_neg hnot, one, if_pos hmade] at hcount
  exact List.count_pos_iff.mp (by omega)

theorem TagEvent.Late.ne_created {event : TagEvent} (h : event.Late) : event ≠ .created := by
  rcases h with rfl | ⟨op, rfl⟩ <;> exact TagEvent.noConfusion

/-- The ends of an operation that wait or may come. -/
def EventFlags.ends (f : EventFlags) (op : Operation) : ℕ :=
  one (f.Flagged (.completed op)) + one (f.completeEnable op = true)

/-- Only a start makes room for an end. -/
theorem ends_raise (f : EventFlags) (event : TagEvent) (status : ℤ) (op : Operation) :
    (f.raise event status).ends op ≤ f.ends op + one (event = .started op) := by
  have hflag := flagged_raise f event (.completed op) status
  rw [EventFlags.ends, EventFlags.ends, completeEnable_raise]
  by_cases hstart : event = .started op
  · have hsame : (f.raise event status).Flagged (.completed op) ↔ f.Flagged (.completed op) := by
      rw [hflag, hstart]
      simp
    rw [one_congr hsame, if_pos hstart, one_of_true rfl, one_of_true hstart]
    omega
  · by_cases hcomplete : event = .completed op
    · have hcame : (f.raise event status).Flagged (.completed op) ↔
          f.Flagged (.completed op) ∨ f.completeEnable op = true := by
        rw [hflag, hcomplete]
        simp
      rw [if_neg hstart, if_pos hcomplete, one_of_false Bool.false_ne_true]
      by_cases hf : f.Flagged (.completed op)
      · rw [one_of_true (hcame.mpr (.inl hf)), one_of_true hf]
        omega
      · rw [one_congr (hcame.trans (or_iff_right hf))]
        omega
    · have hsame : (f.raise event status).Flagged (.completed op) ↔ f.Flagged (.completed op) := by
        rw [hflag]
        simp [Ne.symm hcomplete]
      rw [one_congr hsame, if_neg hstart, if_neg hcomplete]
      omega

section Raise
variable {r : EventRun} (h : r.Inv) (event : TagEvent) (status : ℤ)
include h

theorem EventRun.Inv.created_raise :
    r.events.count .created + one ((r.flags.raise event status).Flagged .created) =
      one ((r.flags.raise event status).hadCreatedEvent = true) := by
  have hcreated := h.created
  have hflag : (r.flags.raise event status).Flagged .created ↔ r.flags.Flagged .created ∨
      (event = .created ∨ event.Late) ∧ r.flags.hadCreatedEvent = false := by
    rw [flagged_raise]
    refine or_congr_right ⟨fun hor => ?_, fun hor => .inr ⟨rfl, hor⟩⟩
    exact hor.elim (fun hev => absurd hev.1.symm hev.2.1) fun hev => hev.2
  have hmade := hadCreatedEvent_raise r.flags event status
  by_cases hhad : r.flags.hadCreatedEvent = true
  · rw [one_congr (hflag.trans (or_iff_left fun hor => absurd hhad (by rw [hor.2]; simp))),
      one_congr (hmade.trans (or_iff_left_of_imp fun _ => hhad))]
    exact hcreated
  · by_cases hlate : event = .created ∨ event.Late
    · rw [one_of_false hhad] at hcreated
      rw [one_of_true (hflag.mpr (.inr ⟨hlate, Bool.eq_false_iff.mpr hhad⟩)),
        one_of_true (hmade.mpr (.inr hlate))]
      omega
    · rw [one_congr (hflag.trans (or_iff_left fun hor => hlate hor.1)),
        one_congr (hmade.trans (or_iff_left hlate))]
      exact hcreated

theorem EventRun.Inv.started_raise (op : Operation)
    (hop : (r.flags.raise event status).completeEnable op = true ∨
      (r.flags.raise event status).Flagged (.completed op)) :
    (r.flags.raise event status).Flagged (.started op) ∨ .started op ∈ r.events := by
  have hkept : r.flags.Flagged (.started op) ∨ .started op ∈ r.events →
      (r.flags.raise event status).Flagged (.started op) ∨ .started op ∈ r.events :=
    fun hor => hor.imp_left fun hf => (flagged_raise ..).mpr (.inl hf)
  rw [completeEnable_raise, flagged_raise] at hop
  rcases hop with hop | hop | ⟨heq, -, hop⟩ | ⟨heq, -⟩
  · split_ifs at hop with hev hev'
    · exact .inl ((flagged_raise ..).mpr (.inr (.inl ⟨hev.symm, by rw [hev]; simp, by rw [hev]; simp⟩)))
    · exact hkept (h.started op (.inl hop))
  · exact hkept (h.started op (.inr hop))
  · exact hkept (h.started op (.inl (hop op heq.symm)))
  · exact TagEvent.noConfusion heq

theorem EventRun.Inv.counted_raise (op : Operation) :
    r.events.count (.completed op) + one ((r.flags.raise event status).Flagged (.completed op)) +
      one ((r.flags.raise event status).completeEnable op = true) ≤
        (r.raised ++ [event]).count (.started op) := by
  have hcounted := h.counted op
  have hends := ends_raise r.flags event status op
  have hcount : (r.raised ++ [event]).count (.started op) =
      r.raised.count (.started op) + one (event = .started op) := by
    rw [List.count_append, List.count_singleton]
    simp [one]
  rw [EventFlags.ends, EventFlags.ends] at hends
  omega

theorem EventRun.Inv.raise :
    EventRun.Inv ⟨r.flags.raise event status, r.raised ++ [event], r.handed⟩ := by
  refine ⟨h.created_raise event status, fun event' hlate hev => ?_, h.afterCreated,
    h.started_raise event status, h.afterStarted, h.counted_raise event status⟩
  refine (hadCreatedEvent_raise ..).mpr ?_
  rcases hev with hev | hev
  · rcases (flagged_raise ..).mp hev with hev | ⟨rfl, -⟩ | ⟨rfl, -⟩
    · exact .inl (h.made event' hlate (.inl hev))
    · exact .inr (.inr hlate)
    · exact absurd rfl hlate.ne_created
  · exact .inl (h.made event' hlate (.inr hev))

end Raise

section Handle
variable {r : EventRun}

/-- The events that are flagged, in the order in which they are handed over. -/
def EventFlags.batch (f : EventFlags) : List TagEvent := eventOrder.filter fun event => f.Flagged event

theorem mem_batch {f : EventFlags} {event : TagEvent} : event ∈ f.batch ↔ f.Flagged event := by
  rw [EventFlags.batch, List.mem_filter, decide_eq_true_iff]
  exact and_iff_right (mem_eventOrder event)

theorem count_batch (f : EventFlags) (event : TagEvent) :
    f.batch.count event = one (f.Flagged event) := by
  have hnodup : f.batch.Nodup := List.Nodup.filter _ (by decide : eventOrder.Nodup)
  rw [hnodup.count, one, if_congr mem_batch rfl rfl]

theorem events_handle (h : r.flags.callback = true) :
    (r.quietStep .handle).events = r.events ++ r.flags.batch := by
  have hbatch : ∀ l : List TagEvent, (l.filterMap fun event =>
      (r.flags.pending event).map fun status => (event, status)).map Prod.fst =
        l.filter fun event => r.flags.Flagged event := by
    intro l
    induction l with
    | nil => rfl
    | cons event l ih =>
      cases hp : r.flags.pending event with
      | none => rw [List.filterMap_cons_none (by rw [hp]; rfl), List.filter_cons_of_neg
          (by simp [EventFlags.Flagged, hp]), ih]
      | some status => rw [List.filterMap_cons_some (by rw [hp]; rfl), List.filter_cons_of_pos
          (by simp [EventFlags.Flagged, hp]), List.map_cons, ih]
  rw [EventRun.events, EventRun.quietStep, EventFlags.handOver, if_pos h, List.map_append, hbatch]
  rfl

theorem flags_handle (h : r.flags.callback = true) :
    (r.quietStep .handle).flags = { r.flags with pending := fun _ => none } := by
  rw [EventRun.quietStep, EventFlags.handOver, if_pos h]

theorem not_flagged_handle (h : r.flags.callback = true) (event : TagEvent) :
    ¬(r.quietStep .handle).flags.Flagged event := by
  rw [flags_handle h]
  exact fun hf => hf rfl

theorem EventRun.Inv.created_of_late (h : r.Inv) {event : TagEvent} (hlate : event.Late)
    (hflagged : r.flags.Flagged event) : .created ∈ r.events ∨ r.flags.Flagged .created :=
  or_iff_not_imp_right.mpr fun hnot => h.created_mem (h.made event hlate (.inl hflagged)) hnot

theorem before_eventOrder (op : Operation) : Before (.started op) (.completed op) eventOrder := by
  cases op <;> simp [Before, eventOrder]

theorem EventRun.Inv.handle (h : r.Inv) (hcallback : r.flags.callback = true) :
    (r.quietStep .handle).Inv := by
  have hevents := events_handle hcallback
  have hnone := not_flagged_handle hcallback
  have hmade : (r.quietStep .handle).flags.hadCreatedEvent = r.flags.hadCreatedEvent := by
    rw [flags_handle hcallback]
  have henable : (r.quietStep .handle).flags.completeEnable = r.flags.completeEnable := by
    rw [flags_handle hcallback]
  refine ⟨?_, fun event hlate hev => ?_, fun event hlate => ?_, fun op hop => ?_, fun op => ?_,
    fun op => ?_⟩
  · rw [hevents, List.count_append, count_batch, one_of_false (hnone _), hmade]
    exact h.created
  · rw [hevents, List.mem_append, mem_batch] at hev
    rw [hmade]
    exact h.made event hlate ((hev.resolve_left (hnone event)).symm)
  · rw [hevents]
    refine (h.afterCreated event hlate).append (or_iff_not_imp_left.mpr fun hnot => ?_)
    have hfirst : Before .created event eventOrder := Or.inl rfl
    refine hfirst.filter fun hev => decide_eq_true ?_
    exact (h.created_of_late hlate (of_decide_eq_true hev)).resolve_left hnot
  · rw [henable] at hop
    rw [hevents, List.mem_append, mem_batch]
    exact .inr (h.started op (hop.imp_right fun hf => absurd hf (hnone _))).symm
  · rw [hevents]
    refine (h.afterStarted op).append (or_iff_not_imp_left.mpr fun hnot => ?_)
    refine Before.filter (before_eventOrder op) fun hev => decide_eq_true ?_
    exact (h.started op (.inr (of_decide_eq_true hev))).resolve_right hnot
  · rw [hevents, List.count_append, count_batch, one_of_false (hnone _), henable]
    exact h.counted op

theorem EventRun.Inv.step (h : r.Inv) (op : EventOp) : (r.quietStep op).Inv := by
  cases op with
  | raise event status =>
    rw [EventRun.quietStep, tagRaiseEvent]
    split_ifs
    · exact h.raise event status
    · exact h
  | handle =>
    by_cases hcallback : r.flags.callback = true
    · exact h.handle hcallback
    · rw [EventRun.quietStep, EventFlags.handOver, if_neg hcallback, List.append_nil]
      exact h
  | register given =>
    rw [EventRun.quietStep, registerCallback]
    split_ifs
    · exact h
    · exact ⟨h.created, h.made, h.afterCreated, h.started, h.afterStarted, h.counted⟩
  | unregister =>
    rw [EventRun.quietStep, unregisterCallback]
    split_ifs
    · exact ⟨h.created, h.made, h.afterCreated, h.started, h.afterStarted, h.counted⟩
    · exact h

end Handle

/-! ## What a callback can rely on -/

theorem runs_cons_silent (r : EventRun) (op : EventOp) (ops : List EventOp) :
    r.runs silent (op :: ops) = (r.quietStep op).runs silent ops := by
  rw [EventRun.runs, List.foldlM_cons, step_silent]
  rfl

theorem EventRun.Inv.runs {r : EventRun} (h : r.Inv) (ops : List EventOp) :
    ∃ r', r.runs silent ops = some r' ∧ r'.Inv := by
  induction ops generalizing r with
  | nil => exact ⟨r, rfl, h⟩
  | cons op ops ih =>
    rw [runs_cons_silent]
    exact ih (h.step op)

/-- A callback that calls no function of its tag is never called through `NULL`. The created event
comes once at most and ahead of every end of an operation; no operation ends ahead of the first start
of its kind, nor more often than a start was raised. -/
theorem callbacks_in_order (callback : Bool) (ops : List EventOp) :
    ∃ r, (EventRun.start callback).runs silent ops = some r ∧
      r.events.count .created ≤ 1 ∧ Before .created .aborted r.events ∧
      ∀ op, Before .created (.completed op) r.events ∧
        Before (.started op) (.completed op) r.events ∧
        r.events.count (.completed op) ≤ r.raised.count (.started op) := by
  obtain ⟨r, hrun, h⟩ := (inv_start callback).runs ops
  refine ⟨r, hrun, ?_, h.afterCreated _ (.inl rfl), fun op => ⟨h.afterCreated _ (.inr ⟨op, rfl⟩),
    h.afterStarted op, ?_⟩⟩
  · have hcreated := h.created
    have hone : one (r.flags.hadCreatedEvent = true) ≤ 1 := by
      unfold one
      split <;> omega
    omega
  · exact (Nat.le_add_right _ _).trans ((Nat.le_add_right _ _).trans (h.counted op))

/-- No start is raised on top of one that still waits. `plc_tag_read` and `plc_tag_write` raise it and
hand it over under one lock; the tickler does not. -/
def Unstacked (op : Operation) : EventRun → List EventOp → Prop
  | _, [] => True
  | r, o :: ops => (∀ status, o = .raise (.started op) status → ¬r.flags.Flagged (.started op)) ∧
      ∀ r', r.step silent o = some r' → Unstacked op r' ops

theorem ends_pos {f : EventFlags} {op : Operation} :
    0 < f.ends op ↔ f.Flagged (.completed op) ∨ f.completeEnable op = true := by
  rw [EventFlags.ends, Nat.add_pos_iff_pos_or_pos]
  refine or_congr ?_ ?_ <;> unfold one <;> split_ifs with hp <;> simp [hp]

/-- A start that waits has its end before it, or room for one. -/
theorem ends_pos_raise {f : EventFlags} {event : TagEvent} {status : ℤ} {op : Operation}
    (h : event = .started op ∨ 0 < f.ends op) : 0 < (f.raise event status).ends op := by
  rw [ends_pos] at h ⊢
  rw [flagged_raise, completeEnable_raise]
  rcases h with rfl | h | h
  · exact .inr (if_pos rfl)
  · exact .inl (.inl h)
  · by_cases hcomplete : event = .completed op
    · exact .inl (.inr (.inl ⟨hcomplete.symm, by rw [hcomplete]; simp,
        fun op' hop => TagEvent.completed.inj (hop.symm.trans hcomplete) ▸ h⟩))
    · by_cases hstart : event = .started op
      · exact .inr (if_pos hstart)
      · exact .inr (by rw [if_neg hstart, if_neg hcomplete]; exact h)

/-- What was handed over and what waits, ends against starts. -/
structure Answered (op : Operation) (r : EventRun) : Prop where
  le : r.events.count (.completed op) + r.flags.ends op ≤
    r.events.count (.started op) + one (r.flags.Flagged (.started op))
  waits : r.flags.Flagged (.started op) → 0 < r.flags.ends op

theorem answered_raise {op : Operation} {r : EventRun} (h : Answered op r) {event : TagEvent}
    {status : ℤ} (hfree : event = .started op → ¬r.flags.Flagged (.started op)) :
    Answered op ⟨r.flags.raise event status, r.raised ++ [event], r.handed⟩ := by
  have hle := h.le
  have hends := ends_raise r.flags event status op
  have hflag := flagged_raise r.flags event (.started op) status
  by_cases hstart : event = .started op
  · have hcame : (r.flags.raise event status).Flagged (.started op) :=
      hflag.mpr (.inr (.inl ⟨hstart.symm, by rw [hstart]; simp, by rw [hstart]; simp⟩))
    refine ⟨?_, fun _ => ends_pos_raise (.inl hstart)⟩
    show r.events.count _ + (r.flags.raise event status).ends op ≤ r.events.count _ + _
    rw [one_of_true hstart] at hends
    rw [one_of_false (hfree hstart)] at hle
    rw [one_of_true hcame]
    omega
  · have hsame : (r.flags.raise event status).Flagged (.started op) ↔
        r.flags.Flagged (.started op) := by
      rw [hflag]
      simp [Ne.symm hstart]
    refine ⟨?_, fun hf => ends_pos_raise (.inr (h.waits (hsame.mp hf)))⟩
    show r.events.count _ + (r.flags.raise event status).ends op ≤ r.events.count _ + _
    rw [one_of_false hstart] at hends
    rw [one_congr hsame]
    omega

theorem answered_handle {op : Operation} {r : EventRun} (h : Answered op r)
    (hcallback : r.flags.callback = true) : Answered op (r.quietStep .handle) := by
  have hnone := not_flagged_handle hcallback
  have hends : (r.quietStep .handle).flags.ends op = one (r.flags.completeEnable op = true) := by
    rw [EventFlags.ends, one_of_false (hnone _), flags_handle hcallback, Nat.zero_add]
  have hle := h.le
  refine ⟨?_, fun hf => absurd hf (hnone _)⟩
  rw [EventFlags.ends] at hle
  rw [hends, events_handle hcallback, List.count_append, List.count_append, count_batch, count_batch,
    one_of_false (hnone _)]
  omega

theorem answered_step {op : Operation} {r : EventRun} (h : Answered op r) {o : EventOp}
    (hfree : ∀ status, o = .raise (.started op) status → ¬r.flags.Flagged (.started op)) :
    Answered op (r.quietStep o) := by
  cases o with
  | raise event status =>
    rw [EventRun.quietStep, tagRaiseEvent]
    split_ifs
    · exact answered_raise h fun hstart => hfree status (by rw [hstart])
    · exact h
  | handle =>
    by_cases hcallback : r.flags.callback = true
    · exact answered_handle h hcallback
    · rw [EventRun.quietStep, EventFlags.handOver, if_neg hcallback, List.append_nil]
      exact h
  | register given =>
    rw [EventRun.quietStep, registerCallback]
    split_ifs
    · exact h
    · exact ⟨h.le, h.waits⟩
  | unregister =>
    rw [EventRun.quietStep, unregisterCallback]
    split_ifs
    · exact ⟨h.le, h.waits⟩
    · exact h

theorem answered_runs {op : Operation} {r : EventRun} (h : Answered op r) {ops : List EventOp}
    (hfree : Unstacked op r ops) : ∃ r', r.runs silent ops = some r' ∧ Answered op r' := by
  induction ops generalizing r with
  | nil => exact ⟨r, rfl, h⟩
  | cons o ops ih =>
    rw [runs_cons_silent]
    exact ih (answered_step h hfree.1) (hfree.2 _ (step_silent r o))

/-- As long as no start is raised on top of one that waits, a callback that calls no function of its
tag hears of no more ends of an operation than of starts. -/
theorem completions_le_starts (callback : Bool) {ops : List EventOp} {op : Operation}
    (hfree : Unstacked op (EventRun.start callback) ops) :
    ∃ r, (EventRun.start callback).runs silent ops = some r ∧
      r.events.count (.completed op) ≤ r.events.count (.started op) := by
  have hstart : Answered op (EventRun.start callback) := ⟨le_rfl, fun hf => absurd rfl hf⟩
  obtain ⟨r, hrun, h⟩ := answered_runs hstart hfree
  have hle := h.le
  refine ⟨r, hrun, ?_⟩
  by_cases hf : r.flags.Flagged (.started op)
  · have hpos := h.waits hf
    rw [one_of_true hf] at hle
    omega
  · rw [one_of_false hf] at hle
    omega

/-- Two reads. The first one ends before its start was handed over. -/
def twoReads : List EventOp :=
  [.raise (.started .read) 0, .raise (.completed .read) 0, .handle, .raise (.started .read) 0, .handle]

theorem completions_le_starts_twoReads :
    ∃ r, (EventRun.start true).runs silent twoReads = some r ∧
      r.events.count (.completed .read) ≤ r.events.count (.started .read) := by
  refine completions_le_starts true ?_
  refine ⟨?_, fun r h => ⟨?_, fun r' h' => ⟨?_, fun r'' h'' => ⟨?_, fun _ _ =>
    ⟨?_, fun _ _ => trivial⟩⟩⟩⟩⟩
  · exact fun _ _ => by decide
  · exact fun _ hraise => nomatch hraise
  · exact fun _ hraise => nomatch hraise
  · obtain rfl := Option.some.inj h
    obtain rfl := Option.some.inj h'
    obtain rfl := Option.some.inj h''
    exact fun _ _ => by decide
  · exact fun _ hraise => nomatch hraise

/-- Two reads that the tickler starts, the second one before the start of the first one was handed
over: two ends for one start. -/
example : ((EventRun.start true).runs silent [.raise (.started .read) 0, .raise (.completed .read) 0,
      .raise (.started .read) 0, .handle, .raise (.completed .read) 0, .handle]).map EventRun.events =
    some [.created, .started .read, .completed .read, .completed .read] := by decide

end Plctagt.Tag
