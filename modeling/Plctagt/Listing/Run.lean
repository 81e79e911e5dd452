import Plctagt.Listing.Visit

/-! # Runs of the processing loop

One call's loop runs the worklist of its own seeds, behind what earlier calls have left in the queue.
It goes on until the work is over or the queue does not fit the array any more; `maxUdts` turns and
one more are always enough.
-/
namespace Plctagt.Listing
open Decimal Tag Worklist Relation
set_option autoImplicit false

/-- The statics of a call that found `old` in the queue, while its own worklist stands at `w`. -/
structure Matches (old : List UInt16) (s : Statics) (w : Work UInt16 Stop) : Prop where
  queue : s.udtsToProcess = old ++ w.queue
  current : s.currentUdt = old.length + w.cursor
  udts : ∀ c, (s.udts c).isSome = true ↔ c ∈ w.seen
  opened : s.opened = w.seen

/-- The array has room for the queue. -/
def Room (old : List UInt16) (w : Work UInt16 Stop) : Prop :=
  old.length + w.queue.length ≤ maxUdts

instance decidableRoom (old : List UInt16) (w : Work UInt16 Stop) : Decidable (Room old w) :=
  inferInstanceAs (Decidable (_ ≤ _))

/-- What the loop returns when its work is over. -/
def Result (old : List UInt16) (w : Work UInt16 Stop) (r : EStateM.Result Halt Statics Unit) :
    Prop :=
  match w.ended with
  | none => ∃ s, r = .ok () s ∧ Matches old s w
  | some .unsupported => ∃ s, r = .ok () s ∧ s.opened = requested w ∧ s.currentUdt < s.lastUdt ∧
      s.lastUdt ≤ maxUdts
  | some (.halt e) => ∃ s, r = .error e s ∧ s.opened = requested w

section Turn
variable (plc : Plc) (base : Text) {old : List UInt16} {s : Statics} {w : Work UInt16 Stop}

theorem Matches.lastUdt (h : Matches old s w) : s.lastUdt = old.length + w.queue.length := by
  rw [Statics.lastUdt, h.queue, List.length_append]

theorem Matches.getElem? (h : Matches old s w) :
    s.udtsToProcess[s.currentUdt]? = w.queue[w.cursor]? := by
  rw [h.queue, h.current, List.getElem?_append_right (Nat.le_add_right _ _), Nat.add_sub_cancel_left]

theorem Matches.udts_eq_none (h : Matches old s w) (c : UInt16) : s.udts c = none ↔ c ∉ w.seen := by
  rw [← h.udts c]
  cases s.udts c <;> simp

theorem Matches.queuedBy (h : Matches old s w) (v : Visit UInt16 Stop) (a : UInt16) :
    queuedBy v s a = v.children.filter fun c => c ∉ w.seen ++ [a] := by
  refine List.filter_congr fun c _ => ?_
  rw [decide_eq_decide, List.mem_append, List.mem_singleton, not_or, ← h.udts_eq_none,
    Option.isNone_iff_eq_none]
  exact and_comm

theorem get_bind {α : Type} (f : Statics → Step α) (s : Statics) :
    ((get : Step Statics) >>= f) s = f s s := rfl

theorem processUdts_consumed (n : ℕ) (h : Matches old s w) (hnone : w.queue[w.cursor]? = none) :
    processUdts plc base (n + 1) s = .ok () s := by
  unfold processUdts
  rw [get_bind, h.getElem?, hnone]
  rfl

theorem processUdts_turn (n : ℕ) {a : UInt16} (ha : s.udtsToProcess[s.currentUdt]? = some a) :
    processUdts plc base (n + 1) s =
      (if (s.udts a).isNone then do
        let rc ← getUdtDefinition plc base a
        if rc = plctagErrUnsupported then pure ()
        else if rc ≠ plctagStatusOk then throw .exit
        else do
          modify fun s => { s with currentUdt := s.currentUdt + 1 }
          processUdts plc base n
      else do
        modify fun s => { s with currentUdt := s.currentUdt + 1 }
        processUdts plc base n : Step Unit) s := by
  conv_lhs => rw [processUdts, get_bind, ha]

theorem processUdts_seen (n : ℕ) (h : Matches old s w) {a : UInt16}
    (ha : w.queue[w.cursor]? = some a) (hs : a ∈ w.seen) :
    processUdts plc base (n + 1) s =
      processUdts plc base n { s with currentUdt := s.currentUdt + 1 } := by
  have hsome : (s.udts a).isNone = false := by
    rw [← Option.not_isSome, (h.udts a).mpr hs]
    rfl
  rw [processUdts_turn plc base n (h.getElem?.trans ha), if_neg (by simp [hsome])]
  rfl

theorem matches_defined (h : Matches old s w) {a : UInt16} (hs : a ∉ w.seen)
    (hending : (visit plc base a).ending = none) {s₁ : Statics}
    (hdef : Defined { s with opened := s.opened ++ [a] } a (queuedBy (visit plc base a) s a) s₁) :
    Matches old { s₁ with currentUdt := s₁.currentUdt + 1 } (next (visit plc base) w a) := by
  have hn : next (visit plc base) w a =
      ⟨w.queue ++ queuedBy (visit plc base a) s a, w.cursor + 1, w.seen ++ [a], w.ended⟩ := by
    rw [h.queuedBy, next, if_neg hs]
    simp only [hending]
  rw [hn]
  refine ⟨?_, ?_, fun c => ?_, ?_⟩
  · show s₁.udtsToProcess = _
    rw [hdef.queue, ← List.append_assoc, ← h.queue]
  · show s₁.currentUdt + 1 = _
    rw [hdef.current]
    show s.currentUdt + 1 = _
    rw [h.current]
    rfl
  · show (s₁.udts c).isSome = true ↔ _
    rw [hdef.udts, List.mem_append, List.mem_singleton, or_comm]
    exact or_congr_left (h.udts c)
  · show s₁.opened = _
    rw [hdef.opened, h.opened]

theorem result_ended (n : ℕ) (h : Matches old s w) (hroom : Room old w) {a : UInt16}
    (ha : w.queue[w.cursor]? = some a) (hs : a ∉ w.seen) {e : Stop}
    (hending : (visit plc base a).ending = some e)
    (hforetold : Foretold (visit plc base a) a { s with opened := s.opened ++ [a] }
      (getUdtDefinition plc base a s)) :
    Result old (next (visit plc base) w a) (processUdts plc base (n + 1) s) := by
  have hturn := processUdts_turn plc base n (h.getElem?.trans ha)
  rw [if_pos (by simp [(h.udts_eq_none a).mpr hs])] at hturn
  have hn : next (visit plc base) w a =
      ⟨w.queue ++ queuedBy (visit plc base a) s a, w.cursor, w.seen, some e⟩ := by
    rw [h.queuedBy, next, if_neg hs]
    simp only [hending]
  have hlt : w.cursor < w.queue.length := (List.getElem?_eq_some_iff.mp ha).1
  have hreq : requested (next (visit plc base) w a) = w.seen ++ [a] := by
    rw [hn, requested]
    simp only [Option.isSome_some, if_true]
    rw [List.getElem?_append_left hlt, ha]
    rfl
  unfold Foretold at hforetold
  rw [hending] at hforetold
  unfold Result
  rw [hreq, hn]
  cases e with
  | unsupported =>
    refine ⟨{ s with opened := s.opened ++ [a] }, ?_, by rw [← h.opened], ?_, ?_⟩
    · rw [hturn, bind_of_ok _ hforetold]
      rfl
    · show s.currentUdt < s.lastUdt
      rw [h.current, h.lastUdt]
      omega
    · show s.lastUdt ≤ maxUdts
      rw [h.lastUdt]
      exact hroom
  | halt e =>
    obtain ⟨s₁, herr, hopened⟩ := hforetold
    refine ⟨s₁, ?_, by rw [hopened, ← h.opened]⟩
    rw [hturn, bind_of_error _ herr]

theorem processUdts_visit (n : ℕ) (h : Matches old s w) (hroom : Room old w)
    {a : UInt16} (ha : w.queue[w.cursor]? = some a) (hs : a ∉ w.seen) :
    (Room old (next (visit plc base) w a) →
      ((visit plc base a).ending = none ∧
        ∃ s', processUdts plc base (n + 1) s = processUdts plc base n s' ∧
          Matches old s' (next (visit plc base) w a)) ∨
      ((visit plc base a).ending ≠ none ∧
        Result old (next (visit plc base) w a) (processUdts plc base (n + 1) s))) ∧
    (¬ Room old (next (visit plc base) w a) →
      ∃ s', processUdts plc base (n + 1) s = .error .overrun s') := by
  have hnone : s.udts a = none := (h.udts_eq_none a).mpr hs
  have hturn := processUdts_turn plc base n (h.getElem?.trans ha)
  rw [if_pos (by simp [hnone])] at hturn
  have hlen : old.length + (next (visit plc base) w a).queue.length
      = s.lastUdt + (queuedBy (visit plc base a) s a).length := by
    rw [next_queue (visit plc base) hs, ← h.queuedBy, h.lastUdt, List.length_append]
    omega
  obtain ⟨hfits, hfull⟩ := getUdtDefinition_visit plc base a s hnone (by rw [h.lastUdt]; exact hroom)
  refine ⟨fun hnext => ?_, fun hnext => ?_⟩
  · have hforetold := hfits (by rw [← hlen]; exact hnext)
    cases hending : (visit plc base a).ending with
    | none =>
      unfold Foretold at hforetold
      rw [hending] at hforetold
      obtain ⟨s₁, hok, hdef⟩ := hforetold
      refine .inl ⟨rfl, _, ?_, matches_defined plc base h hs hending hdef⟩
      rw [hturn, bind_of_ok _ hok]
      rfl
    | some e => exact .inr ⟨by simp, result_ended plc base n h hroom ha hs hending hforetold⟩
  · obtain ⟨s₁, hs₁⟩ := hfull (by rw [← hlen]; exact Nat.lt_of_not_le hnext)
    exact ⟨s₁, by rw [hturn, bind_of_error _ hs₁]⟩

end Turn

/-! ## Whole runs -/

section Run
variable (plc : Plc) (base : Text) {old : List UInt16}

/-- The loop runs until the work is over, or until the queue does not fit any more. -/
theorem processUdts_run (n : ℕ) {s : Statics} {w : Work UInt16 Stop} (h : Matches old s w)
    (hend : w.ended = none) (hroom : Room old w) (hcursor : w.cursor ≤ w.queue.length)
    (hturns : maxUdts < n + old.length + w.cursor) :
    ∃ w', Turns (visit plc base) w w' ∧
      ((Over w' ∧ Room old w' ∧ Result old w' (processUdts plc base n s)) ∨
        (¬ Room old w' ∧ ∃ s', processUdts plc base n s = .error .overrun s')) := by
  induction n generalizing s w with
  | zero =>
    unfold Room at hroom
    omega
  | succ n ih =>
    cases ha : w.queue[w.cursor]? with
    | none =>
      refine ⟨w, .refl, .inl ⟨(over_iff w).mpr (.inr ha), hroom, ?_⟩⟩
      unfold Result
      rw [hend]
      exact ⟨s, processUdts_consumed plc base n h ha, h⟩
    | some a =>
      have hlt : w.cursor < w.queue.length := (List.getElem?_eq_some_iff.mp ha).1
      have hturn : Turn (visit plc base) w (next (visit plc base) w a) := ⟨hend, a, ha, rfl⟩
      by_cases hs : a ∈ w.seen
      · have hn : next (visit plc base) w a = { w with cursor := w.cursor + 1 } := if_pos hs
        rw [hn] at hturn
        rw [processUdts_seen plc base n h ha hs]
        obtain ⟨w', hrun, hw'⟩ := ih (s := { s with currentUdt := s.currentUdt + 1 })
          (w := { w with cursor := w.cursor + 1 })
          ⟨h.queue, congrArg (· + 1) h.current, h.udts, h.opened⟩ hend hroom hlt
          (by show maxUdts < n + old.length + (w.cursor + 1); omega)
        exact ⟨w', .head hturn hrun, hw'⟩
      · obtain ⟨hfits, hfull⟩ := processUdts_visit plc base n h hroom ha hs
        by_cases hnext : Room old (next (visit plc base) w a)
        · rcases hfits hnext with ⟨he, s', hs', hm⟩ | ⟨he, hres⟩
          · rw [hs']
            obtain ⟨w', hrun, hw'⟩ := ih hm
              (by rw [next_ended _ hs hend, he])
              hnext
              (by rw [next_cursor _ hs he, next_queue _ hs, List.length_append]; omega)
              (by rw [next_cursor _ hs he]; omega)
            exact ⟨w', .head hturn hrun, hw'⟩
          · refine ⟨_, .single hturn, .inl ⟨.inl ?_, hnext, hres⟩⟩
            rw [next_ended _ hs hend]
            exact Option.isSome_iff_ne_none.mpr he
        · exact ⟨_, .single hturn, .inr ⟨hnext, hfull hnext⟩⟩

end Run

end Plctagt.Listing
