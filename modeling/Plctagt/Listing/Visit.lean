import Plctagt.Listing.Udt
import Plctagt.Foundations.Worklist

/-! # Visiting a template

`visit` says what a template brings, whatever the statics are: the ids of its structured fields, and
whether the call goes on. `get_udt_definition` does to the statics what the visit foretells.
-/
namespace Plctagt.Listing
open Decimal Tag Worklist
set_option autoImplicit false

/-! ## Running a step -/

section Step
variable {α β : Type}

theorem bind_of_ok {x : Step α} {s s' : Statics} {a : α} (f : α → Step β)
    (h : x s = .ok a s') : (x >>= f) s = f a s' := by
  show EStateM.bind x f s = _
  simp only [EStateM.bind, h]

theorem bind_of_error {x : Step α} {s s' : Statics} {e : Halt} (f : α → Step β)
    (h : x s = .error e s') : (x >>= f) s = .error e s' := by
  show EStateM.bind x f s = _
  simp only [EStateM.bind, h]

/-- A test of what a step returns, taken apart. -/
theorem exists_ok_of_any {x : Step α} {s : Statics} {p : α → Bool}
    (h : (EStateM.run' x s).any p = true) : ∃ a s', x s = .ok a s' ∧ p a = true := by
  unfold EStateM.run' EStateM.run at h
  cases hx : x s with
  | ok a s' =>
    rw [hx] at h
    exact ⟨a, s', rfl, h⟩
  | error e s' =>
    rw [hx] at h
    cases h

end Step

/-! ## What a template brings -/

inductive Stop
  | unsupported
  | halt (h : Halt)

def descriptors (tag : PlcTag) : ℕ → ℤ → List UdtField
  | 0, _ => []
  | n + 1, offset =>
    ⟨none, getUint16 tag (offset + 2), getUint16 tag offset, getUint32 tag (offset + 4)⟩ ::
      descriptors tag n (offset + 8)

def fieldUdts (fields : List UdtField) : List UInt16 :=
  (fields.filter fun f => isUdtType f.type).map fun f => udtId f.type

theorem fieldUdts_cons (f : UdtField) (fields : List UdtField) :
    fieldUdts (f :: fields) =
      if isUdtType f.type then udtId f.type :: fieldUdts fields else fieldUdts fields := by
  by_cases h : isUdtType f.type = true <;> simp [fieldUdts, h]

def templateVisit (plc : Plc) (tagString : Text) (id : UInt16) : Visit UInt16 Stop :=
  let tag := plc.tag tagString
  let n := (getUint16 tag 10).toNat
  if getUint16 tag 0 ≠ id then ⟨[], some (.halt .exit)⟩
  else if plc.calloc tagString 14 (24 + 24 * n) = false then ⟨[], some (.halt .exit)⟩
  else
    let fields := descriptors tag n 14
    ⟨fieldUdts fields,
      match templateNames plc tagString fields (14 + 8 * n) with
      | .error e => some (.halt e)
      | .ok _ => none⟩

def visit (plc : Plc) (base : Text) (id : UInt16) : Visit UInt16 Stop :=
  match openTag plc base (udtName id) with
  | .error e => ⟨[], some (.halt e)⟩
  | .ok (tagString, _) =>
    if plc.read tagString = plctagErrUnsupported then ⟨[], some .unsupported⟩
    else if plc.read tagString ≠ plctagStatusOk then ⟨[], some (.halt .exit)⟩
    else templateVisit plc tagString id

/-! ## The scan of the descriptors -/

theorem pushUdt_ok (id : UInt16) (s : Statics) (h : s.lastUdt < maxUdts) :
    pushUdt id s = .ok () { s with udtsToProcess := s.udtsToProcess ++ [id] } := by
  show (if s.lastUdt < maxUdts then _ else _ : Step Unit) s = _
  rw [if_pos h]
  rfl

theorem pushUdt_full (id : UInt16) (s : Statics) (h : ¬ s.lastUdt < maxUdts) :
    pushUdt id s = .error .overrun s := by
  show (if s.lastUdt < maxUdts then _ else _ : Step Unit) s = _
  rw [if_neg h]
  rfl

def newUdts (s : Statics) (fields : List UdtField) : List UInt16 :=
  (fieldUdts fields).filter fun c => (s.udts c).isNone

theorem newUdts_cons (s : Statics) (f : UdtField) (fields : List UdtField) :
    newUdts s (f :: fields) =
      if isUdtType f.type ∧ (s.udts (udtId f.type)).isNone then
        udtId f.type :: newUdts s fields
      else newUdts s fields := by
  by_cases hf : isUdtType f.type = true <;>
    by_cases hs : (s.udts (udtId f.type)).isNone = true <;>
    simp [newUdts, fieldUdts, hf, hs]

theorem scanFields_eq (tag : PlcTag) (n : ℕ) (offset : ℤ) (s : Statics) :
    (s.lastUdt + (newUdts s (descriptors tag n offset)).length ≤ maxUdts →
      scanFields tag n offset s = .ok (descriptors tag n offset)
        { s with udtsToProcess := s.udtsToProcess ++ newUdts s (descriptors tag n offset) }) ∧
    (s.lastUdt ≤ maxUdts →
      maxUdts < s.lastUdt + (newUdts s (descriptors tag n offset)).length →
      ∃ s', scanFields tag n offset s = .error .overrun s') := by
  induction n generalizing offset s with
  | zero =>
    refine ⟨fun _ => ?_, fun h h' => ?_⟩
    · simp [scanFields, descriptors, newUdts, fieldUdts]
      rfl
    · simp [descriptors, newUdts, fieldUdts] at h'
      omega
  | succ n ih =>
    set f : UdtField := ⟨none, getUint16 tag (offset + 2), getUint16 tag offset,
      getUint32 tag (offset + 4)⟩ with hf
    have hdesc : descriptors tag (n + 1) offset = f :: descriptors tag n (offset + 8) := rfl
    rw [hdesc, newUdts_cons]
    by_cases hpush : isUdtType f.type = true ∧ (s.udts (udtId f.type)).isNone = true
    · rw [if_pos hpush]
      set s₁ : Statics := { s with udtsToProcess := s.udtsToProcess ++ [udtId f.type] } with hs₁
      have hlast : s₁.lastUdt = s.lastUdt + 1 := by simp [hs₁, Statics.lastUdt]
      have hnew : newUdts s₁ (descriptors tag n (offset + 8))
          = newUdts s (descriptors tag n (offset + 8)) := rfl
      have hstep : scanFields tag (n + 1) offset s =
          (pushUdt (udtId f.type) >>= fun _ => scanFields tag n (offset + 8) >>= fun fields =>
            pure (f :: fields)) s := by
        show (if isUdtType f.type = true ∧ (s.udts (udtId f.type)).isNone = true then _ else _ :
          Step (List UdtField)) s = _
        rw [if_pos hpush]
      rw [hstep, List.length_cons]
      refine ⟨fun hroom => ?_, fun hle hfull => ?_⟩
      · obtain ⟨hok, -⟩ := ih (offset + 8) s₁
        rw [bind_of_ok _ (pushUdt_ok _ s (by omega)),
          bind_of_ok _ (hok (by rw [hnew, hlast]; omega)), hnew]
        simp only [hs₁, List.append_assoc, List.singleton_append]
        rfl
      · by_cases hroom : s.lastUdt < maxUdts
        · obtain ⟨-, herr⟩ := ih (offset + 8) s₁
          obtain ⟨s', hs'⟩ := herr (by omega) (by rw [hnew, hlast]; omega)
          exact ⟨s', by rw [bind_of_ok _ (pushUdt_ok _ s hroom), bind_of_error _ hs']⟩
        · exact ⟨s, bind_of_error _ (pushUdt_full _ s hroom)⟩
    · rw [if_neg hpush]
      have hstep : scanFields tag (n + 1) offset s =
          (scanFields tag n (offset + 8) >>= fun fields => pure (f :: fields)) s := by
        show (if isUdtType f.type = true ∧ (s.udts (udtId f.type)).isNone = true then _ else _ :
          Step (List UdtField)) s = _
        rw [if_neg hpush]
      rw [hstep]
      obtain ⟨hok, herr⟩ := ih (offset + 8) s
      refine ⟨fun hroom => ?_, fun hle hfull => ?_⟩
      · rw [bind_of_ok _ (hok hroom)]
        rfl
      · obtain ⟨s', hs'⟩ := herr hle hfull
        exact ⟨s', bind_of_error _ hs'⟩

/-! ## The definition of one template -/

/-- The children of a visit that are queued when `id` is defined. -/
def queuedBy (v : Visit UInt16 Stop) (s : Statics) (id : UInt16) : List UInt16 :=
  v.children.filter fun c => c ≠ id ∧ (s.udts c).isNone

/-- What a definition does to the statics when it is not cut short. -/
structure Defined (s : Statics) (id : UInt16) (new : List UInt16) (s' : Statics) : Prop where
  queue : s'.udtsToProcess = s.udtsToProcess ++ new
  current : s'.currentUdt = s.currentUdt
  opened : s'.opened = s.opened
  udts : ∀ c, (s'.udts c).isSome = true ↔ c = id ∨ (s.udts c).isSome = true

/-- The outcome of defining a template, as its visit foretells it. -/
def Foretold (v : Visit UInt16 Stop) (id : UInt16) (s : Statics)
    (r : EStateM.Result Halt Statics ℤ) : Prop :=
  match v.ending with
  | none => ∃ s', r = .ok plctagStatusOk s' ∧ Defined s id (queuedBy v s id) s'
  | some .unsupported => r = .ok plctagErrUnsupported s
  | some (.halt e) => ∃ s', r = .error e s' ∧ s'.opened = s.opened

section Define
variable (plc : Plc) (base tagString : Text) (id : UInt16) (s : Statics)

theorem newUdts_define (entry : UdtEntry) (fields : List UdtField) :
    newUdts { s with udts := Function.update s.udts id (some entry) } fields =
      (fieldUdts fields).filter fun c => c ≠ id ∧ (s.udts c).isNone := by
  refine List.filter_congr (fun c _ => ?_)
  by_cases h : c = id
  · subst h
    simp
  · cases hc : s.udts c <;> simp [h, hc]

theorem readTemplate_eq {n : ℕ} (hn : (getUint16 (plc.tag tagString) 10).toNat = n)
    (hid : getUint16 (plc.tag tagString) 0 = id)
    (hcalloc : plc.calloc tagString 14 (24 + 24 * n) = true) :
    let entry : UdtEntry := ⟨none, id, getUint16 (plc.tag tagString) 10,
      getUint16 (plc.tag tagString) 12, getUint32 (plc.tag tagString) 6,
      List.replicate n ⟨none, 0, 0, 0⟩⟩
    readTemplate plc tagString id s =
      (scanFields (plc.tag tagString) n 14 >>= fun fields =>
        lift (templateNames plc tagString fields (14 + 8 * n)) >>= fun y =>
          defineUdt id { entry with name := some y.1, fields := y.2 } >>= fun _ =>
            pure plctagStatusOk) { s with udts := Function.update s.udts id (some entry) } := by
  subst hn
  show (if _ then _ else if _ then _ else _ : Step ℤ) s = _
  rw [if_neg (not_not.mpr hid), if_neg (by rw [hcalloc]; simp)]
  rfl

theorem foretold_childless (hle : s.lastUdt ≤ maxUdts) {v : Visit UInt16 Stop} {e : Option Stop}
    {r : EStateM.Result Halt Statics ℤ} (hv : v = ⟨[], e⟩) (h : Foretold v id s r) :
    (s.lastUdt + (queuedBy v s id).length ≤ maxUdts → Foretold v id s r) ∧
    (maxUdts < s.lastUdt + (queuedBy v s id).length → ∃ s', r = .error .overrun s') := by
  refine ⟨fun _ => h, fun hfull => absurd hfull ?_⟩
  rw [hv]
  simp only [queuedBy, List.filter_nil, List.length_nil]
  omega

theorem readTemplate_visit (hle : s.lastUdt ≤ maxUdts) :
    (s.lastUdt + (queuedBy (templateVisit plc tagString id) s id).length ≤ maxUdts →
      Foretold (templateVisit plc tagString id) id s (readTemplate plc tagString id s)) ∧
    (maxUdts < s.lastUdt + (queuedBy (templateVisit plc tagString id) s id).length →
      ∃ s', readTemplate plc tagString id s = .error .overrun s') := by
  set n := (getUint16 (plc.tag tagString) 10).toNat with hn
  by_cases hid : getUint16 (plc.tag tagString) 0 ≠ id
  · have hv : templateVisit plc tagString id = ⟨[], some (.halt .exit)⟩ := if_pos hid
    have hr : readTemplate plc tagString id s = .error .exit s := by
      show (if _ then _ else _ : Step ℤ) s = _
      rw [if_pos hid]
      rfl
    apply foretold_childless id s hle hv
    rw [hv]
    exact ⟨s, hr, rfl⟩
  by_cases hcalloc : plc.calloc tagString 14 (24 + 24 * n) = false
  · have hv : templateVisit plc tagString id = ⟨[], some (.halt .exit)⟩ :=
      (if_neg hid).trans (if_pos hcalloc)
    have hr : readTemplate plc tagString id s = .error .exit s := by
      show (if _ then _ else if _ then _ else _ : Step ℤ) s = _
      rw [if_neg hid, if_pos hcalloc]
      rfl
    apply foretold_childless id s hle hv
    rw [hv]
    exact ⟨s, hr, rfl⟩
  · set fields := descriptors (plc.tag tagString) n 14 with hfields
    have hv : templateVisit plc tagString id = ⟨fieldUdts fields,
        match templateNames plc tagString fields (14 + 8 * n) with
        | .error e => some (.halt e)
        | .ok _ => none⟩ := (if_neg hid).trans (if_neg hcalloc)
    set entry : UdtEntry := ⟨none, id, getUint16 (plc.tag tagString) 10,
      getUint16 (plc.tag tagString) 12, getUint32 (plc.tag tagString) 6,
      List.replicate n ⟨none, 0, 0, 0⟩⟩ with hentry
    set s₁ : Statics := { s with udts := Function.update s.udts id (some entry) } with hs₁
    have hr := readTemplate_eq plc tagString id s hn.symm (not_not.mp hid)
      (eq_true_of_ne_false hcalloc)
    have hnew : newUdts s₁ fields = queuedBy (templateVisit plc tagString id) s id := by
      rw [hv]
      exact newUdts_define id s entry fields
    obtain ⟨hok, hfull⟩ := scanFields_eq (plc.tag tagString) n 14 s₁
    rw [← hfields, hnew] at hok hfull
    refine ⟨fun hroom => ?_, fun h => ?_⟩
    · rw [hr, bind_of_ok _ (hok hroom)]
      cases hnames : templateNames plc tagString fields (14 + 8 * n) with
      | error e =>
        have hend : (templateVisit plc tagString id).ending = some (.halt e) := by
          rw [hv, hnames]
        unfold Foretold
        rw [hend]
        exact ⟨_, rfl, rfl⟩
      | ok y =>
        have hend : (templateVisit plc tagString id).ending = none := by
          rw [hv, hnames]
        unfold Foretold
        rw [hend]
        refine ⟨_, rfl, rfl, rfl, rfl, fun c => ?_⟩
        by_cases hc : c = id
        · subst hc
          simp
        · simp [hs₁, hc]
    · obtain ⟨s', hs'⟩ := hfull hle h
      exact ⟨s', by rw [hr, bind_of_error _ hs']⟩

theorem getUdtDefinition_eq (hs : s.udts id = none) : getUdtDefinition plc base id s =
    (lift (openTag plc base (udtName id)) >>= fun x =>
      if plc.read x.1 = plctagErrUnsupported then pure (plc.read x.1)
      else if plc.read x.1 ≠ plctagStatusOk then throw Halt.exit
      else readTemplate plc x.1 id : Step ℤ) { s with opened := s.opened ++ [id] } := by
  show (if (s.udts id).isSome = true then _ else _ : Step ℤ) s = _
  rw [hs, if_neg (by simp)]
  rfl

theorem getUdtDefinition_opened (hs : s.udts id = none) {tag : ℤ}
    (hopen : openTag plc base (udtName id) = .ok (tagString, tag))
    (hread : plc.read tagString = plctagStatusOk) :
    getUdtDefinition plc base id s =
      readTemplate plc tagString id { s with opened := s.opened ++ [id] } := by
  rw [getUdtDefinition_eq plc base id s hs, hopen]
  show (if plc.read tagString = plctagErrUnsupported then _ else _ : Step ℤ) _ = _
  rw [if_neg (by rw [hread]; decide), if_neg (not_not.mpr hread)]

theorem getUdtDefinition_visit (hs : s.udts id = none) (hle : s.lastUdt ≤ maxUdts) :
    (s.lastUdt + (queuedBy (visit plc base id) s id).length ≤ maxUdts →
      Foretold (visit plc base id) id { s with opened := s.opened ++ [id] }
        (getUdtDefinition plc base id s)) ∧
    (maxUdts < s.lastUdt + (queuedBy (visit plc base id) s id).length →
      ∃ s', getUdtDefinition plc base id s = .error .overrun s') := by
  set s₁ : Statics := { s with opened := s.opened ++ [id] } with hs₁
  have hr := getUdtDefinition_eq plc base id s hs
  rw [← hs₁] at hr
  rw [hr]
  cases hopen : openTag plc base (udtName id) with
  | error e =>
    have hv : visit plc base id = ⟨[], some (.halt e)⟩ := by simp only [visit, hopen]
    apply foretold_childless id s₁ hle hv
    rw [hv]
    exact ⟨s₁, rfl, rfl⟩
  | ok x =>
    show (_ → Foretold _ id s₁ ((if plc.read x.1 = plctagErrUnsupported then _ else _ :
      Step ℤ) s₁)) ∧ (_ → ∃ s', (if plc.read x.1 = plctagErrUnsupported then _ else _ :
      Step ℤ) s₁ = _)
    by_cases hun : plc.read x.1 = plctagErrUnsupported
    · have hv : visit plc base id = ⟨[], some .unsupported⟩ := by
        simp only [visit, hopen, hun, if_true]
      apply foretold_childless id s₁ hle hv
      rw [hv, if_pos hun, hun]
      rfl
    rw [if_neg hun]
    by_cases hbad : plc.read x.1 ≠ plctagStatusOk
    · have hv : visit plc base id = ⟨[], some (.halt .exit)⟩ := by
        simp only [visit, hopen]
        rw [if_neg hun, if_pos hbad]
      apply foretold_childless id s₁ hle hv
      rw [hv, if_pos hbad]
      exact ⟨s₁, rfl, rfl⟩
    · have hv : visit plc base id = templateVisit plc x.1 id := by
        simp only [visit, hopen]
        rw [if_neg hun, if_neg hbad]
      rw [hv, if_neg hbad]
      exact readTemplate_visit plc x.1 id s₁ hle

end Define

end Plctagt.Listing
