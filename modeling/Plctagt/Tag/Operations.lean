import Plctagt.Tag.Events

/-! # Operations on a tag

Reads, writes and aborts as `lib.c` runs them for every protocol. What happens under the mutex of a
tag is one step; the steps of any threads follow one another in any order, the tickler among them. The
functions of the protocol are parameters: they change what they like, but they start no operation, and
the dirty flag and the schedule are not theirs (`Lawful`). The callbacks call no function of their
tags.
-/
namespace Plctagt.Tag
set_option autoImplicit false

abbrev plctagErrAbort : ℤ := -1
abbrev plctagErrNotImplemented : ℤ := -20
abbrev plctagErrBusy : ℤ := -39

/-- A call of the protocol's `read` or `write`, by the tickler (`auto`) or by `plc_tag_read` and
`plc_tag_write`, with the flags it was made under. -/
structure OpCall where
  op : Operation
  auto : Bool
  readInFlight : Bool
  writeInFlight : Bool
  tagIsDirty : Bool

/-- `TAG_BASE_STRUCT`, and in `proto` the fields that a protocol adds; `calls` is what was asked of the
protocol so far. -/
structure BaseTag (φ : Type) where
  skipTickler : Bool
  readComplete : Bool
  readInFlight : Bool
  writeComplete : Bool
  writeInFlight : Bool
  tagIsDirty : Bool
  abortRequested : Bool
  status : ℤ
  autoSyncReadMs : ℤ
  autoSyncWriteMs : ℤ
  autoSyncNextRead : ℤ
  autoSyncNextWrite : ℤ
  readCacheExpire : ℤ
  readCacheMs : ℤ
  events : EventFlags
  proto : φ
  calls : List OpCall

abbrev VtableFunc (φ : Type) : Type := BaseTag φ → ℤ × BaseTag φ

/-- `struct tag_vtable_t`, `none` where there is no function. -/
structure Vtable (φ : Type) where
  abort : Option (VtableFunc φ)
  read : Option (VtableFunc φ)
  status : Option (VtableFunc φ)
  tickler : Option (VtableFunc φ)
  write : Option (VtableFunc φ)

section Sections
variable {φ : Type} (v : Vtable φ)

def BaseTag.raise (t : BaseTag φ) (event : TagEvent) (status : ℤ) : BaseTag φ :=
  { t with events := tagRaiseEvent t.events event status }

def BaseTag.handle (t : BaseTag φ) : BaseTag φ :=
  { t with events := (handleEventCallbacks silent t.events).elim t.events Prod.snd }

def BaseTag.call (t : BaseTag φ) (f : Option (VtableFunc φ)) : BaseTag φ :=
  f.elim t fun g => (g t).2

def BaseTag.note (t : BaseTag φ) (op : Operation) (auto : Bool) : BaseTag φ :=
  { t with calls := t.calls ++ [⟨op, auto, t.readInFlight, t.writeInFlight, t.tagIsDirty⟩] }

/-- The part of `plc_tag_generic_tickler` for an abort request. -/
def ticklerAbort (t : BaseTag φ) : BaseTag φ :=
  BaseTag.raise
    { t.call v.abort with
      readComplete := false, readInFlight := false, writeComplete := false, writeInFlight := false,
      abortRequested := false }
    .aborted plctagErrAbort

/-- A read in flight makes way for data that is to be written. -/
def abortAutoRead (t : BaseTag φ) : BaseTag φ :=
  if t.readInFlight then
    BaseTag.raise { t.call v.abort with readComplete := false, readInFlight := false }
      .aborted plctagErrAbort
  else t

def clearRead (t : BaseTag φ) : BaseTag φ :=
  if t.readInFlight then { t.call v.abort with readInFlight := false } else t

/-- The status is an `int8_t`. -/
def setStatus (rc : ℤ) (t : BaseTag φ) : BaseTag φ := { t with status := rc.bmod 256 }

/-- The tickler calls the protocol's `read` or `write` and keeps the status. -/
def startAuto (f : Option (VtableFunc φ)) (op : Operation) (t : BaseTag φ) : BaseTag φ :=
  let t := f.elim t fun g => setStatus (g (t.note op true)).1 (g (t.note op true)).2
  t.raise (.started op) t.status

/-- The part of `plc_tag_generic_tickler` for automatic writes. -/
def autoWrite (now : ℤ) (t : BaseTag φ) : BaseTag φ :=
  if 0 < t.autoSyncWriteMs ∧ t.tagIsDirty then
    let t := abortAutoRead v t
    if t.autoSyncNextWrite = 0 then { t with autoSyncNextWrite := now + t.autoSyncWriteMs }
    else if t.writeInFlight = false ∧ t.autoSyncNextWrite ≤ now then
      startAuto v.write .write
        { clearRead v t with tagIsDirty := false, writeInFlight := true, autoSyncNextWrite := 0 }
    else t
  else t

def periods (now next period : ℤ) : ℤ := (now - next + (period - 1)).tdiv period

/-- The part of `plc_tag_generic_tickler` for automatic reads. -/
def autoRead (now : ℤ) (t : BaseTag φ) : BaseTag φ :=
  if 0 < t.autoSyncReadMs ∧ t.autoSyncNextRead < now ∧ t.readInFlight = false ∧
      t.tagIsDirty = false ∧ t.writeInFlight = false then
    let t := startAuto v.read .read { t with readInFlight := true }
    { t with autoSyncNextRead :=
        t.autoSyncNextRead + periods now t.autoSyncNextRead t.autoSyncReadMs * t.autoSyncReadMs }
  else t

/-- `plc_tag_generic_tickler`; the clock is read for the writes and again for the reads. -/
def plcTagGenericTickler (now now' : ℤ) (t : BaseTag φ) : BaseTag φ :=
  if t.abortRequested then ticklerAbort v t else autoRead v now' (autoWrite v now t)

def completeRead (t : BaseTag φ) : BaseTag φ :=
  if t.readComplete then
    BaseTag.raise { t with readComplete := false, readInFlight := false } (.completed .read) t.status
  else t

def completeWrite (t : BaseTag φ) : BaseTag φ :=
  if t.writeComplete then
    BaseTag.raise { t with writeComplete := false, writeInFlight := false, autoSyncNextWrite := 0 }
      (.completed .write) t.status
  else t

/-- What `tag_tickler_func` does with a tag that it could lock. It leaves the tags alone for which a
protocol has a tickler thread of its own. -/
def tickle (now now' : ℤ) (t : BaseTag φ) : BaseTag φ :=
  if t.skipTickler then t
  else
    let t := plcTagGenericTickler v now now' t
    if v.tickler.isSome then completeWrite (completeRead (t.call v.tickler)) else t

/-- The locked part of `plc_tag_abort_impl`. -/
def abortLocked (t : BaseTag φ) : ℤ × BaseTag φ :=
  let t := { t with readCacheExpire := 0 }
  let (rc, t) := (v.abort.filter fun _ => t.abortRequested).elim (plctagErrNotImplemented, t) (· t)
  (rc, BaseTag.raise
    { t with
      readInFlight := false, readComplete := false, writeInFlight := false, writeComplete := false }
    .aborted plctagErrAbort)

def requestAbort (t : BaseTag φ) : BaseTag φ := { t with abortRequested := true }

/-- `plc_tag_abort_impl` when nothing comes between its steps, as under the mutex. -/
def plcTagAbortImpl (t : BaseTag φ) : ℤ × BaseTag φ :=
  let (rc, t) := abortLocked v (requestAbort t)
  (rc, t.handle)

/-- The first locked part of `plc_tag_read`: what it returns unless it waits, and if it is done. -/
def plcTagReadStart (now : ℤ) (t : BaseTag φ) : (ℤ × Bool) × BaseTag φ :=
  let t := (t.raise (.started .read) plctagStatusOk).handle
  if now < t.readCacheExpire then ((plctagStatusOk, true), t)
  else if t.readInFlight || t.writeInFlight then ((plctagErrBusy, true), t)
  else if t.tagIsDirty then ((plctagErrBusy, true), t)
  else
    let t := { t with readInFlight := true, status := plctagStatusPending }
    let (rc, t) := v.read.elim (plctagErrNotImplemented, t) (· (t.note .read false))
    if rc = plctagStatusPending then ((rc, false), t)
    else
      let (rc, t) := if rc = plctagStatusOk then (rc, t) else plcTagAbortImpl v t
      ((rc, true), { t with readInFlight := false })

/-- The last locked part of `plc_tag_read`, for a read that was waited for. -/
def plcTagReadFinish (rc : ℤ) (t : BaseTag φ) : BaseTag φ :=
  BaseTag.raise { t with readInFlight := false, readComplete := false } (.completed .read) (rc.bmod 256)

/-- `plc_tag_read` sets up the cache. -/
def readCached (now : ℤ) (t : BaseTag φ) : BaseTag φ :=
  { t with readCacheExpire := now + t.readCacheMs }

/-- The first locked part of `plc_tag_write`. -/
def plcTagWriteStart (t : BaseTag φ) : (ℤ × Bool) × BaseTag φ :=
  if t.readInFlight || t.writeInFlight then ((plctagErrBusy, true), t)
  else
    let t := { t with writeInFlight := true, status := plctagStatusOk }
    let t := (t.raise (.started .write) t.status).handle
    let (rc, t) := v.write.elim (plctagErrNotImplemented, t) (· (t.note .write false))
    if rc = plctagStatusPending then ((rc, false), t)
    else
      let t := if rc = plctagStatusOk then t else t.call v.abort
      ((rc, true), { t with writeInFlight := false })

/-- The locked part of `plc_tag_write` after the wait. -/
def plcTagWriteFinish (t : BaseTag φ) : BaseTag φ :=
  { t with writeInFlight := false, writeComplete := false }

/-- `plc_tag_write` tells of the end of a write that is done. -/
def writeDone (rc : ℤ) (t : BaseTag φ) : BaseTag φ := t.raise (.completed .write) (rc.bmod 256)

def plcTagStatusImpl (t : BaseTag φ) : ℤ × BaseTag φ :=
  let t := t.call v.tickler
  let (rc, t) := v.status.elim (plctagErrNotImplemented, t) (· t)
  (if rc = plctagStatusOk ∧ (t.readInFlight || t.writeInFlight) then plctagStatusPending else rc, t)

/-- A set accessor of the data that found room for it; `put` is what it does to the buffer. -/
def setData (put : φ → φ) (t : BaseTag φ) : BaseTag φ :=
  { t with
    tagIsDirty := t.tagIsDirty || decide (0 < t.autoSyncWriteMs), status := plctagStatusOk,
    proto := put t.proto }

/-- `plc_tag_set_int_attribute` for the attributes that must not be negative. -/
def setMs (set : BaseTag φ) (value : ℤ) (t : BaseTag φ) : BaseTag φ :=
  if 0 ≤ value then { set with status := plctagStatusOk } else { t with status := plctagErrOutOfBounds }

def setAutoSyncReadMs (ms : ℤ) (t : BaseTag φ) : BaseTag φ := setMs { t with autoSyncReadMs := ms } ms t

def setAutoSyncWriteMs (ms : ℤ) (t : BaseTag φ) : BaseTag φ := setMs { t with autoSyncWriteMs := ms } ms t

def setReadCacheMs (ms : ℤ) (t : BaseTag φ) : BaseTag φ :=
  setMs { t with readCacheExpire := 0, readCacheMs := ms } ms t

end Sections

/-! ## Steps and runs -/

section Runs
variable {φ : Type}

/-- `setStatus` is an accessor that only leaves a status, `protocol` what a thread of the protocol does
to the tag. -/
inductive OpStep (φ : Type) where
  | tickle (now now' : ℤ)
  | requestAbort
  | abortLocked
  | readStart (now : ℤ)
  | readFinish (rc : ℤ)
  | readCached (now : ℤ)
  | writeStart
  | writeFinish
  | writeDone (rc : ℤ)
  | status
  | handle
  | setStatus (rc : ℤ)
  | setData (put : φ → φ)
  | setAutoSyncReadMs (ms : ℤ)
  | setAutoSyncWriteMs (ms : ℤ)
  | setReadCacheMs (ms : ℤ)
  | protocol (f : VtableFunc φ)

def opStep (v : Vtable φ) (t : BaseTag φ) : OpStep φ → BaseTag φ
  | .tickle now now' => tickle v now now' t
  | .requestAbort => requestAbort t
  | .abortLocked => (abortLocked v t).2
  | .readStart now => (plcTagReadStart v now t).2
  | .readFinish rc => plcTagReadFinish rc t
  | .readCached now => readCached now t
  | .writeStart => (plcTagWriteStart v t).2
  | .writeFinish => plcTagWriteFinish t
  | .writeDone rc => writeDone rc t
  | .status => (plcTagStatusImpl v t).2
  | .handle => t.handle
  | .setStatus rc => setStatus rc t
  | .setData put => setData put t
  | .setAutoSyncReadMs ms => setAutoSyncReadMs ms t
  | .setAutoSyncWriteMs ms => setAutoSyncWriteMs ms t
  | .setReadCacheMs ms => setReadCacheMs ms t
  | .protocol f => (f t).2

def opRun (v : Vtable φ) (t : BaseTag φ) (steps : List (OpStep φ)) : BaseTag φ :=
  steps.foldl (opStep v) t

end Runs

/-! ## What a step changes -/

section Changes
variable {φ : Type}

/-- No operation starts, dirty data stays dirty, and the schedule of the reads stays. -/
structure Quiet (t t' : BaseTag φ) : Prop where
  readInFlight : t'.readInFlight = true → t.readInFlight = true
  writeInFlight : t'.writeInFlight = true → t.writeInFlight = true
  tagIsDirty : t.tagIsDirty = true → t'.tagIsDirty = true
  autoSyncReadMs : t'.autoSyncReadMs = t.autoSyncReadMs
  autoSyncNextRead : t'.autoSyncNextRead = t.autoSyncNextRead
  calls : t'.calls = t.calls

theorem Quiet.refl (t : BaseTag φ) : Quiet t t := ⟨id, id, id, rfl, rfl, rfl⟩

theorem Quiet.trans {t t' t'' : BaseTag φ} (h : Quiet t t') (h' : Quiet t' t'') : Quiet t t'' :=
  ⟨h.readInFlight ∘ h'.readInFlight, h.writeInFlight ∘ h'.writeInFlight, h'.tagIsDirty ∘ h.tagIsDirty,
    h'.autoSyncReadMs.trans h.autoSyncReadMs, h'.autoSyncNextRead.trans h.autoSyncNextRead,
    h'.calls.trans h.calls⟩

def Lawful (f : VtableFunc φ) : Prop := ∀ t, Quiet t (f t).2

structure Vtable.Lawful (v : Vtable φ) : Prop where
  abort : ∀ f ∈ v.abort, Tag.Lawful f
  read : ∀ f ∈ v.read, Tag.Lawful f
  status : ∀ f ∈ v.status, Tag.Lawful f
  tickler : ∀ f ∈ v.tickler, Tag.Lawful f
  write : ∀ f ∈ v.write, Tag.Lawful f

def BaseTag.asked (t : BaseTag φ) (f : Option (VtableFunc φ)) (op : Operation) (auto : Bool) :
    BaseTag φ :=
  if f.isSome then t.note op auto else t

/-- All that ever happens to the flags: quiet changes, and the four ways in which an operation
starts. `C` holds of the times at which the tickler reads the clock. -/
inductive Change (v : Vtable φ) (C : ℤ → Prop) (t : BaseTag φ) : BaseTag φ → Prop
  | quiet {t' : BaseTag φ} (h : Quiet t t') : Change v C t t'
  | read (hread : t.readInFlight = false) (hwrite : t.writeInFlight = false)
      (hclean : t.tagIsDirty = false) :
      Change v C t (BaseTag.asked { t with readInFlight := true } v.read .read false)
  | write (hread : t.readInFlight = false) (hwrite : t.writeInFlight = false) :
      Change v C t (BaseTag.asked { t with writeInFlight := true } v.write .write false)
  | autoWrite (hread : t.readInFlight = false) (hwrite : t.writeInFlight = false) :
      Change v C t
        (BaseTag.asked { t with tagIsDirty := false, writeInFlight := true } v.write .write true)
  | autoRead {now : ℤ} (hclock : C now) (hperiod : 0 < t.autoSyncReadMs)
      (hlate : t.autoSyncNextRead < now) (hread : t.readInFlight = false)
      (hwrite : t.writeInFlight = false) (hclean : t.tagIsDirty = false) {t' : BaseTag φ}
      (h : Quiet (BaseTag.asked { t with readInFlight := true } v.read .read true) t') :
      Change v C t { t' with autoSyncNextRead :=
        t'.autoSyncNextRead + periods now t'.autoSyncNextRead t'.autoSyncReadMs * t'.autoSyncReadMs }

abbrev Changes (v : Vtable φ) (C : ℤ → Prop) : BaseTag φ → BaseTag φ → Prop :=
  Relation.ReflTransGen (Change v C)

theorem quiet_raise (t : BaseTag φ) (event : TagEvent) (status : ℤ) : Quiet t (t.raise event status) :=
  ⟨id, id, id, rfl, rfl, rfl⟩

theorem quiet_handle (t : BaseTag φ) : Quiet t t.handle := ⟨id, id, id, rfl, rfl, rfl⟩

theorem quiet_call (t : BaseTag φ) {f : Option (VtableFunc φ)} (hf : ∀ g ∈ f, Lawful g) :
    Quiet t (t.call f) := by
  cases f with
  | none => exact .refl t
  | some g => exact hf g rfl t

/-- A call of the protocol that says that there is no such function. -/
theorem quiet_elim (t : BaseTag φ) {f : Option (VtableFunc φ)} (hf : ∀ g ∈ f, Lawful g) (rc : ℤ) :
    Quiet t (f.elim (rc, t) (· t)).2 := by
  cases f with
  | none => exact .refl t
  | some g => exact hf g rfl t

theorem quiet_asked (t : BaseTag φ) {f : Option (VtableFunc φ)} (hf : ∀ g ∈ f, Lawful g) (rc : ℤ)
    (op : Operation) (auto : Bool) :
    Quiet (t.asked f op auto) (f.elim (rc, t) (· (t.note op auto))).2 := by
  cases f with
  | none => exact .refl t
  | some g => exact hf g rfl (t.note op auto)

theorem quiet_startAuto (t : BaseTag φ) {f : Option (VtableFunc φ)} (hf : ∀ g ∈ f, Lawful g)
    (op : Operation) : Quiet (t.asked f op true) (startAuto f op t) := by
  refine Quiet.trans ?_ (quiet_raise _ (.started op) _)
  cases f with
  | none => exact .refl t
  | some g => exact (hf g rfl (t.note op true)).trans ⟨id, id, id, rfl, rfl, rfl⟩

section Lawful
variable {v : Vtable φ} (hv : v.Lawful) (t : BaseTag φ)
include hv

theorem quiet_ticklerAbort : Quiet t (ticklerAbort v t) :=
  (quiet_call t hv.abort).trans
    ⟨fun h => absurd h Bool.false_ne_true, fun h => absurd h Bool.false_ne_true, id, rfl, rfl, rfl⟩

theorem quiet_abortAutoRead : Quiet t (abortAutoRead v t) := by
  rw [abortAutoRead]
  split_ifs
  · exact (quiet_call t hv.abort).trans
      ⟨fun h => absurd h Bool.false_ne_true, id, id, rfl, rfl, rfl⟩
  · exact .refl t

omit hv in
theorem readInFlight_abortAutoRead : (abortAutoRead v t).readInFlight = false := by
  rw [abortAutoRead]
  split_ifs with h
  · rfl
  · exact Bool.eq_false_iff.mpr h

theorem changes_autoWrite (C : ℤ → Prop) (now : ℤ) : Changes v C t (autoWrite v now t) := by
  have hquiet : Changes v C t (abortAutoRead v t) := .single (.quiet (quiet_abortAutoRead hv t))
  have hread := readInFlight_abortAutoRead (v := v) t
  have hclear : clearRead v (abortAutoRead v t) = abortAutoRead v t := by
    rw [clearRead, hread]
    rfl
  simp only [autoWrite]
  split_ifs with hdirty hqueue hdue
  · exact hquiet.tail (.quiet ⟨id, id, id, rfl, rfl, rfl⟩)
  · rw [hclear]
    refine (hquiet.tail (.autoWrite hread hdue.1)).tail (.quiet ?_)
    refine Quiet.trans ?_ (quiet_startAuto _ hv.write .write)
    cases v.write <;> exact ⟨id, id, id, rfl, rfl, rfl⟩
  · exact hquiet
  · exact .refl

theorem changes_autoRead {C : ℤ → Prop} {now : ℤ} (hclock : C now) :
    Changes v C t (autoRead v now t) := by
  simp only [autoRead]
  split_ifs with h
  · obtain ⟨hperiod, hlate, hread, hclean, hwrite⟩ := h
    exact .single (.autoRead hclock hperiod hlate hread hwrite hclean (quiet_startAuto _ hv.read .read))
  · exact .refl

omit hv in
theorem quiet_completeRead : Quiet t (completeRead t) := by
  rw [completeRead]
  split_ifs
  · exact ⟨fun h => absurd h Bool.false_ne_true, id, id, rfl, rfl, rfl⟩
  · exact .refl t

omit hv in
theorem quiet_completeWrite : Quiet t (completeWrite t) := by
  rw [completeWrite]
  split_ifs
  · exact ⟨id, fun h => absurd h Bool.false_ne_true, id, rfl, rfl, rfl⟩
  · exact .refl t

theorem changes_tickle {C : ℤ → Prop} (now : ℤ) {now' : ℤ} (hclock : C now') :
    Changes v C t (tickle v now now' t) := by
  have hgeneric : Changes v C t (plcTagGenericTickler v now now' t) := by
    rw [plcTagGenericTickler]
    split_ifs
    · exact .single (.quiet (quiet_ticklerAbort hv t))
    · exact (changes_autoWrite hv t C now).trans (changes_autoRead hv _ hclock)
  simp only [tickle]
  split_ifs
  · exact .refl
  · exact hgeneric.tail (.quiet (((quiet_call _ hv.tickler).trans (quiet_completeRead _)).trans
      (quiet_completeWrite _)))
  · exact hgeneric

theorem quiet_abortLocked : Quiet t (abortLocked v t).2 := by
  have hstart : Quiet t { t with readCacheExpire := 0 } := ⟨id, id, id, rfl, rfl, rfl⟩
  refine (hstart.trans (quiet_elim _ (f := v.abort.filter fun _ => t.abortRequested)
    (fun g hg => hv.abort g (Option.mem_filter_iff.mp hg).1) plctagErrNotImplemented)).trans ?_
  exact ⟨fun h => absurd h Bool.false_ne_true, fun h => absurd h Bool.false_ne_true, id, rfl, rfl, rfl⟩

theorem quiet_plcTagAbortImpl : Quiet t (plcTagAbortImpl v t).2 :=
  have hrequest : Quiet t (requestAbort t) := ⟨id, id, id, rfl, rfl, rfl⟩
  (hrequest.trans (quiet_abortLocked hv _)).trans (quiet_handle _)

theorem changes_plcTagReadStart (C : ℤ → Prop) (now : ℤ) :
    Changes v C t (plcTagReadStart v now t).2 := by
  simp only [plcTagReadStart]
  set t₁ := (t.raise (.started .read) plctagStatusOk).handle
  have hquiet : Changes v C t t₁ := .single (.quiet ⟨id, id, id, rfl, rfl, rfl⟩)
  split_ifs with hcache hbusy hdirty hpending hok
  · exact hquiet
  · exact hquiet
  · exact hquiet
  all_goals
    obtain ⟨hread, hwrite⟩ : t₁.readInFlight = false ∧ t₁.writeInFlight = false := by
      simpa using hbusy
    set t₂ := { t₁ with readInFlight := true, status := plctagStatusPending }
    set t₃ := v.read.elim (plctagErrNotImplemented, t₂) (· (t₂.note .read false))
    have hstatus : Quiet t₁ { t₁ with status := plctagStatusPending } :=
      ⟨id, id, id, rfl, rfl, rfl⟩
    have hstart : Changes v C t t₃.2 :=
      ((hquiet.tail (.quiet hstatus)).tail
        (.read hread hwrite (Bool.eq_false_iff.mpr hdirty))).tail
        (.quiet (quiet_asked t₂ hv.read plctagErrNotImplemented .read false))
  · exact hstart
  · exact hstart.tail (.quiet ⟨fun h => absurd h Bool.false_ne_true, id, id, rfl, rfl, rfl⟩)
  · exact (hstart.tail (.quiet (quiet_plcTagAbortImpl hv _))).tail
      (.quiet ⟨fun h => absurd h Bool.false_ne_true, id, id, rfl, rfl, rfl⟩)

theorem changes_plcTagWriteStart (C : ℤ → Prop) : Changes v C t (plcTagWriteStart v t).2 := by
  simp only [plcTagWriteStart]
  split_ifs with hbusy hpending hok
  · exact .refl
  all_goals
    obtain ⟨hread, hwrite⟩ : t.readInFlight = false ∧ t.writeInFlight = false := by simpa using hbusy
    set t₁ := { t with writeInFlight := true, status := plctagStatusOk }
    set t₂ := (t₁.raise (.started .write) t₁.status).handle
    set t₃ := v.write.elim (plctagErrNotImplemented, t₂) (· (t₂.note .write false))
    have hquiet : Quiet t { t₂ with writeInFlight := t.writeInFlight } :=
      ⟨id, id, id, rfl, rfl, rfl⟩
    have hstart : Changes v C t t₃.2 :=
      (Relation.ReflTransGen.tail (.single (.quiet hquiet)) (.write hread hwrite)).tail
        (.quiet (quiet_asked t₂ hv.write plctagErrNotImplemented .write false))
  · exact hstart
  · exact hstart.tail (.quiet ⟨id, fun h => absurd h Bool.false_ne_true, id, rfl, rfl, rfl⟩)
  · exact (hstart.tail (.quiet (quiet_call _ hv.abort))).tail
      (.quiet ⟨id, fun h => absurd h Bool.false_ne_true, id, rfl, rfl, rfl⟩)

theorem quiet_plcTagStatusImpl : Quiet t (plcTagStatusImpl v t).2 :=
  (quiet_call t hv.tickler).trans (quiet_elim _ hv.status plctagErrNotImplemented)

omit hv in
theorem quiet_setData (put : φ → φ) : Quiet t (setData put t) :=
  ⟨id, id, fun h => by rw [setData, h]; rfl, rfl, rfl, rfl⟩

omit hv in
theorem setMs_keeps {I : BaseTag φ → Prop} {t set : BaseTag φ}
    (hset : I { set with status := plctagStatusOk }) (ht : I { t with status := plctagErrOutOfBounds })
    (value : ℤ) : I (setMs set value t) := by
  rw [setMs]
  split_ifs
  · exact hset
  · exact ht

end Lawful

/-- The clock shows times of `C`, and threads of the protocol keep to the same rules. -/
def OpStep.Allowed (C : ℤ → Prop) : OpStep φ → Prop
  | .tickle _ now' => C now'
  | .protocol f => Lawful f
  | _ => True

def OpStep.SetsPeriod : OpStep φ → Prop
  | .setAutoSyncReadMs _ => True
  | _ => False

/-- What the steps of `lib.c` amount to. -/
theorem changes_opStep {v : Vtable φ} (hv : v.Lawful) {C : ℤ → Prop} (t : BaseTag φ) {step : OpStep φ}
    (hallowed : step.Allowed C) (hperiod : ¬step.SetsPeriod) : Changes v C t (opStep v t step) := by
  cases step with
  | tickle now now' => exact changes_tickle hv t now hallowed
  | requestAbort => exact .single (.quiet ⟨id, id, id, rfl, rfl, rfl⟩)
  | abortLocked => exact .single (.quiet (quiet_abortLocked hv t))
  | readStart now => exact changes_plcTagReadStart hv t C now
  | readFinish rc =>
    exact .single (.quiet ⟨fun h => absurd h Bool.false_ne_true, id, id, rfl, rfl, rfl⟩)
  | readCached now => exact .single (.quiet ⟨id, id, id, rfl, rfl, rfl⟩)
  | writeStart => exact changes_plcTagWriteStart hv t C
  | writeFinish =>
    exact .single (.quiet ⟨id, fun h => absurd h Bool.false_ne_true, id, rfl, rfl, rfl⟩)
  | writeDone rc => exact .single (.quiet ⟨id, id, id, rfl, rfl, rfl⟩)
  | status => exact .single (.quiet (quiet_plcTagStatusImpl hv t))
  | handle => exact .single (.quiet (quiet_handle t))
  | setStatus rc => exact .single (.quiet ⟨id, id, id, rfl, rfl, rfl⟩)
  | setData put => exact .single (.quiet (quiet_setData t put))
  | setAutoSyncReadMs ms => exact absurd trivial hperiod
  | setAutoSyncWriteMs ms | setReadCacheMs ms =>
    refine .single (.quiet (setMs_keeps (I := Quiet t) ?_ ?_ ms))
    all_goals exact ⟨id, id, id, rfl, rfl, rfl⟩
  | protocol f => exact .single (.quiet (hallowed t))

theorem Changes.keeps {v : Vtable φ} {C : ℤ → Prop} {I : BaseTag φ → Prop}
    (hkeeps : ∀ t t', I t → Change v C t t' → I t') {t t' : BaseTag φ} (h : I t)
    (hchanges : Changes v C t t') : I t' := by
  induction hchanges with
  | refl => exact h
  | tail _ hchange ih => exact hkeeps _ _ ih hchange

/-- What every change keeps, and a new period as well, holds in the end. -/
theorem opRun_keeps {v : Vtable φ} (hv : v.Lawful) {C : ℤ → Prop} {I : BaseTag φ → Prop}
    (hkeeps : ∀ t t', I t → Change v C t t' → I t') {t : BaseTag φ} (h : I t)
    {steps : List (OpStep φ)} (hallowed : ∀ s ∈ steps, s.Allowed C)
    (hperiod : ∀ s ∈ steps, s.SetsPeriod → ∀ t, I t → I (opStep v t s)) : I (opRun v t steps) := by
  induction steps generalizing t with
  | nil => exact h
  | cons s steps ih =>
    refine ih ?_ (fun s' hs => hallowed s' (.tail s hs)) fun s' hs => hperiod s' (.tail s hs)
    by_cases hsets : s.SetsPeriod
    · exact hperiod s (.head steps) hsets t h
    · exact Changes.keeps hkeeps h (changes_opStep hv t (hallowed s (.head steps)) hsets)

end Changes

/-! ## A protocol that answers later -/

def pendingVtable : Vtable Unit :=
  let pending := some fun t => (plctagStatusPending, t)
  ⟨none, pending, none, none, pending⟩

def freshTag (autoSyncReadMs autoSyncWriteMs : ℤ) (dirty : Bool) : BaseTag Unit :=
  ⟨false, false, false, false, false, dirty, false, 0, autoSyncReadMs, autoSyncWriteMs, 0, 0, 0, 0, .zero false,
    (), []⟩

theorem pendingVtable_lawful : pendingVtable.Lawful := by
  constructor <;> intro f hf t <;> cases hf <;> exact .refl t

section Safety
variable {φ : Type}

/-! ## One operation at a time -/

/-- A read starts on clean data, and nothing else is in flight when an operation starts. -/
structure OpCall.Fit (c : OpCall) : Prop where
  read : c.op = .read → c.readInFlight = true ∧ c.writeInFlight = false ∧ c.tagIsDirty = false
  write : c.op = .write → c.writeInFlight = true ∧ c.readInFlight = false

structure OneAtATime (t : BaseTag φ) : Prop where
  one : t.readInFlight = true → t.writeInFlight = false
  calls : ∀ c ∈ t.calls, c.Fit

theorem calls_asked (t : BaseTag φ) (f : Option (VtableFunc φ)) (op : Operation) (auto : Bool) :
    (t.asked f op auto).calls = t.calls ++
      if f.isSome then [⟨op, auto, t.readInFlight, t.writeInFlight, t.tagIsDirty⟩] else [] := by
  rw [BaseTag.asked]
  split_ifs
  · rfl
  · exact (List.append_nil _).symm

@[simp] theorem tagIsDirty_asked (t : BaseTag φ) (f : Option (VtableFunc φ)) (op : Operation)
    (auto : Bool) : (t.asked f op auto).tagIsDirty = t.tagIsDirty := by
  rw [BaseTag.asked]
  split_ifs <;> rfl

theorem OneAtATime.quiet {t t' : BaseTag φ} (h : OneAtATime t) (hquiet : Quiet t t') :
    OneAtATime t' := by
  refine ⟨fun hread => ?_, fun c hc => h.calls c (hquiet.calls ▸ hc)⟩
  exact Bool.eq_false_iff.mpr fun hwrite =>
    absurd (hquiet.writeInFlight hwrite) (Bool.eq_false_iff.mp (h.one (hquiet.readInFlight hread)))

/-- The call is fit when it is made. -/
theorem OneAtATime.asked {t : BaseTag φ} (h : OneAtATime t) (f : Option (VtableFunc φ))
    {op : Operation} {auto : Bool}
    (hfit : OpCall.Fit ⟨op, auto, t.readInFlight, t.writeInFlight, t.tagIsDirty⟩) :
    OneAtATime (t.asked f op auto) := by
  refine ⟨?_, fun c hc => ?_⟩
  · rw [BaseTag.asked]
    split_ifs <;> exact h.one
  · rw [calls_asked, List.mem_append] at hc
    refine hc.elim (h.calls c) fun hnew => ?_
    split_ifs at hnew
    · exact List.mem_singleton.mp hnew ▸ hfit
    · exact absurd hnew List.not_mem_nil

theorem OneAtATime.startRead {t : BaseTag φ} (h : OneAtATime t) (f : Option (VtableFunc φ))
    (auto : Bool) (hwrite : t.writeInFlight = false) (hclean : t.tagIsDirty = false) :
    OneAtATime (BaseTag.asked { t with readInFlight := true } f .read auto) := by
  have hset : OneAtATime { t with readInFlight := true } := ⟨fun _ => hwrite, h.calls⟩
  exact hset.asked f ⟨fun _ => ⟨rfl, hwrite, hclean⟩, fun hop => Operation.noConfusion hop⟩

theorem OneAtATime.startWrite {t : BaseTag φ} (h : OneAtATime t) (f : Option (VtableFunc φ))
    (auto dirty : Bool) (hread : t.readInFlight = false) :
    OneAtATime (BaseTag.asked { t with tagIsDirty := dirty, writeInFlight := true } f .write auto) := by
  have hset : OneAtATime { t with tagIsDirty := dirty, writeInFlight := true } :=
    ⟨fun hr => absurd hr (Bool.eq_false_iff.mp hread), h.calls⟩
  exact hset.asked f ⟨fun hop => Operation.noConfusion hop, fun _ => ⟨rfl, hread⟩⟩

theorem OneAtATime.change {v : Vtable φ} {C : ℤ → Prop} {t t' : BaseTag φ} (h : OneAtATime t)
    (hchange : Change v C t t') : OneAtATime t' := by
  cases hchange with
  | quiet hquiet => exact h.quiet hquiet
  | read hread hwrite hclean => exact h.startRead v.read false hwrite hclean
  | write hread hwrite => exact h.startWrite v.write false t.tagIsDirty hread
  | autoWrite hread hwrite => exact h.startWrite v.write true false hread
  | autoRead hclock hperiod hlate hread hwrite hclean hquiet =>
    have hstarted := (h.startRead v.read true hwrite hclean).quiet hquiet
    exact ⟨hstarted.one, hstarted.calls⟩

def BaseTag.autoCalls (t : BaseTag φ) (op : Operation) : ℕ :=
  t.calls.countP fun c => decide (c.op = op) && c.auto

theorem autoCalls_asked (t : BaseTag φ) (f : Option (VtableFunc φ)) (op op' : Operation)
    (auto : Bool) : (t.asked f op auto).autoCalls op' =
      t.autoCalls op' + if f.isSome ∧ op = op' ∧ auto then 1 else 0 := by
  rw [BaseTag.autoCalls, calls_asked, List.countP_append, BaseTag.autoCalls]
  congr 1
  cases f.isSome <;> cases auto <;> by_cases h : op = op' <;> simp [h]

theorem Quiet.autoCalls {t t' : BaseTag φ} (h : Quiet t t') (op : Operation) :
    t'.autoCalls op = t.autoCalls op := by
  rw [BaseTag.autoCalls, h.calls, BaseTag.autoCalls]

/-- No step but an automatic write clears the dirty flag, and none takes a call back. -/
theorem Change.dirty {v : Vtable φ} {C : ℤ → Prop} (hwrite : v.write.isSome) {t t' : BaseTag φ}
    (hchange : Change v C t t') :
    t.autoCalls .write ≤ t'.autoCalls .write ∧ (t.tagIsDirty = true → t'.tagIsDirty = true ∨
      t.autoCalls .write < t'.autoCalls .write) := by
  cases hchange with
  | quiet hquiet => exact ⟨(hquiet.autoCalls .write).ge, fun h => .inl (hquiet.tagIsDirty h)⟩
  | read hread hwrite hclean =>
    refine ⟨?_, fun h => absurd h (Bool.eq_false_iff.mp hclean)⟩
    rw [autoCalls_asked]
    exact Nat.le_add_right _ _
  | write hread hwrite =>
    refine ⟨?_, fun h => .inl (by rw [tagIsDirty_asked]; exact h)⟩
    rw [autoCalls_asked]
    exact Nat.le_add_right _ _
  | autoWrite =>
    rw [autoCalls_asked, if_pos ⟨hwrite, rfl, rfl⟩]
    exact ⟨Nat.le_succ _, fun _ => .inr (Nat.lt_succ_self _)⟩
  | autoRead hclock hperiod hlate hread hwrite hclean hquiet =>
    refine ⟨?_, fun h => absurd h (Bool.eq_false_iff.mp hclean)⟩
    have hcalls := hquiet.autoCalls .write
    rw [autoCalls_asked] at hcalls
    exact (Nat.le_add_right _ _).trans hcalls.ge

/-- The next read is in the first period that is not over. -/
theorem periods_spec {now next period : ℤ} (hperiod : 0 < period) (hlate : next < now) :
    0 < periods now next period ∧ now ≤ next + periods now next period * period ∧
      next + periods now next period * period < now + period := by
  have hq : periods now next period = (now - next + (period - 1)) / period :=
    Int.tdiv_eq_ediv_of_nonneg (by omega)
  have hdiv := Int.mul_ediv_add_emod (now - next + (period - 1)) period
  have hmod := Int.emod_nonneg (now - next + (period - 1)) hperiod.ne'
  have hmod' := Int.emod_lt_of_pos (now - next + (period - 1)) hperiod
  have hpos : 1 ≤ (now - next + (period - 1)) / period :=
    (Int.le_ediv_iff_mul_le hperiod).mpr (by omega)
  rw [← hq, mul_comm] at hdiv
  exact ⟨hq ▸ hpos, by omega, by omega⟩

/-- The schedule since `next`, after `n` automatic reads: whole periods were skipped, no fewer than
there were reads, and the clock has not left the last one behind. -/
structure Scheduled (period next : ℤ) (n : ℕ) (C : ℤ → Prop) (t : BaseTag φ) (k : ℕ) : Prop where
  kept : t.autoSyncReadMs = period
  onGrid : t.autoSyncNextRead = next + k * period
  reads : t.autoCalls .read ≤ n + k
  near : k = 0 ∨ ∃ now, C now ∧ now ≤ t.autoSyncNextRead ∧ t.autoSyncNextRead < now + period

theorem Scheduled.quiet {period next : ℤ} {n : ℕ} {C : ℤ → Prop} {t t' : BaseTag φ} {k : ℕ}
    (h : Scheduled period next n C t k) (hquiet : Quiet t t') : Scheduled period next n C t' k :=
  ⟨hquiet.autoSyncReadMs.trans h.kept, hquiet.autoSyncNextRead.trans h.onGrid,
    (hquiet.autoCalls .read).le.trans h.reads, hquiet.autoSyncNextRead ▸ h.near⟩

theorem Scheduled.asked {period next : ℤ} {n : ℕ} {C : ℤ → Prop} {t : BaseTag φ} {k : ℕ}
    (h : Scheduled period next n C t k) (f : Option (VtableFunc φ)) {op : Operation} {auto : Bool}
    (hnot : op = .read → auto = false) : Scheduled period next n C (t.asked f op auto) k := by
  have hreads : (t.asked f op auto).autoCalls .read = t.autoCalls .read := by
    rw [autoCalls_asked, if_neg fun hall => absurd hall.2.2 (by rw [hnot hall.2.1]; simp), Nat.add_zero]
  have hsame : (t.asked f op auto).autoSyncReadMs = t.autoSyncReadMs ∧
      (t.asked f op auto).autoSyncNextRead = t.autoSyncNextRead := by
    rw [BaseTag.asked]
    split_ifs <;> exact ⟨rfl, rfl⟩
  exact ⟨hsame.1.trans h.kept, hsame.2.trans h.onGrid, hreads.le.trans h.reads, hsame.2 ▸ h.near⟩

theorem Scheduled.change {v : Vtable φ} {period next : ℤ} {n : ℕ} {C : ℤ → Prop} {t t' : BaseTag φ}
    {k : ℕ} (h : Scheduled period next n C t k) (hchange : Change v C t t') :
    ∃ k', Scheduled period next n C t' k' := by
  cases hchange with
  | quiet hquiet => exact ⟨k, h.quiet hquiet⟩
  | read hread hwrite hclean =>
    have hset : Scheduled period next n C { t with readInFlight := true } k :=
      ⟨h.kept, h.onGrid, h.reads, h.near⟩
    exact ⟨k, hset.asked v.read fun _ => rfl⟩
  | write hread hwrite =>
    have hset : Scheduled period next n C { t with writeInFlight := true } k :=
      ⟨h.kept, h.onGrid, h.reads, h.near⟩
    exact ⟨k, hset.asked v.write fun _ => rfl⟩
  | autoWrite hread hwrite =>
    have hset : Scheduled period next n C { t with tagIsDirty := false, writeInFlight := true } k :=
      ⟨h.kept, h.onGrid, h.reads, h.near⟩
    exact ⟨k, hset.asked v.write fun hop => Operation.noConfusion hop⟩
  | @autoRead now hclock hpos hlate hread hwrite hclean t₁ hquiet =>
    have hsame : t₁.autoSyncReadMs = period ∧ t₁.autoSyncNextRead = t.autoSyncNextRead ∧
        t₁.autoCalls .read ≤ n + k + 1 := by
      refine ⟨?_, ?_, ?_⟩
      · rw [hquiet.autoSyncReadMs, BaseTag.asked, ← h.kept]
        split_ifs <;> rfl
      · rw [hquiet.autoSyncNextRead, BaseTag.asked]
        split_ifs <;> rfl
      · rw [hquiet.autoCalls, autoCalls_asked]
        have hreads : BaseTag.autoCalls { t with readInFlight := true } .read ≤ n + k := h.reads
        split_ifs <;> omega
    obtain ⟨hperiod, hnext, hreads⟩ := hsame
    obtain ⟨hone, hle, hlt⟩ := periods_spec (h.kept ▸ hpos) hlate
    obtain ⟨m, hm⟩ := Int.eq_ofNat_of_zero_le hone.le
    have hscheduled : t₁.autoSyncNextRead +
        periods now t₁.autoSyncNextRead t₁.autoSyncReadMs * t₁.autoSyncReadMs =
          t.autoSyncNextRead + m * period := by rw [hnext, hperiod, hm]
    rw [hm] at hone hle hlt
    refine ⟨k + m, hperiod, ?_, ?_, .inr ⟨now, hclock, ?_, ?_⟩⟩
    · refine hscheduled.trans ?_
      rw [h.onGrid]
      push_cast
      ring
    · exact hreads.trans (by omega)
    · exact hle.trans hscheduled.ge
    · exact hscheduled.trans_lt hlt

/-- As long as nobody sets another period: the automatic reads are on the grid of the first one, at
most one in each period, and what the tickler waits for is never more than a period away from a time
that the clock showed. -/
theorem polling_keeps_phase {v : Vtable φ} (hv : v.Lawful) (t : BaseTag φ) {C : ℤ → Prop}
    {steps : List (OpStep φ)} (hsteps : ∀ s ∈ steps, s.Allowed C ∧ ¬s.SetsPeriod) :
    let t' := opRun v t steps
    ∃ k : ℕ, t'.autoSyncNextRead = t.autoSyncNextRead + k * t.autoSyncReadMs ∧
      t'.autoCalls .read ≤ t.autoCalls .read + k ∧
      (k = 0 ∨ ∃ now, C now ∧ now ≤ t'.autoSyncNextRead ∧
        t'.autoSyncNextRead < now + t.autoSyncReadMs) := by
  have hstart : Scheduled t.autoSyncReadMs t.autoSyncNextRead (t.autoCalls .read) C t 0 :=
    ⟨rfl, by simp, le_rfl, .inl rfl⟩
  let I := fun t' : BaseTag φ => ∃ k, Scheduled t.autoSyncReadMs t.autoSyncNextRead
    (t.autoCalls .read) C t' k
  have hend : I (opRun v t steps) :=
    opRun_keeps hv (fun _ _ h hchange => h.elim fun _ hk => hk.change hchange) ⟨0, hstart⟩
      (fun s hs => (hsteps s hs).1) fun s hs hsets => absurd hsets (hsteps s hs).2
  obtain ⟨k, hk⟩ := hend
  exact ⟨k, hk.onGrid, hk.reads, hk.near⟩

theorem polling_of_pending :
    let t' := opRun pendingVtable (freshTag 10 0 false) [.tickle 25 25, .readFinish 0, .tickle 41 41]
    ∃ k : ℕ, t'.autoSyncNextRead = 0 + k * 10 ∧ t'.autoCalls .read ≤ 0 + k ∧
      (k = 0 ∨ ∃ now, now ≤ 41 ∧ now ≤ t'.autoSyncNextRead ∧ t'.autoSyncNextRead < now + 10) :=
  polling_keeps_phase pendingVtable_lawful (freshTag 10 0 false) (C := (· ≤ 41))
    (by simp [OpStep.Allowed, OpStep.SetsPeriod])

/-! ## Abort requests -/

def BaseTag.KeepsRequest (t t' : BaseTag φ) : Prop :=
  t'.abortRequested = t.abortRequested ∧ t'.skipTickler = t.skipTickler

/-- The `abort`, `read` and `write` of every protocol leave the request to the ticklers, and
`skip_tickler` is set by the constructors only. -/
structure Vtable.LeavesRequest (v : Vtable φ) : Prop where
  abort : ∀ f ∈ v.abort, ∀ t, BaseTag.KeepsRequest t (f t).2
  read : ∀ f ∈ v.read, ∀ t, BaseTag.KeepsRequest t (f t).2
  write : ∀ f ∈ v.write, ∀ t, BaseTag.KeepsRequest t (f t).2

theorem pendingVtable_leavesRequest : pendingVtable.LeavesRequest := by
  constructor <;> intro f hf t <;> cases hf <;> exact ⟨rfl, rfl⟩

/-- Steps outside of the ticklers, the library's and those of the protocols. -/
def OpStep.NoTickler : OpStep φ → Prop
  | .tickle _ _ => False
  | .status => False
  | .protocol _ => False
  | _ => True

/-- An abort request waits for the tickler of the library. -/
def BaseTag.Requested (t : BaseTag φ) : Prop := t.abortRequested = true ∧ t.skipTickler = false

theorem BaseTag.Requested.kept {t t' : BaseTag φ} (h : t.Requested) (hkept : t.KeepsRequest t') :
    t'.Requested := ⟨hkept.1.trans h.1, hkept.2.trans h.2⟩

section Requests
variable {v : Vtable φ} (hv : v.LeavesRequest) (t : BaseTag φ)
include hv

omit hv in
theorem requested_elim {f : Option (VtableFunc φ)}
    (hf : ∀ g ∈ f, ∀ t, BaseTag.KeepsRequest t (g t).2) (rc : ℤ) {t t' : BaseTag φ}
    (h : t.Requested) (h' : t'.Requested) : (f.elim (rc, t) (· t')).2.Requested := by
  cases f with
  | none => exact h
  | some g => exact h'.kept (hf g rfl t')

theorem requested_abortLocked (h : t.Requested) : (abortLocked v t).2.Requested :=
  requested_elim (t := { t with readCacheExpire := 0 })
    (fun g hg => hv.abort g (Option.mem_filter_iff.mp hg).1) plctagErrNotImplemented h h

theorem requested_plcTagAbortImpl (h : t.skipTickler = false) : (plcTagAbortImpl v t).2.Requested :=
  requested_abortLocked hv (requestAbort t) ⟨rfl, h⟩

theorem requested_plcTagReadStart (now : ℤ) (h : t.Requested) :
    (plcTagReadStart v now t).2.Requested := by
  simp only [plcTagReadStart]
  set t₁ := (t.raise (.started .read) plctagStatusOk).handle
  set t₂ := { t₁ with readInFlight := true, status := plctagStatusPending }
  have hcall : (v.read.elim (plctagErrNotImplemented, t₂) (· (t₂.note .read false))).2.Requested :=
    requested_elim hv.read _ h h
  split_ifs
  · exact h
  · exact h
  · exact h
  · exact hcall
  · exact hcall
  · exact requested_plcTagAbortImpl hv _ hcall.2

theorem requested_plcTagWriteStart (h : t.Requested) : (plcTagWriteStart v t).2.Requested := by
  simp only [plcTagWriteStart]
  set t₁ := { t with writeInFlight := true, status := plctagStatusOk }
  set t₂ := (t₁.raise (.started .write) t₁.status).handle
  set t₃ := v.write.elim (plctagErrNotImplemented, t₂) (· (t₂.note .write false)) with ht₃
  have hcall : t₃.2.Requested := requested_elim hv.write _ h h
  split_ifs
  · exact h
  · exact hcall
  · exact hcall
  · cases habort : v.abort with
    | none => exact hcall
    | some f => exact hcall.kept (hv.abort f habort t₃.2)

theorem requested_opStep (h : t.Requested) {step : OpStep φ} (hstep : step.NoTickler) :
    (opStep v t step).Requested := by
  cases step with
  | requestAbort => exact ⟨rfl, h.2⟩
  | abortLocked => exact requested_abortLocked hv t h
  | readStart now => exact requested_plcTagReadStart hv t now h
  | writeStart => exact requested_plcTagWriteStart hv t h
  | tickle | status | protocol => exact absurd hstep id
  | setAutoSyncReadMs ms | setAutoSyncWriteMs ms | setReadCacheMs ms =>
    refine setMs_keeps (I := BaseTag.Requested) ?_ ?_ ms
    all_goals exact h
  | _ => exact h

end Requests

/-- On a tag that the tickler of the library sees to, the request outlives `plc_tag_abort`: what is
started afterwards, by any number of calls, is taken down in the next turn of the tickler, which starts
nothing itself. -/
theorem abort_hits_next_operation {v : Vtable φ} (hv : v.Lawful) (hleaves : v.LeavesRequest)
    {t : BaseTag φ} (hskip : t.skipTickler = false) {steps : List (OpStep φ)}
    (hsteps : ∀ s ∈ steps, s.NoTickler) (now now' : ℤ) :
    let t₁ := opRun v (plcTagAbortImpl v t).2 steps
    let t₂ := tickle v now now' t₁
    t₂.readInFlight = false ∧ t₂.writeInFlight = false ∧ t₂.calls = t₁.calls := by
  intro t₁
  have hkept : ∀ t : BaseTag φ, t.Requested → (opRun v t steps).Requested := by
    induction steps with
    | nil => exact fun _ h => h
    | cons s steps ih =>
      exact fun t h => ih (fun s' hs => hsteps s' (.tail s hs)) _
        (requested_opStep hleaves t h (hsteps s (.head steps)))
  have hrequested : t₁.Requested := hkept _ (requested_plcTagAbortImpl hleaves t hskip)
  have hticked : ¬t₁.skipTickler = true := Bool.eq_false_iff.mp hrequested.2
  have hquiet : Quiet (ticklerAbort v t₁) (tickle v now now' t₁) := by
    simp only [tickle, plcTagGenericTickler, if_neg hticked, if_pos hrequested.1]
    split_ifs
    · exact ((quiet_call _ hv.tickler).trans (quiet_completeRead _)).trans (quiet_completeWrite _)
    · exact .refl _
  exact ⟨Bool.eq_false_iff.mpr fun h => absurd (hquiet.readInFlight h) Bool.false_ne_true,
    Bool.eq_false_iff.mpr fun h => absurd (hquiet.writeInFlight h) Bool.false_ne_true,
    hquiet.calls.trans (quiet_ticklerAbort hv t₁).calls⟩

theorem abort_hits_pending_read :
    let t₁ := opRun pendingVtable (plcTagAbortImpl pendingVtable (freshTag 0 0 false)).2 [.readStart 7]
    let t₂ := tickle pendingVtable 8 8 t₁
    t₂.readInFlight = false ∧ t₂.writeInFlight = false ∧ t₂.calls = t₁.calls :=
  abort_hits_next_operation pendingVtable_lawful pendingVtable_leavesRequest
    (t := freshTag 0 0 false) rfl (by simp [OpStep.NoTickler]) 8 8

end Safety
end Plctagt.Tag
