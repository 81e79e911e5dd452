import Plctagt.Gui.Owned

/-! # Failures that [Read] and [Write] tell of

The helpers stop at the first status other than `PLCTAG_STATUS_OK`; [Read] and [Write] look for one
below 0. `plc_tag_read` and `plc_tag_write` can also return `PLCTAG_STATUS_PENDING`, which is above.
-/
namespace Plctagt.Gui
open Effects Decimal Tag
set_option autoImplicit false

/-! ## The status of a helper -/

/-- The status of a call, where the helpers compare it with `PLCTAG_STATUS_OK`. -/
def testedStatus : Event Call.Reply → Option ℤ
  | ⟨.read _ _, rc⟩ => some rc
  | ⟨.write _ _, rc⟩ => some rc
  | ⟨.setNum _ _ _ _, rc⟩ => some rc
  | ⟨.setBit _ _ _, rc⟩ => some rc
  | ⟨.setString _ _ _, rc⟩ => rc
  | ⟨.getString _ _ _, got⟩ => got.map Prod.fst
  | _ => none

/-- One of the library's statuses is above 0: an operation is still pending. -/
def Unfinished (tr : Trace) : Prop := ∃ ev ∈ tr, ∃ rc, testedStatus ev = some rc ∧ 0 < rc

theorem unfinished_cons {ev : Event Call.Reply} {tr : Trace} :
    Unfinished (ev :: tr) ↔ (∃ rc, testedStatus ev = some rc ∧ 0 < rc) ∨ Unfinished tr := by
  simp [Unfinished]

theorem unfinished_append {tr tr' : Trace} :
    Unfinished (tr ++ tr') ↔ Unfinished tr ∨ Unfinished tr' := by
  simp only [Unfinished, List.mem_append, or_and_right, exists_or]

/-- A helper shows nothing itself, and its status is above 0 when a status of the library was. -/
structure Settled (tr : Trace) (rc : ℤ) : Prop where
  silent : ∀ ev ∈ tr, ¬ IsPopup ev.1
  pos_iff : 0 < rc ↔ Unfinished tr

section Settled
variable {tr tr' : Trace} {rc : ℤ} {ev : Event Call.Reply}

theorem settled_nil (h : rc ≤ 0) : Settled [] rc :=
  ⟨fun _ h => (nomatch h), iff_of_false (not_lt.mpr h) fun ⟨_, h, _⟩ => nomatch h⟩

theorem Settled.cons (h : Settled tr rc) (hs : ¬ IsPopup ev.1)
    (hev : ∀ rc, testedStatus ev = some rc → rc ≤ 0) : Settled (ev :: tr) rc := by
  refine ⟨List.forall_mem_cons.mpr ⟨hs, h.silent⟩, ?_⟩
  rw [unfinished_cons, h.pos_iff]
  refine (or_iff_right ?_).symm
  rintro ⟨rc, hrc, hpos⟩
  exact absurd (hev rc hrc) (not_le.mpr hpos)

theorem settled_singleton (hs : ¬ IsPopup ev.1) (hev : testedStatus ev = some rc) :
    Settled [ev] rc := by
  refine ⟨fun x h => List.mem_singleton.mp h ▸ hs, ?_⟩
  simp [Unfinished, hev]

theorem Settled.append (h : Settled tr 0) (h' : Settled tr' rc) : Settled (tr ++ tr') rc := by
  refine ⟨List.forall_mem_append.mpr ⟨h.silent, h'.silent⟩, ?_⟩
  rw [h'.pos_iff, unfinished_append, or_iff_right]
  exact fun hun => absurd (h.pos_iff.mpr hun) (lt_irrefl 0)

theorem Settled.untested (h : Settled tr rc) (h' : Settled tr' 0) : Settled (tr ++ tr') rc := by
  refine ⟨List.forall_mem_append.mpr ⟨h.silent, h'.silent⟩, ?_⟩
  rw [h.pos_iff, unfinished_append, or_iff_left]
  exact fun hun => absurd (h'.pos_iff.mpr hun) (lt_irrefl 0)

end Settled

/-- Every run of `p` that ends well is settled at the status `status` picks out. -/
def Settles {α : Type} (p : Program α) (status : α → ℤ) : Prop :=
  Meets p fun tr o => ∀ a, o = .ok a → Settled tr (status a)

/-- A call that shows nothing and whose result is not tested. -/
def Untested (c : Call) : Prop := ¬ IsPopup c ∧ ∀ r, testedStatus ⟨c, r⟩ = none

theorem settled_of_untested {tr : Trace} (h : ∀ ev ∈ tr, Untested ev.1) : Settled tr 0 := by
  induction tr with
  | nil => exact settled_nil (le_refl 0)
  | cons ev tr ih =>
    have hev := h ev List.mem_cons_self
    refine (ih fun x hx => h x (List.mem_cons_of_mem _ hx)).cons hev.1 fun rc hrc => ?_
    rw [show testedStatus ev = none from hev.2 ev.2] at hrc
    cases hrc

section Settles
variable {α β : Type} {status : α → ℤ}

theorem settles_pure {a : α} (h : status a ≤ 0) : Settles (pure a) status :=
  meets_pure fun _ ha => by cases ha; exact settled_nil h

theorem settles_stop {e : Fault} : Settles (.stop e : Program α) status :=
  meets_stop fun _ h => nomatch h

theorem settles_call {c : Call} {k : c.Reply → Program α} (hc : Untested c)
    (hk : ∀ r, Settles (k r) status) : Settles (.call c k) status := by
  refine meets_call fun r => (hk r).weaken fun tr o h a ha => (h a ha).cons hc.1 fun rc hrc => ?_
  rw [hc.2 r] at hrc
  cases hrc

/-- The helpers go on only from `PLCTAG_STATUS_OK`, and return any other status as it is. -/
theorem settles_guard {p : Program β} (first : β → ℤ) {fail next : β → Program α}
    (hp : Settles p first) (hok : ∀ b, first b = plctagStatusOk → Settles (next b) status)
    (hfail : ∀ b, Meets (fail b) fun tr o => ∀ a, o = .ok a → Settled tr 0 ∧ status a = first b) :
    Settles (p >>= fun b => if first b ≠ plctagStatusOk then fail b else next b) status := by
  refine meets_bind hp (fun tr₁ b h₁ => ?_) fun _ _ _ _ h => nomatch h
  have hb := h₁ b rfl
  by_cases h0 : first b = plctagStatusOk
  · rw [if_neg (not_not.mpr h0)]
    rw [h0] at hb
    exact (hok b h0).weaken fun tr o h a ha => hb.append (h a ha)
  · rw [if_pos h0]
    refine (hfail b).weaken fun tr o h a ha => ?_
    obtain ⟨htr, hstatus⟩ := h a ha
    exact hstatus ▸ hb.untested htr

/-- A status that is returned at once. -/
theorem returned_pure {a : α} {rc : ℤ} (h : status a = rc) :
    Meets (pure a : Program α) fun tr o => ∀ a, o = .ok a → Settled tr 0 ∧ status a = rc :=
  meets_pure fun a ha => by cases ha; exact ⟨settled_nil (le_refl 0), h⟩

theorem settles_perform {c : Call} {f : c.Reply → ℤ} (hs : ¬ IsPopup c)
    (hc : ∀ r, testedStatus ⟨c, r⟩ = some (f r)) : Settles (perform c) f :=
  meets_call fun r => meets_pure fun a ha => by cases ha; exact settled_singleton hs (hc r)

theorem settles_ask {c : Call} {f : c.Reply → Option α} (hs : ¬ IsPopup c)
    (hc : ∀ r, testedStatus ⟨c, r⟩ = (f r).map status) :
    Settles (perform c >>= fun r => (replied (f r) : Program α)) status := by
  refine meets_call fun r => ?_
  change Meets (replied (f r)) _
  cases hr : f r with
  | none => exact meets_stop fun _ h => nomatch h
  | some a =>
    refine meets_pure fun a' ha' => ?_
    cases ha'
    exact settled_singleton hs (by rw [hc r, hr]; rfl)

/-- A first part whose results are not tested. -/
theorem settles_plain {p : Program β} {f : β → Program α} (hp : Calls p Untested)
    (hf : ∀ b, Settles (f b) status) : Settles (p >>= f) status := by
  refine meets_bind hp (fun tr₁ b h₁ => ?_) fun _ _ _ _ h => nomatch h
  exact (hf b).weaken fun tr o h a ha => (settled_of_untested h₁).append (h a ha)

end Settles

/-! ## The helpers -/

section Helpers
variable (es : Text) (tag timeOutMs : ℤ)

theorem untested_getIntAttribute (name : Attribute) (d : ℤ) :
    Untested (.getIntAttribute tag name d) :=
  ⟨fun ⟨_, h⟩ => (nomatch h), fun _ => rfl⟩

theorem untested_tagGetSizes : Calls (tagGetSizes es tag) Untested := by
  refine (calls_perform (untested_getIntAttribute tag _ _)).bind fun elemSize => ?_
  split
  · exact calls_pure _
  · refine (calls_perform (untested_getIntAttribute tag _ _)).bind fun elemCount => ?_
    split <;> exact calls_pure _

theorem settles_tagGetSizes : Settles (tagGetSizes es tag) Prod.fst := by
  refine settles_call (untested_getIntAttribute tag _ _) fun elemSize => ?_
  show Settles (if elemSize = 0 then _ else _) _
  split
  · exact settles_pure (by decide)
  · refine settles_call (untested_getIntAttribute tag _ _) fun elemCount => ?_
    show Settles (if elemCount = 0 then _ else _) _
    split
    · exact settles_pure (by decide)
    · exact settles_pure (le_refl 0)

theorem untested_readElem (t : ElemType) (offset : ℤ) : Calls (readElem t tag offset) Untested := by
  cases t with
  | num t => exact calls_perform ⟨fun ⟨_, h⟩ => (nomatch h), fun _ => rfl⟩
  | bool =>
    refine (calls_perform ⟨fun ⟨_, h⟩ => (nomatch h), fun _ => rfl⟩).bind fun _ => calls_pure _

theorem untested_readElems (t : ElemType) (elemSize : ℤ) (n i : ℕ) (values : List t.Val) :
    Calls (readElems t tag elemSize n i values) Untested := by
  induction n generalizing i values with
  | zero => exact calls_pure _
  | succ n ih => exact (untested_readElem tag t _).bind fun _ => ih _ _

theorem settles_readNumericTag (t : ElemType) (values : List t.Val) :
    Settles (readNumericTag t es tag values timeOutMs) Prod.fst := by
  refine settles_guard (fun rc => rc) (settles_perform (fun ⟨_, h⟩ => nomatch h) fun _ => rfl)
    (fun rc _ => ?_) fun rc => returned_pure rfl
  refine settles_guard Prod.fst (settles_tagGetSizes es tag) (fun sizes _ => ?_)
    fun sizes => returned_pure rfl
  exact settles_plain (untested_readElems tag t _ _ _ _) fun _ => settles_pure (le_refl 0)

theorem settles_writeElem (t : ElemType) (offset : ℤ) (val : t.Val) :
    Settles (writeElem t tag offset val) fun rc => rc := by
  cases t with
  | num t => exact settles_perform (fun ⟨_, h⟩ => nomatch h) fun _ => rfl
  | bool => exact settles_perform (fun ⟨_, h⟩ => nomatch h) fun _ => rfl

theorem settles_writeElems (t : ElemType) (elemSize : ℤ) (values : List t.Val) (n i : ℕ) :
    Settles (writeElems t tag elemSize values n i) fun rc => rc := by
  induction n generalizing i with
  | zero => exact settles_pure (le_refl 0)
  | succ n ih =>
    rw [writeElems]
    split
    · exact settles_stop
    · exact settles_guard (fun rc => rc) (settles_writeElem tag t _ _) (fun _ _ => ih (i + 1))
        fun rc => returned_pure rfl

/-- `plc_tag_write`, whose status is the result. -/
theorem settles_write {f g : ℤ → ℤ × Text} (hf : ∀ rc, (f rc).1 = rc)
    (hg : ∀ rc, rc = plctagStatusOk → (g rc).1 = rc) :
    Settles (perform (.write tag timeOutMs) >>= fun rc : ℤ =>
      if rc ≠ plctagStatusOk then pure (f rc) else pure (g rc) : Program (ℤ × Text)) Prod.fst := by
  exact settles_guard (fun rc : ℤ => rc)
    (settles_perform (fun ⟨_, h⟩ => nomatch h) fun _ => rfl)
    (fun rc hrc => settles_pure ((hg rc hrc).trans hrc).le) fun rc => returned_pure (hf rc)

theorem settles_writeNumericTag (t : ElemType) (values : List t.Val) :
    Settles (writeNumericTag t es tag values timeOutMs) Prod.fst := by
  refine settles_guard Prod.fst (settles_tagGetSizes es tag) (fun sizes _ => ?_)
    fun sizes => returned_pure rfl
  refine settles_guard (fun rc => rc) (settles_writeElems tag t _ values _ _) (fun rc _ => ?_)
    fun rc => returned_pure rfl
  exact settles_write tag timeOutMs (fun _ => rfl) fun _ h => h.symm

theorem settles_writeStrings (values : List Text) (n i : ℕ) :
    Settles (writeStrings es tag values n i) Prod.fst := by
  induction n generalizing i with
  | zero => exact settles_pure (le_refl 0)
  | succ n ih =>
    refine settles_call ⟨fun ⟨_, h⟩ => (nomatch h), fun _ => rfl⟩ fun total => ?_
    cases total with
    | none => exact settles_stop
    | some total =>
      cases values[i]? with
      | none => exact settles_stop
      | some value =>
        show Settles ((perform (.setString tag _ _) >>= replied) >>= _) _
        refine settles_guard (fun rc => rc) (settles_ask (fun ⟨_, h⟩ => nomatch h) fun rc => ?_)
          (fun _ _ => ih (i + 1)) fun rc => returned_pure rfl
        cases rc <;> rfl

theorem settles_writeStringTag (values : List Text) :
    Settles (writeStringTag es tag values timeOutMs) Prod.fst := by
  refine settles_plain (untested_tagGetSizes es tag) fun sizes => ?_
  refine settles_guard Prod.fst (settles_writeStrings _ tag values _ _) (fun res _ => ?_)
    fun res => returned_pure rfl
  exact settles_write tag timeOutMs (fun _ => rfl) fun _ _ => rfl

theorem settles_readStrings (turns : ℕ) (strNum offset : ℤ) (values : List Text) :
    Settles (readStrings es tag turns strNum offset values) Prod.fst := by
  induction turns generalizing strNum offset values with
  | zero => exact settles_stop
  | succ turns ih =>
    refine settles_call ⟨fun ⟨_, h⟩ => (nomatch h), fun _ => rfl⟩ fun size => ?_
    show Settles (if offset < size then _ else _) _
    split
    · refine settles_call ⟨fun ⟨_, h⟩ => (nomatch h), fun _ => rfl⟩ fun length => ?_
      cases length with
      | none => exact settles_stop
      | some length =>
        show Settles (if intMax < length + 1 then _ else _) _
        split
        · exact settles_stop
        refine settles_call ⟨fun ⟨_, h⟩ => (nomatch h), fun _ => rfl⟩ fun got => ?_
        cases got with
        | false =>
          refine settles_call ⟨fun ⟨_, h⟩ => (nomatch h), fun _ => rfl⟩ fun _ => ?_
          exact settles_pure (show plctagErrNoMem ≤ 0 by decide)
        | true =>
          show Settles ((perform (.getString tag offset (length + 1)) >>= replied) >>= _) _
          refine settles_guard Prod.fst (settles_ask (fun ⟨_, h⟩ => nomatch h) fun _ => rfl)
            (fun str _ => ?_) fun str => ?_
          · split
            · refine settles_call ⟨fun ⟨_, h⟩ => (nomatch h), fun _ => rfl⟩ fun total => ?_
              cases total with
              | none => exact settles_stop
              | some total => exact ih _ _ _
            · exact settles_stop
          · refine meets_call fun r => meets_pure fun a ha => ?_
            cases ha
            exact ⟨settled_of_untested (by simp [Untested, IsPopup, testedStatus]), rfl⟩
    · exact settles_pure (le_refl 0)

theorem settles_readStringTag (turns : ℕ) (values : List Text) :
    Settles (readStringTag turns es tag values timeOutMs) Prod.fst := by
  refine settles_guard (fun rc => rc) (settles_perform (fun ⟨_, h⟩ => nomatch h) fun _ => rfl)
    (fun rc _ => ?_) fun rc => returned_pure rfl
  exact settles_guard Prod.fst (settles_tagGetSizes es tag)
    (fun sizes _ => settles_readStrings _ tag turns _ _ _) fun sizes => returned_pure rfl

end Helpers

/-! ## The buttons -/

namespace NCursesUI
variable (con : Console) (ui : NCursesUI) (f : Field) (tag : ℤ)

/-- A run of the helper that [Read] or [Write] calls for a kind of tag, with its status and error
text. -/
def HelperRun (kind : TagKind) (tr : Trace) (rc : ℤ) (es : Text) : Prop :=
  match kind with
  | .elem t =>
    if f.label = text "[Read]" then
      ∃ values, Runs (readNumericTag t [] tag [] dataTimeout) tr (.ok (rc, es, values))
    else
      Runs (writeNumericTag t [] tag (toNumericVector con.float t ui.getSection3Values) dataTimeout)
        tr (.ok (rc, es))
  | .string =>
    if f.label = text "[Read]" then
      ∃ values, Runs (readStringTag con.turns [] tag [] dataTimeout) tr (.ok (rc, es, values))
    else Runs (writeStringTag [] tag ui.getSection3Values dataTimeout) tr (.ok (rc, es))

/-- The error text is shown, and [Read] leaves the Count field and Section 3 as they were. -/
structure Tells (es : Text) (tr : Trace) (o : Except Fault NCursesUI) : Prop where
  shown : ⟨.popupMessage es, ()⟩ ∈ tr
  kept : f.label = text "[Read]" → ∃ ui', o = .ok ui' ∧ ui'.sec2 2 = ui.sec2 2 ∧ ui'.sec3 = ui.sec3

variable {con ui f tag} {kind : TagKind} {tr : Trace} {rc : ℤ} {es : Text}

theorem HelperRun.settled (h : HelperRun con ui f tag kind tr rc es) : Settled tr rc := by
  cases kind with
  | elem t =>
    simp only [HelperRun] at h
    split at h
    · obtain ⟨values, h⟩ := h
      exact settles_readNumericTag [] tag dataTimeout t [] tr _ h _ rfl
    · exact settles_writeNumericTag [] tag dataTimeout t _ tr _ h _ rfl
  | string =>
    simp only [HelperRun] at h
    split at h
    · obtain ⟨values, h⟩ := h
      exact settles_readStringTag [] tag dataTimeout con.turns [] tr _ h _ rfl
    · exact settles_writeStringTag [] tag dataTimeout _ tr _ h _ rfl

/-- After the helper there is at most a popup, which depends on the sign of the status. -/
theorem HelperRun.useTag {β : Type} (h : HelperRun con ui f tag kind tr rc es)
    (hkind : tagKind ui.getType = some kind) (k : NCursesUI → Program β) :
    ∃ ui₁, ∀ tr' o, Runs (ui.useTag con f tag >>= k) (tr ++ tr') o ↔
      Runs (if rc < 0 then popupMessage es >>= fun _ => k ui else k ui₁) tr' o := by
  cases kind with
  | elem t =>
    simp only [HelperRun] at h
    split at h
    · next hread =>
      obtain ⟨values, h⟩ := h
      refine ⟨ui.updateSection3FromVector con (values.map (toString con.float t)),
        fun tr' o => ?_⟩
      rw [NCursesUI.useTag, if_pos hread, readTag, hkind]
      simp only [readTagAndUpdateSection3, bind_assoc]
      rw [h.bind_iff]
      split <;> simp
    · next hread =>
      refine ⟨ui, fun tr' o => ?_⟩
      rw [NCursesUI.useTag, if_neg hread, writeTag, hkind]
      simp only [writeTagFromSection3, bind_assoc]
      rw [h.bind_iff]
      split <;> simp
  | string =>
    simp only [HelperRun] at h
    split at h
    · next hread =>
      obtain ⟨values, h⟩ := h
      refine ⟨ui.updateSection3FromVector con values, fun tr' o => ?_⟩
      rw [NCursesUI.useTag, if_pos hread, readTag, hkind]
      simp only [readStringsAndUpdateSection3, bind_assoc]
      rw [h.bind_iff]
      split <;> simp
    · next hread =>
      refine ⟨ui, fun tr' o => ?_⟩
      rw [NCursesUI.useTag, if_neg hread, writeTag, hkind]
      simp only [writeStringsFromSection3, bind_assoc]
      rw [h.bind_iff]
      split <;> simp

/-- For every type, every state of the screen and every run in which the helper of [Read] or [Write]
fails: the failure is told if and only if no status of the library was above 0. -/
theorem handleEnterKey_tells_iff (con : Console) (ui : NCursesUI) (f : Field)
    (heditable : f.editable = false)
    (hlabel : f.label = text "[Read]" ∨ f.label = text "[Write]") {kind : TagKind}
    (hkind : tagKind ui.getType = some kind) {tag rc : ℤ} {es es₀ : Text} {tr₀ tr₁ tr₂ : Trace}
    {o : Except Fault NCursesUI}
    (hcreate : Runs (createTag [] (buildTagstring ui.getGateway ui.getTagname ui.getCount
      ui.getPath ui.getCpu ui.getProtocol) dataTimeout) tr₀ (.ok (tag, es₀))) (htag : 0 ≤ tag)
    (hhelper : HelperRun con ui f tag kind tr₁ rc es) (hrc : rc ≠ plctagStatusOk)
    (h : Runs (ui.handleEnterKey con f) (tr₀ ++ (tr₁ ++ tr₂)) o) :
    ui.Tells f es tr₂ o ↔ ¬ Unfinished tr₁ := by
  rw [← hhelper.settled.pos_iff, not_lt]
  rw [handleEnterKey, if_pos ⟨heditable, hlabel⟩, hcreate.bind_iff] at h
  change Runs (if tag < 0 then _ else _) _ _ at h
  rw [if_neg (not_lt.mpr htag)] at h
  obtain ⟨ui₁, huse⟩ := hhelper.useTag hkind fun ui' => do
    let _ ← perform (.destroy tag)
    pure ui'
  rw [huse] at h
  by_cases hneg : rc < 0
  · rw [if_pos hneg] at h
    obtain ⟨_, tr₃, rfl, _, tr₄, rfl, -, rfl⟩ := h
    exact iff_of_true ⟨List.mem_cons_self, fun _ => ⟨ui, rfl, rfl, rfl⟩⟩ hneg.le
  · rw [if_neg hneg] at h
    obtain ⟨r, tr₃, rfl, rfl, rfl⟩ := h
    refine iff_of_false (fun htells => ?_) fun hle => hneg (lt_of_le_of_ne hle hrc)
    simpa using htells.shown

/-- A new session with the type `INT16`. -/
def opened : NCursesUI :=
  (initial [text "Type:=INT16"]).updateSection3FromCount Console.plain

def readButton : Field := ⟨(sec2Table 3).toForm, opened.sec2 3⟩

/-- The calls that create tag 7 for [Read] in a new session. -/
def openedTag : Trace :=
  [⟨.checkLibVersion, plctagStatusOk⟩,
    ⟨.create (cstr (buildTagstring opened.getGateway opened.getTagname opened.getCount
      opened.getPath opened.getCpu opened.getProtocol)) dataTimeout, (7 : ℤ)⟩]

/-- The text for a status that `plc_tag_read` returned. -/
def readError (rc : ℤ) : Text := codeError "ERROR: Unable to read the data! Got error code" rc

theorem helperRun_opened {rc : ℤ} (h : rc ≠ plctagStatusOk) :
    opened.HelperRun Console.plain readButton 7 (.elem (.num .int16)) [⟨.read 7 dataTimeout, rc⟩] rc
      (readError rc) := by
  refine ⟨[], rc, [], rfl, ?_⟩
  show Runs (if rc ≠ plctagStatusOk then _ else _) _ _
  rw [if_pos h]
  exact ⟨rfl, rfl⟩

/-- A read that timed out: the status is -32. -/
theorem handleEnterKey_tells_timeout :
    opened.Tells readButton (readError (-32))
      [⟨.popupMessage (readError (-32)), ()⟩, ⟨.destroy 7, plctagStatusOk⟩] (.ok opened) := by
  refine (@handleEnterKey_tells_iff Console.plain opened readButton rfl (.inl rfl)
    (.elem (.num .int16)) (by decide) 7 (-32) (readError (-32)) [] openedTag
    [⟨.read 7 dataTimeout, (-32 : ℤ)⟩] _ _ ⟨_, _, rfl, _, _, rfl, rfl, rfl⟩
    (by decide) (helperRun_opened (by decide)) (by decide) ?_).mpr ?_
  · obtain ⟨ui₁, huse⟩ := (@helperRun_opened (-32) (by decide)).useTag (by decide)
      fun ui' => perform (Call.destroy 7) >>= fun _ => pure ui'
    refine ⟨_, _, rfl, _, _, rfl, (huse _ _).mpr ?_⟩
    rw [if_pos (by decide)]
    exact ⟨_, _, rfl, _, _, rfl, rfl, rfl⟩
  · simp [Unfinished, testedStatus]

/-- A read that is found pending by its last wake-up, with its time over: Section 3 is emptied, the
Count field shows 0, and nothing is said. -/
theorem handleEnterKey_pending :
    opened.HelperRun Console.plain readButton 7 (.elem (.num .int16))
      [⟨.read 7 dataTimeout, plctagStatusPending⟩] plctagStatusPending
      (readError plctagStatusPending) ∧
    ∃ ui', Runs (opened.handleEnterKey Console.plain readButton)
        (openedTag ++ ([⟨.read 7 dataTimeout, plctagStatusPending⟩] ++
          [⟨.destroy 7, plctagStatusOk⟩])) (.ok ui') ∧
      (ui'.sec2 2).value = text "0" ∧ (opened.sec2 2).value = text "1" ∧
      ui'.getSection3Values = [] ∧ opened.getSection3Values = [text "0"] ∧
      ¬ opened.Tells readButton (readError plctagStatusPending)
        [⟨.destroy 7, plctagStatusOk⟩] (.ok ui') := by
  refine ⟨helperRun_opened (by decide), opened.updateSection3FromVector Console.plain [], ?_,
    by decide, by decide, by decide, by decide +kernel, fun h => ?_⟩
  · exact ⟨_, _, rfl, _, _, rfl, _, _, rfl, _, _, rfl, rfl, rfl⟩
  · simpa using h.shown

end NCursesUI

end Plctagt.Gui
