import Plctagt.Tag.StringTag

/-! # Which calls the tag functions make, and how they end

For every outcome of every call: the calls work on the handle a function is given, none of them
creates a tag, and only the failures inside the loop of `readStringTag` destroy it.
-/
namespace Plctagt.Tag
open Effects Decimal
set_option autoImplicit false

/-- A call on this handle or on none, which neither creates nor destroys. -/
def Call.Works (tag : ℤ) : Call → Prop
  | .create _ _ => False
  | .destroy _ => False
  | c => c.handle = none ∨ c.handle = some tag

/-- Nor is it one of the two calls whose failure `readStringTag` answers by destroying the tag. -/
def Call.Plain (tag : ℤ) : Call → Prop
  | .malloc _ => False
  | .getString _ _ _ => False
  | c => c.Works tag

/-- `malloc` or `plc_tag_get_string` failing, after which `readStringTag` destroys the tag. -/
def stringFailed : Event Call.Reply → Bool
  | ⟨.malloc _, got⟩ => !got
  | ⟨.getString _ _ _, some (rc, _)⟩ => rc ≠ plctagStatusOk
  | _ => false

theorem Call.Plain.works {tag : ℤ} {c : Call} (h : c.Plain tag) : c.Works tag := by
  cases c <;> first | exact h | exact h.elim

theorem Call.Plain.not_failed {tag : ℤ} {c : Call} (h : c.Plain tag) (r : c.Reply) :
    stringFailed ⟨c, r⟩ = false := by
  cases c <;> first | rfl | exact h.elim

/-- The handle of a tag that was created. -/
def createdHandle : Event Call.Reply → Option ℤ
  | ⟨.create _ _, tag⟩ => if 0 ≤ tag then some tag else none
  | _ => none

theorem createdHandle_create (s : Text) (timeOutMs tag : ℤ) :
    createdHandle ⟨.create s timeOutMs, tag⟩ = if 0 ≤ tag then some tag else none := rfl

theorem createdHandle_eq_none {ev : Event Call.Reply} (h : ∀ s t, ev.1 ≠ .create s t) :
    createdHandle ev = none := by
  unfold createdHandle
  split
  · exact absurd rfl (h _ _)
  · rfl

/-- The handles of the tags created, in order. -/
def created (tr : Trace) : List ℤ := tr.filterMap createdHandle

theorem created_eq_nil {tr : Trace} (h : ∀ ev ∈ tr, ∀ s t, ev.1 ≠ .create s t) :
    created tr = [] :=
  List.filterMap_eq_nil_iff.mpr fun ev hev => createdHandle_eq_none (h ev hev)

theorem created_append (tr tr' : Trace) : created (tr ++ tr') = created tr ++ created tr' :=
  List.filterMap_append

/-- A write of a vector of this length leaves the vector only when the library's element count is
larger. -/
def WriteFaults {α : Type} (tag : ℤ) (length : ℕ) (tr : Trace) (o : Except Fault α) : Prop :=
  ∀ e, o = .error e → e = .undefined ∨ e = .vectorIndex ∧ ∃ elemCount : ℤ, length < elemCount ∧
    ⟨.getIntAttribute tag .elemCount 0, elemCount⟩ ∈ tr

/-- A run of a reader of strings: its calls work on the tag, or the last but one fails and the last
destroys the tag. -/
structure ReaderRun {α : Type} (tag : ℤ) (tr : Trace) (o : Except Fault α) : Prop where
  faults : ∀ e, o = .error e → e = .fuel ∨ e = .undefined
  calls : (∀ ev ∈ tr, ev.1.Works tag ∧ stringFailed ev = false) ∨
    ∃ pre ev r res, tr = pre ++ [ev, ⟨.destroy tag, r⟩] ∧
      (∀ x ∈ pre, x.1.Works tag ∧ stringFailed x = false) ∧
      ev.1.Works tag ∧ stringFailed ev = true ∧ o = .ok res

theorem ReaderRun.cons {α : Type} {tag : ℤ} {tr : Trace} {o : Except Fault α}
    {ev : Event Call.Reply} (h : ReaderRun tag tr o) (hw : ev.1.Works tag)
    (hok : stringFailed ev = false) : ReaderRun tag (ev :: tr) o := by
  have hcons : ∀ l : Trace, (∀ x ∈ l, x.1.Works tag ∧ stringFailed x = false) →
      ∀ x ∈ ev :: l, x.1.Works tag ∧ stringFailed x = false := by
    intro l hl x hx
    rcases List.mem_cons.mp hx with rfl | hx
    · exact ⟨hw, hok⟩
    · exact hl x hx
  refine ⟨h.faults, ?_⟩
  rcases h.calls with h | ⟨pre, ev', r, res, rfl, hpre, hev⟩
  · exact .inl (hcons tr h)
  · exact .inr ⟨ev :: pre, ev', r, res, rfl, hcons pre hpre, hev⟩

section Reader
variable {α : Type} {tag : ℤ}

theorem reader_pure (a : α) : Meets (pure a : Program α) (ReaderRun tag) :=
  meets_pure ⟨fun _ h => (nomatch h), .inl fun _ h => nomatch h⟩

theorem reader_stop {e : Fault} (h : e = .fuel ∨ e = .undefined) :
    Meets (.stop e : Program α) (ReaderRun tag) :=
  meets_stop ⟨fun e' he => by cases he; exact h, .inl fun _ h => nomatch h⟩

theorem reader_call {c : Call} {k : c.Reply → Program α} (hw : c.Works tag)
    (hk : ∀ r, stringFailed ⟨c, r⟩ = false → Meets (k r) (ReaderRun tag))
    (hfail : ∀ r, stringFailed ⟨c, r⟩ = true →
      ∃ res, k r = perform (.destroy tag) >>= fun _ => pure res) :
    Meets (.call c k) (ReaderRun tag) := by
  apply meets_call
  intro r
  cases hr : stringFailed ⟨c, r⟩ with
  | false => exact (hk r hr).weaken fun tr o h => h.cons hw hr
  | true =>
    obtain ⟨res, hres⟩ := hfail r hr
    rw [hres]
    refine meets_call fun r' => meets_pure ⟨fun _ h => (nomatch h), .inr ?_⟩
    exact ⟨[], ⟨c, r⟩, r', res, rfl, fun _ h => (nomatch h), hw, hr, rfl⟩

theorem reader_plain {β : Type} {p : Program β} {f : β → Program α} (hc : Calls p (Call.Plain tag))
    (hy : Yields p (fun _ => True) (fun _ => False)) (hf : ∀ b, Meets (f b) (ReaderRun tag)) :
    Meets (p >>= f) (ReaderRun tag) := by
  intro tr o h
  rcases (runs_bind p f tr o).mp h with ⟨tr₁, tr₂, b, rfl, h₁, h₂⟩ | ⟨e, rfl, h₁⟩
  · have hrun := hf b tr₂ o h₂
    have hplain := hc tr₁ _ h₁
    clear h h₁ h₂
    induction tr₁ with
    | nil => exact hrun
    | cons ev tr₁ ih =>
      have hev := hplain ev List.mem_cons_self
      exact (ih fun x hx => hplain x (List.mem_cons_of_mem _ hx)).cons hev.works
        (hev.not_failed ev.2)
  · exact (hy tr _ h₁).elim

end Reader

/-! ## Creating a tag -/

theorem runs_createTag {es tagstring : Text} {timeOutMs : ℤ} {tr : Trace}
    {o : Except Fault (ℤ × Text)} (h : Runs (createTag es tagstring timeOutMs) tr o) :
    ∃ tag es', o = .ok (tag, es') ∧
      ((tag = -1001 ∧ ∃ rc : ℤ, rc ≠ plctagStatusOk ∧ tr = [⟨.checkLibVersion, rc⟩]) ∨
        tr = [⟨.checkLibVersion, plctagStatusOk⟩, ⟨.create (cstr tagstring) timeOutMs, tag⟩]) := by
  rw [createTag, runs_perform_bind] at h
  obtain ⟨rc, tr', rfl, h⟩ := h
  by_cases hrc : rc = plctagStatusOk
  · rw [if_neg (not_not.mpr hrc), runs_perform_bind] at h
    obtain ⟨tag, tr'', rfl, h⟩ := h
    subst hrc
    split at h
    · obtain ⟨rfl, rfl⟩ := h
      exact ⟨tag, _, rfl, .inr rfl⟩
    · obtain ⟨rfl, rfl⟩ := h
      exact ⟨tag, _, rfl, .inr rfl⟩
  · rw [if_pos hrc] at h
    obtain ⟨rfl, rfl⟩ := h
    exact ⟨-1001, _, rfl, .inl ⟨rfl, rc, hrc, rfl⟩⟩

theorem yields_createTag (es tagstring : Text) (timeOutMs : ℤ) :
    Yields (createTag es tagstring timeOutMs) (fun _ => True) (fun _ => False) := by
  intro tr o h
  obtain ⟨tag, es', rfl, -⟩ := runs_createTag h
  trivial

/-! ## Numeric tags -/

section Numeric
variable (t : ElemType) (es : Text) (tag : ℤ)

theorem calls_tagGetSizes : Calls (tagGetSizes es tag) (Call.Plain tag) := by
  refine (calls_perform (.inr rfl)).bind fun elemSize => ?_
  split
  · exact calls_pure _
  · refine (calls_perform (.inr rfl)).bind fun elemCount => ?_
    split <;> exact calls_pure _

theorem yields_tagGetSizes : Yields (tagGetSizes es tag) (fun _ => True) (fun _ => False) := by
  refine yields_perform_bind fun elemSize => ?_
  split
  · exact (yields_pure _).mpr trivial
  · refine yields_perform_bind fun elemCount => ?_
    split <;> exact (yields_pure _).mpr trivial

theorem meets_tagGetSizes :
    Meets (tagGetSizes es tag) fun tr o => ∃ rc elemSize elemCount es',
      o = .ok (rc, elemSize, elemCount, es') ∧
        (elemCount = 0 ∨ ⟨.getIntAttribute tag .elemCount 0, elemCount⟩ ∈ tr) := by
  refine meets_call fun elemSize => ?_
  show Meets (if elemSize = 0 then _ else _) _
  split
  · exact meets_pure ⟨_, _, _, _, rfl, .inl rfl⟩
  · refine meets_call fun elemCount => ?_
    show Meets (if elemCount = 0 then _ else _) _
    split
    · exact meets_pure ⟨_, _, _, _, rfl, .inl rfl⟩
    · refine meets_pure ⟨_, _, _, _, rfl, .inr ?_⟩
      exact List.mem_cons_of_mem _ List.mem_cons_self

theorem calls_readElem (offset : ℤ) : Calls (readElem t tag offset) (Call.Plain tag) := by
  cases t with
  | num t => exact calls_perform (.inr rfl)
  | bool => exact (calls_perform (.inr rfl)).bind fun _ => calls_pure _

theorem yields_readElem (offset : ℤ) :
    Yields (readElem t tag offset) (fun _ => True) (fun _ => False) := by
  cases t with
  | num t => exact yields_perform fun _ => trivial
  | bool => exact yields_perform_bind fun _ => (yields_pure _).mpr trivial

theorem calls_readElems (elemSize : ℤ) (n i : ℕ) (values : List t.Val) :
    Calls (readElems t tag elemSize n i values) (Call.Plain tag) := by
  induction n generalizing i values with
  | zero => exact calls_pure _
  | succ n ih => exact (calls_readElem t tag _).bind fun _ => ih _ _

theorem yields_readElems (elemSize : ℤ) (n i : ℕ) (values : List t.Val) :
    Yields (readElems t tag elemSize n i values) (fun _ => True) (fun _ => False) := by
  induction n generalizing i values with
  | zero => exact (yields_pure _).mpr trivial
  | succ n ih => exact (yields_readElem t tag _).bind fun _ _ => ih _ _

theorem calls_readNumericTag (values : List t.Val) (timeOutMs : ℤ) :
    Calls (readNumericTag t es tag values timeOutMs) (Call.Plain tag) := by
  refine (calls_perform (.inr rfl)).bind fun rc2 => ?_
  split
  · exact calls_pure _
  · refine (calls_tagGetSizes es tag).bind fun sizes => ?_
    split
    split
    · exact calls_pure _
    · exact (calls_readElems t tag _ _ _ _).bind fun _ => calls_pure _

theorem yields_readNumericTag (values : List t.Val) (timeOutMs : ℤ) :
    Yields (readNumericTag t es tag values timeOutMs) (fun _ => True) (fun _ => False) := by
  refine yields_perform_bind fun rc2 => ?_
  split
  · exact (yields_pure _).mpr trivial
  · refine (yields_tagGetSizes es tag).bind fun sizes _ => ?_
    split
    split
    · exact (yields_pure _).mpr trivial
    · exact (yields_readElems t tag _ _ _ _).bind fun _ _ => (yields_pure _).mpr trivial

theorem calls_writeElem (offset : ℤ) (val : t.Val) :
    Calls (writeElem t tag offset val) (Call.Plain tag) := by
  cases t <;> exact calls_perform (.inr rfl)

theorem yields_writeElem (offset : ℤ) (val : t.Val) :
    Yields (writeElem t tag offset val) (fun _ => True) (fun _ => False) := by
  cases t <;> exact yields_perform fun _ => trivial

theorem calls_writeElems (elemSize : ℤ) (values : List t.Val) (n i : ℕ) :
    Calls (writeElems t tag elemSize values n i) (Call.Plain tag) := by
  induction n generalizing i with
  | zero => exact calls_pure _
  | succ n ih =>
    rw [writeElems]
    split
    · exact calls_stop _
    · refine (calls_writeElem t tag _ _).bind fun rc => ?_
      split
      · exact calls_pure _
      · exact ih _

/-- The write loop leaves the vector only when it has more turns than the vector has values. -/
theorem yields_writeElems (elemSize : ℤ) (values : List t.Val) (n i : ℕ) :
    Yields (writeElems t tag elemSize values n i) (fun _ => True)
      (fun e => e = .vectorIndex ∧ values.length < i + n) := by
  induction n generalizing i with
  | zero => exact (yields_pure _).mpr trivial
  | succ n ih =>
    rw [writeElems]
    split
    · next hv =>
      have hlen := List.getElem?_eq_none_iff.mp hv
      exact (yields_stop _).mpr ⟨rfl, by omega⟩
    · refine ((yields_writeElem t tag _ _).weaken (fun _ h => h) fun _ h => h.elim).bind
        fun rc _ => ?_
      split
      · exact (yields_pure _).mpr trivial
      · exact (ih (i + 1)).weaken (fun _ h => h) fun e he => ⟨he.1, by omega⟩

theorem calls_writeNumericTag (values : List t.Val) (timeOutMs : ℤ) :
    Calls (writeNumericTag t es tag values timeOutMs) (Call.Plain tag) := by
  refine (calls_tagGetSizes es tag).bind fun sizes => ?_
  split
  split
  · exact calls_pure _
  · refine (calls_writeElems t tag _ _ _ _).bind fun rc => ?_
    split
    · exact calls_pure _
    · refine (calls_perform (.inr rfl)).bind fun rc => ?_
      split <;> exact calls_pure _

theorem meets_writeNumericTag (values : List t.Val) (timeOutMs : ℤ) :
    Meets (writeNumericTag t es tag values timeOutMs) (WriteFaults tag values.length) := by
  refine meets_bind (meets_tagGetSizes es tag) (fun tr₁ sizes h₁ => ?_) fun tr e h => ?_
  · obtain ⟨rc, elemSize, elemCount, es', hsizes, hcount⟩ := h₁
    cases hsizes
    show Meets (if rc ≠ plctagStatusOk then _ else _) _
    split
    · exact meets_pure fun e he => nomatch he
    · refine meets_bind (yields_writeElems t tag elemSize values elemCount.toNat 0)
        (fun tr₂ rc _ => ?_) fun tr₂ e h₂ e' he => ?_
      · refine Meets.weaken (P := fun _ o => ∀ e, o ≠ .error e) ?_ fun _ o h e he =>
          absurd he (h e)
        split
        · exact meets_pure fun _ h => nomatch h
        · refine meets_call fun rc => ?_
          show Meets (if rc ≠ plctagStatusOk then _ else _) _
          split <;> exact meets_pure fun _ h => nomatch h
      · cases he
        rcases hcount with rfl | hmem
        · exact absurd h₂.2 (by simp)
        · exact .inr ⟨h₂.1, elemCount, by omega, List.mem_append_left _ hmem⟩
  · obtain ⟨rc, elemSize, elemCount, es', hsizes, -⟩ := h
    cases hsizes

end Numeric

/-! ## String tags -/

section Strings
variable (es : Text) (tag : ℤ)

theorem yields_ask {α : Type} {E : Fault → Prop} (c : Call) (f : c.Reply → Option α)
    (hE : E .undefined) :
    Yields (perform c >>= fun r => (replied (f r) : Program α)) (fun _ => True) E := by
  apply yields_perform_bind
  intro r
  cases f r with
  | none => exact (yields_stop _).mpr hE
  | some a => exact (yields_pure _).mpr trivial

theorem calls_ask {α : Type} {S : Call → Prop} (c : Call) (f : c.Reply → Option α) (hc : S c) :
    Calls (perform c >>= fun r => (replied (f r) : Program α)) S := by
  refine (calls_perform hc).bind fun r => ?_
  cases f r with
  | none => exact calls_stop _
  | some a => exact calls_pure _

theorem calls_writeStrings (values : List Text) (n i : ℕ) :
    Calls (writeStrings es tag values n i) (Call.Plain tag) := by
  induction n generalizing i with
  | zero => exact calls_pure _
  | succ n ih =>
    refine (calls_ask (.getStringTotalLength tag 0) id (.inr rfl)).bind fun total => ?_
    split
    · exact calls_stop _
    · refine (calls_ask (.setString tag _ _) id (.inr rfl)).bind fun rc => ?_
      split
      · exact calls_pure _
      · exact ih _

theorem yields_writeStrings (values : List Text) (n i : ℕ) :
    Yields (writeStrings es tag values n i) (fun _ => True)
      (fun e => e = .undefined ∨ e = .vectorIndex ∧ values.length < i + n) := by
  induction n generalizing i with
  | zero => exact (yields_pure _).mpr trivial
  | succ n ih =>
    refine (yields_ask (.getStringTotalLength tag 0) id (.inl rfl)).bind fun total _ => ?_
    split
    · next hv =>
      have hlen := List.getElem?_eq_none_iff.mp hv
      exact (yields_stop _).mpr (.inr ⟨rfl, by omega⟩)
    · refine (yields_ask (.setString tag _ _) id (.inl rfl)).bind fun rc _ => ?_
      split
      · exact (yields_pure _).mpr trivial
      · exact (ih (i + 1)).weaken (fun _ h => h) fun e he =>
          he.imp_right fun he => ⟨he.1, by omega⟩

theorem calls_writeStringTag (values : List Text) (timeOutMs : ℤ) :
    Calls (writeStringTag es tag values timeOutMs) (Call.Plain tag) := by
  refine (calls_tagGetSizes es tag).bind fun sizes => ?_
  split
  refine (calls_writeStrings _ tag _ _ _).bind fun res => ?_
  split
  split
  · exact calls_pure _
  · refine (calls_perform (.inr rfl)).bind fun rc => ?_
    split <;> exact calls_pure _

theorem meets_writeStringTag (values : List Text) (timeOutMs : ℤ) :
    Meets (writeStringTag es tag values timeOutMs) (WriteFaults tag values.length) := by
  refine meets_bind (meets_tagGetSizes es tag) (fun tr₁ sizes h₁ => ?_) fun tr e h => ?_
  · obtain ⟨rc, elemSize, elemCount, es', hsizes, hcount⟩ := h₁
    cases hsizes
    refine meets_bind (yields_writeStrings es' tag values elemCount.toNat 0)
      (fun tr₂ res _ => ?_) fun tr₂ e h₂ e' he => ?_
    · refine Meets.weaken (P := fun _ o => ∀ e, o ≠ .error e) ?_ fun _ o h e he => absurd he (h e)
      split
      split
      · exact meets_pure fun _ h => nomatch h
      · refine meets_call fun rc => ?_
        show Meets (if rc ≠ plctagStatusOk then _ else _) _
        split <;> exact meets_pure fun _ h => nomatch h
    · cases he
      refine h₂.imp_right fun h₂ => ⟨h₂.1, ?_⟩
      rcases hcount with rfl | hmem
      · exact absurd h₂.2 (by simp)
      · exact ⟨elemCount, by omega, List.mem_append_left _ hmem⟩
  · obtain ⟨rc, elemSize, elemCount, es', hsizes, -⟩ := h
    cases hsizes

theorem reader_readStrings (turns : ℕ) (strNum offset : ℤ) (values : List Text) :
    Meets (readStrings es tag turns strNum offset values) (ReaderRun tag) := by
  induction turns generalizing strNum offset values with
  | zero => exact reader_stop (.inl rfl)
  | succ turns ih =>
    refine reader_call (.inr rfl) (fun size _ => ?_) fun _ h => nomatch h
    show Meets (if offset < size then _ else _) _
    split
    · refine reader_call (.inr rfl) (fun length _ => ?_) fun _ h => nomatch h
      cases length with
      | none => exact reader_stop (.inr rfl)
      | some length =>
        show Meets (if intMax < length + 1 then _ else _) _
        split
        · exact reader_stop (.inr rfl)
        refine reader_call (.inl rfl) (fun got hgot => ?_) fun got hgot => ?_
        · have hgot : got = true := by simpa [stringFailed] using hgot
          subst hgot
          refine reader_call (.inr rfl) (fun str hstr => ?_) fun str hstr => ?_
          · match str, hstr with
            | none, _ => exact reader_stop (.inr rfl)
            | some (rc, str), hstr =>
              have hrc : rc = plctagStatusOk := by simpa [stringFailed] using hstr
              show Meets (if rc ≠ plctagStatusOk then _ else _) _
              rw [if_neg (not_not.mpr hrc)]
              split
              · refine reader_call (.inr rfl) (fun total _ => ?_) fun _ h => nomatch h
                cases total with
                | none => exact reader_stop (.inr rfl)
                | some total => exact ih _ _ _
              · exact reader_stop (.inr rfl)
          · match str, hstr with
            | some (rc, str), hstr =>
              have hrc : rc ≠ plctagStatusOk := by simpa [stringFailed] using hstr
              exact ⟨_, if_pos hrc⟩
        · have hgot : got = false := by simpa [stringFailed] using hgot
          subst hgot
          exact ⟨_, rfl⟩
    · exact reader_pure _

theorem reader_readStringTag (turns : ℕ) (values : List Text) (timeOutMs : ℤ) :
    Meets (readStringTag turns es tag values timeOutMs) (ReaderRun tag) := by
  refine reader_call (.inr rfl) (fun rc2 _ => ?_) fun _ h => nomatch h
  show Meets (if rc2 ≠ plctagStatusOk then _ else _) _
  split
  · exact reader_pure _
  · refine reader_plain (calls_tagGetSizes es tag) (yields_tagGetSizes es tag) fun sizes => ?_
    split
    split
    · exact reader_pure _
    · exact reader_readStrings _ tag _ _ _ _

end Strings

end Plctagt.Tag
