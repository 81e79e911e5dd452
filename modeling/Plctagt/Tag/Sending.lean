import Plctagt.Tag.Handles

/-! # When the writers send

A writer fills the tag's buffer element by element and then sends it with `plc_tag_write`. What the
library answers to the two size queries and to the setters is read off the run, for every outcome
of every call.
-/
namespace Plctagt.Tag
open Effects Decimal
set_option autoImplicit false

def Call.isSetter : Call → Bool
  | .setNum _ _ _ _ => true
  | .setBit _ _ _ => true
  | .setString _ _ _ => true
  | _ => false

/-- The calls of setters, in order. -/
def setters (tr : Trace) : Trace := tr.filter fun ev => ev.1.isSetter

theorem setters_append (tr tr' : Trace) : setters (tr ++ tr') = setters tr ++ setters tr' :=
  List.filter_append ..

/-- The setter of a numeric element, which returned `PLCTAG_STATUS_OK`. -/
def setElem : (t : ElemType) → (tag offset : ℤ) → t.Val → Event Call.Reply
  | .num t, tag, offset, val => ⟨.setNum t tag offset val, plctagStatusOk⟩
  | .bool, tag, offset, val => ⟨.setBit tag offset val, plctagStatusOk⟩

/-- Element `i` was set to its value. -/
def NumericSet (t : ElemType) (tag : ℤ) (values : List t.Val) (elemSize : ℤ) (i : ℕ)
    (ev : Event Call.Reply) : Prop :=
  ∃ val, values[i]? = some val ∧ ev = setElem t tag (i * elemSize) val

/-- A string is placed by a length the library gave and not by the element size. -/
def StringSet (tag : ℤ) (values : List Text) (_elemSize : ℤ) (i : ℕ) (ev : Event Call.Reply) :
    Prop :=
  ∃ val strTotalLength, values[i]? = some val ∧
    ev = ⟨.setString tag (strTotalLength * i) (cstr val), some plctagStatusOk⟩

/-- `tagGetSizes` succeeded, with this element size and count. -/
def Sized (tag : ℤ) (tr : Trace) (elemSize elemCount : ℤ) : Prop :=
  elemSize ≠ 0 ∧ elemCount ≠ 0 ∧ ⟨.getIntAttribute tag .elemSize 0, elemSize⟩ ∈ tr ∧
    ⟨.getIntAttribute tag .elemCount 0, elemCount⟩ ∈ tr

theorem Sized.mono {tag elemSize elemCount : ℤ} {tr tr' : Trace}
    (h : Sized tag tr elemSize elemCount) (hsub : tr ⊆ tr') : Sized tag tr' elemSize elemCount :=
  ⟨h.1, h.2.1, hsub h.2.2.1, hsub h.2.2.2⟩

section Writer
variable (set : ℤ → ℕ → Event Call.Reply → Prop) (tag : ℤ)

/-- The sizes are known, and the setter of every element returned `PLCTAG_STATUS_OK`. -/
def Filled (tr : Trace) : Prop :=
  ∃ elemSize elemCount, Sized tag tr elemSize elemCount ∧
    List.Forall₂ (set elemSize) (List.range elemCount.toNat) (setters tr)

/-- `plc_tag_write`, on any tag. -/
def Call.Sends : Call → Prop
  | .write _ _ => True
  | _ => False

/-- `plc_tag_write` is called after the buffer was filled; when it was not, nothing is sent and a
status other than `PLCTAG_STATUS_OK` is returned. A run that ends without a result does so in a
call that left the tag's buffer. -/
structure Careful (tr : Trace) (o : Except Fault (ℤ × Text)) : Prop where
  sent : ∀ pre ev post, tr = pre ++ ev :: post → ev.1.Sends → Filled set tag pre
  refused : ¬ Filled set tag tr → (∀ ev ∈ tr, ¬ ev.1.Sends) ∧
    ∀ rc es, o = .ok (rc, es) → rc ≠ plctagStatusOk
  ends : ∀ e, o = .error e → e = .undefined

end Writer

/-- The vector has at least as many values as the library says the tag has elements. -/
def Enough (tag : ℤ) (length : ℕ) (tr : Trace) : Prop :=
  ∀ elemCount : ℤ, ⟨.getIntAttribute tag .elemCount 0, elemCount⟩ ∈ tr → elemCount ≤ length

/-! ## The size queries -/

theorem runs_tagGetSizes {es : Text} {tag : ℤ} {tr : Trace} {o : Except Fault (ℤ × ℤ × ℤ × Text)}
    (h : Runs (tagGetSizes es tag) tr o) :
    (∃ rc es', rc ≠ plctagStatusOk ∧ o = .ok (rc, 0, 0, es') ∧
      (tr = [⟨.getIntAttribute tag .elemSize 0, 0⟩] ∨ ∃ elemSize : ℤ, elemSize ≠ 0 ∧
        tr = [⟨.getIntAttribute tag .elemSize 0, elemSize⟩,
          ⟨.getIntAttribute tag .elemCount 0, 0⟩])) ∨
    ∃ elemSize elemCount : ℤ, elemSize ≠ 0 ∧ elemCount ≠ 0 ∧
      o = .ok (plctagStatusOk, elemSize, elemCount, es) ∧
      tr = [⟨.getIntAttribute tag .elemSize 0, elemSize⟩,
        ⟨.getIntAttribute tag .elemCount 0, elemCount⟩] := by
  rw [tagGetSizes, runs_perform_bind] at h
  obtain ⟨elemSize, tr', rfl, h⟩ := h
  by_cases hsize : elemSize = 0
  · rw [if_pos hsize] at h
    obtain ⟨rfl, rfl⟩ := h
    subst hsize
    exact .inl ⟨-1001, _, by decide, rfl, .inl rfl⟩
  · rw [if_neg hsize, runs_perform_bind] at h
    obtain ⟨elemCount, tr'', rfl, h⟩ := h
    by_cases hcount : elemCount = 0
    · rw [if_pos hcount] at h
      obtain ⟨rfl, rfl⟩ := h
      subst hcount
      exact .inl ⟨-1002, _, by decide, rfl, .inr ⟨elemSize, hsize, rfl⟩⟩
    · rw [if_neg hcount] at h
      obtain ⟨rfl, rfl⟩ := h
      exact .inr ⟨elemSize, elemCount, hsize, hcount, rfl, rfl⟩

/-! ## Filling the buffer -/

/-- A run of the loop over `n` elements, from element `i` on: it sends nothing, and when it ends
with `PLCTAG_STATUS_OK` it has set every one of them. -/
structure FillRun (set : ℕ → Event Call.Reply → Prop) (n i : ℕ) (tr : Trace) (ok : Prop) :
    Prop where
  quiet : ∀ ev ∈ tr, ¬ ev.1.Sends
  filled : ok → List.Forall₂ set (List.range' i n) (setters tr)

section Loops
variable {set : ℕ → Event Call.Reply → Prop} {n i : ℕ} {tr : Trace} {ok : Prop}
  {ev : Event Call.Reply}

theorem fillRun_nil (h : ok → n = 0) : FillRun set n i [] ok := by
  refine ⟨fun _ h => (nomatch h), fun hok => ?_⟩
  rw [h hok]
  exact .nil

theorem FillRun.pass (h : FillRun set n i tr ok) (hs : ¬ ev.1.Sends)
    (hev : ev.1.isSetter = false) : FillRun set n i (ev :: tr) ok := by
  refine ⟨List.forall_mem_cons.mpr ⟨hs, h.quiet⟩, fun hok => ?_⟩
  rw [setters, List.filter_cons_of_neg (by simp [hev])]
  exact h.filled hok

theorem FillRun.next (h : FillRun set n (i + 1) tr ok) (hs : ¬ ev.1.Sends)
    (hev : ev.1.isSetter = true) (hset : set i ev) : FillRun set (n + 1) i (ev :: tr) ok := by
  refine ⟨List.forall_mem_cons.mpr ⟨hs, h.quiet⟩, fun hok => ?_⟩
  rw [setters, List.filter_cons_of_pos (by simpa using hev), List.range'_succ]
  exact .cons hset (h.filled hok)

theorem fillRun_failed (hs : ¬ ev.1.Sends) (hok : ¬ ok) : FillRun set n i [ev] ok :=
  ⟨fun _ h => List.mem_singleton.mp h ▸ hs, fun h => absurd h hok⟩

end Loops

/-- Setting one element of a numeric tag is one call. -/
theorem runs_writeElem {t : ElemType} {tag offset : ℤ} {val : t.Val} {tr : Trace}
    {o : Except Fault ℤ} (h : Runs (writeElem t tag offset val) tr o) :
    ∃ ev rc, tr = [ev] ∧ o = .ok rc ∧ ¬ ev.1.Sends ∧ ev.1.isSetter = true ∧
      (rc = plctagStatusOk → ev = setElem t tag offset val) := by
  cases t with
  | num t =>
    obtain ⟨rc, tr', rfl, rfl, rfl⟩ := h
    exact ⟨_, rc, rfl, rfl, id, rfl, fun h => by rw [h]; rfl⟩
  | bool =>
    obtain ⟨rc, tr', rfl, rfl, rfl⟩ := h
    exact ⟨_, rc, rfl, rfl, id, rfl, fun h => by rw [h]; rfl⟩

theorem fillRun_writeElems (t : ElemType) (tag elemSize : ℤ) (values : List t.Val) (n i : ℕ) :
    Meets (writeElems t tag elemSize values n i) fun tr o =>
      FillRun (NumericSet t tag values elemSize) n i tr (o = .ok plctagStatusOk) := by
  induction n generalizing i with
  | zero => exact meets_pure (fillRun_nil fun _ => rfl)
  | succ n ih =>
    rw [writeElems]
    split
    · exact meets_stop (fillRun_nil fun h => by cases h)
    · next val hval =>
      intro tr o h
      rcases (runs_bind _ _ _ _).mp h with ⟨tr₁, tr₂, rc, rfl, h₁, h₂⟩ | ⟨e, rfl, h₁⟩
      · obtain ⟨ev, rc', rfl, hrc, hs, hsetter, hev⟩ := runs_writeElem h₁
        cases hrc
        by_cases hok : rc = plctagStatusOk
        · rw [if_neg (not_not.mpr hok)] at h₂
          exact (ih (i + 1) tr₂ o h₂).next hs hsetter ⟨val, hval, hev hok⟩
        · rw [if_pos hok] at h₂
          obtain ⟨rfl, rfl⟩ := h₂
          exact fillRun_failed hs fun h => hok (Except.ok.inj h)
      · obtain ⟨ev, rc, -, he, -⟩ := runs_writeElem h₁
        cases he

theorem fillRun_writeStrings (es : Text) (tag elemSize : ℤ) (values : List Text) (n i : ℕ) :
    Meets (writeStrings es tag values n i) fun tr o =>
      FillRun (StringSet tag values elemSize) n i tr (∃ es', o = .ok (plctagStatusOk, es')) := by
  induction n generalizing i with
  | zero => exact meets_pure (fillRun_nil fun _ => rfl)
  | succ n ih =>
    refine meets_call fun total => ?_
    refine Meets.weaken ?_ fun tr o h => FillRun.pass h id rfl
    cases total with
    | none => exact meets_stop (fillRun_nil fun h => nomatch h)
    | some total =>
      cases hval : values[i]? with
      | none => exact meets_stop (fillRun_nil fun h => nomatch h)
      | some val =>
        refine meets_call fun rc => ?_
        cases rc with
        | none => exact meets_stop (fillRun_failed id fun h => nomatch h)
        | some rc =>
          show Meets (if rc ≠ plctagStatusOk then _ else _) _
          split
          · next hrc =>
            refine meets_pure (fillRun_failed id ?_)
            rintro ⟨es', h⟩
            exact hrc (congrArg Prod.fst (Except.ok.inj h))
          · next hrc =>
            refine (ih (i + 1)).weaken fun tr o h => h.next id rfl ⟨val, total, hval, ?_⟩
            rw [not_not.mp hrc]

/-! ## The writers -/

section Careful
variable {set : ℤ → ℕ → Event Call.Reply → Prop} {tag : ℤ} {tr : Trace}
  {o : Except Fault (ℤ × Text)}

theorem careful_of_quiet (hs : ∀ ev ∈ tr, ¬ ev.1.Sends)
    (hok : ∀ rc es, o = .ok (rc, es) → rc ≠ plctagStatusOk)
    (herr : ∀ e, o = .error e → e = .undefined) : Careful set tag tr o where
  sent := by
    rintro pre ev post rfl hev
    exact absurd hev (hs ev (by simp))
  refused := fun _ => ⟨hs, hok⟩
  ends := herr

/-- The last call is the one that sends. -/
theorem careful_of_filled {ev : Event Call.Reply} (hs : ∀ ev ∈ tr, ¬ ev.1.Sends)
    (hfilled : Filled set tag tr) (hev : ev.1.isSetter = false) (herr : ∀ e, o ≠ .error e) :
    Careful set tag (tr ++ [ev]) o where
  sent := by
    intro pre ev' post h hev'
    rcases List.eq_nil_or_concat post with rfl | ⟨post, x, rfl⟩
    · obtain ⟨rfl, -⟩ := List.append_inj' h rfl
      exact hfilled
    · rw [List.concat_eq_append, ← List.cons_append, ← List.append_assoc] at h
      obtain ⟨rfl, -⟩ := List.append_inj' h rfl
      exact absurd hev' (hs ev' (by simp))
  refused := by
    obtain ⟨elemSize, elemCount, hsized, hset⟩ := hfilled
    refine fun h => absurd ⟨elemSize, elemCount, hsized.mono (List.subset_append_left _ _), ?_⟩ h
    have hsetters : setters (tr ++ [ev]) = setters tr := by
      rw [setters_append]
      simp [setters, hev]
    rwa [hsetters]
  ends := fun e h => absurd h (herr e)

end Careful

/-- Only a vector that is too short ends a writer in any other way. -/
theorem WriteFaults.ends {tag : ℤ} {length : ℕ} {tr : Trace} {o : Except Fault (ℤ × Text)}
    (h : WriteFaults tag length tr o) (henough : Enough tag length tr) (e : Fault)
    (he : o = .error e) : e = .undefined := by
  rcases h e he with rfl | ⟨-, elemCount, hlen, hmem⟩
  · rfl
  · exact absurd hlen (not_lt.mpr (henough elemCount hmem))

/-- The two size queries. -/
structure Queried (tag : ℤ) (tr : Trace) (rc elemSize elemCount : ℤ) : Prop where
  quiet : ∀ ev ∈ tr, ¬ ev.1.Sends
  unset : setters tr = []
  failed : rc ≠ plctagStatusOk → elemCount = 0 ∧ ∀ size count, ¬ Sized tag tr size count
  sized : rc = plctagStatusOk → Sized tag tr elemSize elemCount

theorem queried_tagGetSizes {es : Text} {tag : ℤ} {tr : Trace}
    {o : Except Fault (ℤ × ℤ × ℤ × Text)} (h : Runs (tagGetSizes es tag) tr o) :
    ∃ rc elemSize elemCount es', o = .ok (rc, elemSize, elemCount, es') ∧
      Queried tag tr rc elemSize elemCount := by
  rcases runs_tagGetSizes h with ⟨rc, es', hrc, rfl, htr⟩ | ⟨elemSize, elemCount, hsize, hcount,
    rfl, rfl⟩
  · refine ⟨rc, 0, 0, es', rfl, ?_⟩
    rcases htr with rfl | ⟨elemSize, hsize, rfl⟩
    · exact ⟨by simp [Call.Sends], rfl, fun _ => ⟨rfl, by simp [Sized]⟩, fun h => absurd h hrc⟩
    · refine ⟨by simp [Call.Sends], rfl, fun _ => ⟨rfl, fun size count hn => ?_⟩,
        fun h => absurd h hrc⟩
      exact hn.2.1 (by simpa using hn.2.2.2)
  · refine ⟨_, elemSize, elemCount, es, rfl, by simp [Call.Sends], rfl, fun h => absurd rfl h, ?_⟩
    exact fun _ => ⟨hsize, hcount, by simp, by simp⟩

theorem Sized.of_concat {tag elemSize elemCount : ℤ} {tr : Trace} {ev : Event Call.Reply}
    (h : Sized tag (tr ++ [ev]) elemSize elemCount) (hs : ev.1.Sends) :
    Sized tag tr elemSize elemCount := by
  have hmem : ∀ (name : Attribute) (x : ℤ), ⟨.getIntAttribute tag name 0, x⟩ ∈ tr ++ [ev] →
      (⟨.getIntAttribute tag name 0, x⟩ : Event Call.Reply) ∈ tr := by
    intro name x hx
    rcases List.mem_append.mp hx with hx | hx
    · exact hx
    · obtain rfl := List.mem_singleton.mp hx
      exact hs.elim
  exact ⟨h.1, h.2.1, hmem _ _ h.2.2.1, hmem _ _ h.2.2.2⟩

section Loop
variable {set : ℤ → ℕ → Event Call.Reply → Prop} {tag rc elemSize elemCount : ℤ} {tr tr' : Trace}
  {o : Except Fault (ℤ × Text)}

theorem Queried.filled {ok : Prop} (h : Queried tag tr rc elemSize elemCount)
    (hrc : rc = plctagStatusOk) (hfill : FillRun (set elemSize) elemCount.toNat 0 tr' ok)
    (hok : ok) : Filled set tag (tr ++ tr') := by
  refine ⟨elemSize, elemCount, (h.sized hrc).mono (List.subset_append_left _ _), ?_⟩
  rw [setters_append, h.unset, List.nil_append, List.range_eq_range']
  exact hfill.filled hok

/-- The sizes are known: the loop `p` fills the buffer, and `f` sends it when the loop ended well and
returns the loop's status when it did not. -/
theorem careful_of_loop {α : Type} {p : Program α} {f : α → Program (ℤ × Text)} (ok : α → Prop)
    (timeOutMs : ℤ) (hq : Queried tag tr rc elemSize elemCount) (hrc : rc = plctagStatusOk)
    (hp : Meets p fun tr o =>
      FillRun (set elemSize) elemCount.toNat 0 tr (∃ a, o = .ok a ∧ ok a))
    (hsend : ∀ a, ok a → Meets (f a) fun tr o =>
      ∃ (rc : ℤ) (res : ℤ × Text), tr = [⟨.write tag timeOutMs, rc⟩] ∧ o = .ok res)
    (hfail : ∀ a, ¬ ok a → Meets (f a) fun tr o =>
      ∃ rc es, tr = [] ∧ o = .ok (rc, es) ∧ rc ≠ plctagStatusOk)
    (hends : ∀ e, o = .error e → e = .undefined) (h : Runs (p >>= f) tr' o) :
    Careful set tag (tr ++ tr') o := by
  have hquiet : ∀ tr' o, Runs p tr' o → ∀ ev ∈ tr ++ tr', ¬ ev.1.Sends := fun tr' o h =>
    List.forall_mem_append.mpr ⟨hq.quiet, (hp tr' o h).quiet⟩
  rcases (runs_bind p f tr' o).mp h with ⟨tr₁, tr₂, a, rfl, h₁, h₂⟩ | ⟨e, rfl, h₁⟩
  · by_cases hok : ok a
    · obtain ⟨rc', res, rfl, rfl⟩ := hsend a hok tr₂ o h₂
      rw [← List.append_assoc]
      exact careful_of_filled (hquiet tr₁ _ h₁) (hq.filled hrc (hp tr₁ _ h₁) ⟨a, rfl, hok⟩) rfl
        fun _ h => nomatch h
    · obtain ⟨rc', es, rfl, rfl, hrc'⟩ := hfail a hok tr₂ o h₂
      rw [List.append_nil]
      exact careful_of_quiet (hquiet tr₁ _ h₁) (fun _ _ h => by cases h; exact hrc') hends
  · exact careful_of_quiet (hquiet tr' _ h₁) (fun _ _ h => nomatch h) hends

end Loop

/-- `plc_tag_write`, and a result whatever it returns. -/
theorem meets_write {tag timeOutMs : ℤ} {f : ℤ → ℤ × Text} :
    Meets (perform (.write tag timeOutMs) >>= fun rc => pure (f rc) : Program (ℤ × Text))
      fun tr o => ∃ (rc : ℤ) (res : ℤ × Text), tr = [⟨.write tag timeOutMs, rc⟩] ∧ o = .ok res := by
  rintro tr o ⟨rc, tr', rfl, rfl, rfl⟩
  exact ⟨rc, f rc, rfl, rfl⟩

theorem careful_writeNumericTag (t : ElemType) (es : Text) (tag : ℤ) (values : List t.Val)
    (timeOutMs : ℤ) :
    Meets (writeNumericTag t es tag values timeOutMs) fun tr o =>
      Enough tag values.length tr → Careful (NumericSet t tag values) tag tr o := by
  intro tr o h henough
  have hends := (meets_writeNumericTag t es tag values timeOutMs tr o h).ends henough
  rcases (runs_bind _ _ _ _).mp h with ⟨tr₁, tr₂, sizes, rfl, h₁, h₂⟩ | ⟨e, rfl, h₁⟩
  · obtain ⟨rc, elemSize, elemCount, es', hsizes, hq⟩ := queried_tagGetSizes h₁
    cases hsizes
    change Runs (if rc ≠ plctagStatusOk then _ else _) _ _ at h₂
    by_cases hrc : rc = plctagStatusOk
    · rw [if_neg (not_not.mpr hrc)] at h₂
      refine careful_of_loop (· = plctagStatusOk) timeOutMs hq hrc
        ((fillRun_writeElems t tag elemSize values _ 0).weaken fun tr o h => ?_) (fun rc' hrc' => ?_)
        (fun rc' hrc' => ?_) hends h₂
      · refine ⟨h.quiet, fun ⟨rc', ho, hrc'⟩ => h.filled ?_⟩
        rw [ho, hrc']
      · rw [if_neg (not_not.mpr hrc')]
        simp only [← apply_ite]
        exact meets_write
      · rw [if_pos hrc']
        exact meets_pure ⟨rc', _, rfl, rfl, hrc'⟩
    · rw [if_pos hrc] at h₂
      obtain ⟨rfl, rfl⟩ := h₂
      rw [List.append_nil]
      exact careful_of_quiet hq.quiet (fun _ _ h => by cases h; exact hrc) hends
  · obtain ⟨rc, elemSize, elemCount, es', hsizes, -⟩ := queried_tagGetSizes h₁
    cases hsizes

/-- `writeStringTag` goes on when `tagGetSizes` failed: there is then nothing to fill, and it sends
the buffer as it is. -/
theorem careful_writeStringTag_iff {es : Text} {tag : ℤ} {values : List Text} {timeOutMs : ℤ}
    {tr : Trace} {o : Except Fault (ℤ × Text)}
    (h : Runs (writeStringTag es tag values timeOutMs) tr o)
    (henough : Enough tag values.length tr) :
    Careful (StringSet tag values) tag tr o ↔
      ∃ elemSize elemCount, Sized tag tr elemSize elemCount := by
  have hends := (meets_writeStringTag es tag values timeOutMs tr o h).ends henough
  rcases (runs_bind _ _ _ _).mp h with ⟨tr₁, tr₂, sizes, rfl, h₁, h₂⟩ | ⟨e, rfl, h₁⟩
  · obtain ⟨rc, elemSize, elemCount, es', hsizes, hq⟩ := queried_tagGetSizes h₁
    cases hsizes
    by_cases hrc : rc = plctagStatusOk
    · have hsized := (hq.sized hrc).mono (List.subset_append_left tr₁ tr₂)
      refine iff_of_true ?_ ⟨elemSize, elemCount, hsized⟩
      refine careful_of_loop (fun res => res.1 = plctagStatusOk) timeOutMs hq hrc
        ((fillRun_writeStrings es' tag elemSize values _ 0).weaken fun tr o h => ?_)
        (fun res hres => ?_) (fun res hres => ?_) hends h₂
      · refine ⟨h.quiet, fun ⟨res, ho, hres⟩ => h.filled ⟨res.2, ?_⟩⟩
        rw [ho, ← hres]
      · show Meets (if res.1 ≠ plctagStatusOk then _ else _) _
        rw [if_neg (not_not.mpr hres)]
        simp only [← apply_ite]
        exact meets_write
      · show Meets (if res.1 ≠ plctagStatusOk then _ else _) _
        rw [if_pos hres]
        exact meets_pure ⟨res.1, _, rfl, rfl, hres⟩
    · obtain ⟨rfl, hnone⟩ := hq.failed hrc
      change Runs (perform (Call.write tag timeOutMs) >>= fun rc =>
        if rc ≠ plctagStatusOk then pure (rc, _) else pure (rc, es')) tr₂ o at h₂
      simp only [← apply_ite] at h₂
      obtain ⟨rc', res, rfl, rfl⟩ := meets_write tr₂ o h₂
      refine iff_of_false (fun hcareful => ?_) ?_
      · obtain ⟨size, count, hn, -⟩ :=
          hcareful.sent tr₁ ⟨.write tag timeOutMs, rc'⟩ [] rfl trivial
        exact hnone size count hn
      · rintro ⟨size, count, hn⟩
        exact hnone size count (hn.of_concat trivial)
  · obtain ⟨rc, elemSize, elemCount, es', hsizes, -⟩ := queried_tagGetSizes h₁
    cases hsizes

/-- `writeNumericTag` always keeps to it; `writeStringTag` when the library knows the sizes. -/
theorem writers_careful_iff (es : Text) (tag timeOutMs : ℤ) :
    (∀ (t : ElemType) (values : List t.Val) (tr : Trace) (o : Except Fault (ℤ × Text)),
      Runs (writeNumericTag t es tag values timeOutMs) tr o → Enough tag values.length tr →
        Careful (NumericSet t tag values) tag tr o) ∧
    ∀ (values : List Text) (tr : Trace) (o : Except Fault (ℤ × Text)),
      Runs (writeStringTag es tag values timeOutMs) tr o → Enough tag values.length tr →
        (Careful (StringSet tag values) tag tr o ↔
          ∃ elemSize elemCount, Sized tag tr elemSize elemCount) :=
  ⟨fun t values tr o h => careful_writeNumericTag t es tag values timeOutMs tr o h,
    fun _ _ _ h => careful_writeStringTag_iff h⟩

/-- One string, of a tag whose sizes the library knows. -/
theorem writers_careful_one :
    Careful (StringSet 4 [[65]]) 4
      [⟨.getIntAttribute 4 .elemSize 0, 88⟩, ⟨.getIntAttribute 4 .elemCount 0, 1⟩,
        ⟨.getStringTotalLength 4 0, some 88⟩, ⟨.setString 4 0 [65], some plctagStatusOk⟩,
        ⟨.write 4 5000, plctagStatusOk⟩] (.ok (plctagStatusOk, [])) := by
  refine ((writers_careful_iff [] 4 5000).2 [[65]] _ _ ?_ ?_).mpr ⟨88, 1, by decide, by decide, ?_⟩
  · exact ⟨_, _, rfl, _, _, rfl, _, _, rfl, _, _, rfl, _, _, rfl, rfl, rfl⟩
  · intro elemCount h
    have : elemCount = 1 := by simpa using h
    simp [this]
  · exact ⟨by simp, by simp⟩

/-- An element size of 0: one value, none set, and the buffer is sent. -/
theorem writeStringTag_unsized :
    Runs (writeStringTag [] 4 [[65]] 5000)
      [⟨.getIntAttribute 4 .elemSize 0, 0⟩, ⟨.write 4 5000, plctagStatusOk⟩]
      (.ok (plctagStatusOk, text
        "ERROR: elem_size is 0. Can also signify invalid/unssupported/nonexistent tagname.\n")) ∧
    Enough 4 1 [⟨.getIntAttribute 4 .elemSize 0, 0⟩, ⟨.write 4 5000, plctagStatusOk⟩] ∧
    ¬ Careful (StringSet 4 [[65]]) 4
      [⟨.getIntAttribute 4 .elemSize 0, 0⟩, ⟨.write 4 5000, plctagStatusOk⟩]
      (.ok (plctagStatusOk, text
        "ERROR: elem_size is 0. Can also signify invalid/unssupported/nonexistent tagname.\n")) := by
  refine ⟨⟨_, _, rfl, _, _, rfl, rfl, rfl⟩, fun elemCount h => by simp at h, fun h => ?_⟩
  obtain ⟨size, count, ⟨-, -, -, hn⟩, -⟩ :=
    h.sent [_] ⟨.write 4 5000, plctagStatusOk⟩ [] rfl trivial
  simp at hn

end Plctagt.Tag
