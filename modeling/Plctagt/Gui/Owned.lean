import Plctagt.Foundations.Ownership
import Plctagt.Tag.Examples
import Plctagt.Gui.Parked

/-! # Who destroys a tag

`readStringTag` destroys the tag itself when an allocation or a string fails. The callers destroy it
whatever happened ([Read], [Write], the profile run) or never (the example programs).
-/
namespace Plctagt.Gui
open Effects Decimal Tag Ownership
set_option autoImplicit false

/-- Each handle that was created is destroyed, and not used after that. -/
def Owned (tr : Trace) : Prop :=
  Disciplined createdHandle destroyHandle (fun ev => ev.1.handle) tr

instance (tr : Trace) : Decidable (Owned tr) :=
  decidableDisciplined createdHandle destroyHandle (fun ev => ev.1.handle) tr

def Spent (tag : ℤ) (tr : Trace) : Prop := Settled destroyHandle (fun ev => ev.1.handle) tag tr

/-- An operation ends by returning, or by `raise(SIGTRAP)`. -/
def Ended {α : Type} (o : Except Fault α) : Prop := (∃ a, o = .ok a) ∨ o = .error .sigtrap

theorem spent_cons_destroy (tag r : ℤ) (tr : Trace) :
    Spent tag (⟨.destroy tag, r⟩ :: tr) ↔ ∀ ev ∈ tr, ev.1.handle ≠ some tag := by
  have hrel : destroyHandle ⟨.destroy tag, r⟩ = some tag := rfl
  exact settled_cons hrel tr

theorem spent_append {tag : ℤ} {tr₁ : Trace} (h : ∀ ev ∈ tr₁, destroyHandle ev ≠ some tag)
    (tr₂ : Trace) : Spent tag (tr₁ ++ tr₂) ↔ Spent tag tr₂ :=
  settled_append h tr₂

/-! ## Work on one tag -/

def IsPopup (c : Call) : Prop := ∃ message, c = .popupMessage message

/-- A run that works on the tag: it leaves it, or destroys it after a failure and makes no more use
of it. -/
inductive Body (tag : ℤ) : Trace → Prop
  | kept (tr : Trace) (h : ∀ ev ∈ tr, ev.1.Works tag ∧ stringFailed ev = false) : Body tag tr
  | freed (pre : Trace) (ev : Event Call.Reply) (r : ℤ) (post : Trace)
      (hpre : ∀ x ∈ pre, x.1.Works tag ∧ stringFailed x = false) (hev : ev.1.Works tag)
      (hfail : stringFailed ev = true) (hpost : ∀ x ∈ post, IsPopup x.1) :
      Body tag (pre ++ ev :: ⟨.destroy tag, r⟩ :: post)

section Body
variable {tag : ℤ}

theorem IsPopup.works {ev : Event Call.Reply} (h : IsPopup ev.1) (tag : ℤ) :
    ev.1.Works tag ∧ stringFailed ev = false := by
  obtain ⟨c, r⟩ := ev
  obtain ⟨message, hc⟩ := h
  cases hc
  exact ⟨.inl rfl, rfl⟩

theorem Works.not_destroyed {ev : Event Call.Reply} (h : ev.1.Works tag) (tag' : ℤ) :
    destroyHandle ev ≠ some tag' := by
  unfold destroyHandle
  split
  · exact absurd h id
  · simp

theorem Works.not_created {ev : Event Call.Reply} (h : ev.1.Works tag) :
    createdHandle ev = none := by
  apply createdHandle_eq_none
  intro s t hev
  rw [hev] at h
  exact h

theorem Body.mem {tr : Trace} (h : Body tag tr) :
    ∀ ev ∈ tr, ev.1.Works tag ∨ ∃ r, ev = ⟨.destroy tag, r⟩ := by
  cases h with
  | kept _ h => exact fun x hx => .inl (h x hx).1
  | freed pre ev r post hpre hev hfail hpost =>
    rw [List.forall_mem_append, List.forall_mem_cons, List.forall_mem_cons]
    exact ⟨fun x hx => .inl (hpre x hx).1, .inl hev, .inr ⟨r, rfl⟩,
      fun x hx => .inl ((hpost x hx).works tag).1⟩

theorem Body.not_created {tr : Trace} (h : Body tag tr) : ∀ ev ∈ tr, createdHandle ev = none := by
  intro ev hev
  rcases h.mem ev hev with hworks | ⟨r, rfl⟩
  · exact Works.not_created hworks
  · rfl

theorem Body.destroyed_eq {tr : Trace} (h : Body tag tr) :
    ∀ ev ∈ tr, ∀ tag', destroyHandle ev = some tag' → tag' = tag := by
  intro ev hev tag' hd
  rcases h.mem ev hev with hworks | ⟨r, rfl⟩
  · exact absurd hd (Works.not_destroyed hworks tag')
  · exact (Option.some.inj hd).symm

theorem Body.destroyed {tr : Trace} (h : Body tag tr) :
    (∀ ev ∈ tr, stringFailed ev = false) ∧ (∀ ev ∈ tr, ∀ tag', destroyHandle ev ≠ some tag') ∨
      (∃ ev ∈ tr, stringFailed ev = true) ∧ ∃ ev ∈ tr, destroyHandle ev = some tag := by
  cases h with
  | kept _ h => exact .inl ⟨fun x hx => (h x hx).2, fun x hx => Works.not_destroyed (h x hx).1⟩
  | freed pre ev r post hpre hev hfail hpost =>
    exact .inr ⟨⟨ev, by simp, hfail⟩, ⟨.destroy tag, r⟩, by simp, rfl⟩

theorem Body.spent_iff {tr : Trace} (h : Body tag tr) :
    Spent tag tr ↔ ∃ ev ∈ tr, stringFailed ev = true := by
  cases h with
  | kept _ h =>
    refine iff_of_false (not_settled_of_kept fun x hx => Works.not_destroyed (h x hx).1 tag) ?_
    rintro ⟨x, hx, hfail⟩
    rw [(h x hx).2] at hfail
    cases hfail
  | freed pre ev r post hpre hev hfail hpost =>
    refine iff_of_true ?_ ⟨ev, by simp, hfail⟩
    have hkept : ∀ x ∈ pre ++ [ev], destroyHandle x ≠ some tag := by
      rw [List.forall_mem_append, List.forall_mem_singleton]
      exact ⟨fun x hx => Works.not_destroyed (hpre x hx).1 tag, Works.not_destroyed hev tag⟩
    rw [List.append_cons, spent_append hkept, spent_cons_destroy]
    intro x hx
    obtain ⟨c, r'⟩ := x
    obtain ⟨message, hc⟩ := hpost _ hx
    cases hc
    simp [Call.handle]

theorem Body.spent_destroy_iff {tr : Trace} (h : Body tag tr) (r : ℤ) :
    Spent tag (tr ++ [⟨.destroy tag, r⟩]) ↔ ∀ ev ∈ tr, stringFailed ev = false := by
  rcases h.destroyed with ⟨hall, hkept⟩ | ⟨⟨ev, hev, hfail⟩, hdestroy⟩
  · refine iff_of_true ?_ hall
    rw [spent_append fun x hx => hkept x hx tag, spent_cons_destroy]
    simp
  · refine iff_of_false (not_settled_of_used_again hdestroy ⟨_, List.mem_singleton_self _, rfl⟩) ?_
    intro hall
    rw [hall ev hev] at hfail
    cases hfail

theorem Body.append_popups {tr post : Trace} (h : Body tag tr) (hpost : ∀ x ∈ post, IsPopup x.1) :
    Body tag (tr ++ post) := by
  cases h with
  | kept _ h =>
    apply Body.kept
    exact List.forall_mem_append.mpr ⟨h, fun x hx => (hpost x hx).works tag⟩
  | freed pre ev r post' hpre hev hfail hpost' =>
    rw [List.append_assoc]
    apply Body.freed pre ev r (post' ++ post) hpre hev hfail
    exact List.forall_mem_append.mpr ⟨hpost', hpost⟩

/-! ## Programs that work on one tag -/

theorem body_plain {α : Type} {p : Program α} (h : Calls p (Call.Plain tag)) :
    Meets p fun tr _ => Body tag tr := by
  intro tr o hrun
  apply Body.kept
  intro ev hev
  have hplain := h tr o hrun ev hev
  exact ⟨hplain.works, hplain.not_failed ev.2⟩

theorem body_reader {α : Type} {p : Program α} (h : Meets p (ReaderRun tag)) :
    Meets p fun tr _ => Body tag tr := by
  intro tr o hrun
  rcases (h tr o hrun).calls with hkept | ⟨pre, ev, r, res, rfl, hpre, hev, hfail, -⟩
  · exact .kept tr hkept
  · exact .freed pre ev r [] hpre hev hfail (by simp)

theorem body_bind {α β : Type} {p : Program α} {f : α → Program β}
    (hp : Meets p fun tr _ => Body tag tr) (hf : ∀ a, Calls (f a) IsPopup) :
    Meets (p >>= f) fun tr _ => Body tag tr := by
  refine meets_bind hp ?_ fun tr e h => h
  intro tr₁ a h₁ tr₂ o h₂
  exact h₁.append_popups (hf a tr₂ o h₂)

theorem popups_popupMessage (message : Text) : Calls (popupMessage message) IsPopup :=
  calls_perform ⟨message, rfl⟩

end Body

namespace NCursesUI
variable (con : Console)

theorem body_readTag (tag : ℤ) (ui : NCursesUI) :
    Meets (ui.readTag con tag) fun tr _ => Body tag tr := by
  unfold readTag
  split
  · refine body_bind (body_bind (body_plain (calls_readNumericTag _ [] tag [] dataTimeout)) ?_) ?_
    · intro r
      split
      split
      · exact (popups_popupMessage _).bind fun _ => calls_pure _
      · exact calls_pure _
    · exact fun r => calls_pure _
  · refine body_bind (body_bind (body_reader (reader_readStringTag [] tag con.turns [] dataTimeout))
      ?_) ?_
    · intro r
      split
      split
      · exact (popups_popupMessage _).bind fun _ => calls_pure _
      · exact calls_pure _
    · exact fun r => calls_pure _
  · exact body_plain (calls_pure _)

theorem body_writeTag (tag : ℤ) (ui : NCursesUI) :
    Meets (ui.writeTag con tag) fun tr _ => Body tag tr := by
  unfold writeTag
  split
  · refine body_bind (body_bind (body_plain (calls_writeNumericTag _ [] tag _ dataTimeout)) ?_) ?_
    · intro r
      split
      split
      · exact (popups_popupMessage _).bind fun _ => calls_pure _
      · exact calls_pure _
    · exact fun r => calls_pure _
  · refine body_bind (body_bind (body_plain (calls_writeStringTag [] tag _ dataTimeout)) ?_) ?_
    · intro r
      split
      split
      · exact (popups_popupMessage _).bind fun _ => calls_pure _
      · exact calls_pure _
    · exact fun r => calls_pure _
  · exact body_plain (calls_pure _)

theorem body_useTag (f : Field) (tag : ℤ) (ui : NCursesUI) :
    Meets (ui.useTag con f tag) fun tr _ => Body tag tr := by
  unfold useTag
  split
  · exact body_readTag con tag ui
  · exact body_writeTag con tag ui

theorem body_profileRead (kind : Option TagKind) (tag : ℤ) :
    Meets (profileRead con kind tag) fun tr _ => Body tag tr := by
  unfold profileRead
  split
  · exact body_bind (body_plain (calls_readNumericTag _ [] tag [] dataTimeout)) fun _ => calls_pure _
  · exact body_bind (body_reader (reader_readStringTag [] tag con.turns [] dataTimeout)) fun _ =>
      calls_pure _
  · exact body_plain (calls_stop _)

end NCursesUI

/-! ## One tag created -/

/-- Creations own nothing themselves: each handle is the rest of the run's to destroy. -/
theorem owned_append_iff {trC rest : Trace} (hC : ∀ ev ∈ trC, Creates ev.1)
    (hrest : ∀ ev ∈ rest, createdHandle ev = none) :
    Owned (trC ++ rest) ↔ ∀ tag ∈ created trC, Spent tag rest := by
  apply disciplined_append_iff
  · intro ev hev
    have hcreates := hC ev hev
    unfold destroyHandle
    split
    · exact absurd hcreates id
    · rfl
  · exact hrest

theorem creates_not_failed {ev : Event Call.Reply} (h : Creates ev.1) : stringFailed ev = false := by
  obtain ⟨c, r⟩ := ev
  cases c <;> first | rfl | exact h.elim

theorem quiet_append_iff {trC : Trace} (hC : ∀ ev ∈ trC, Creates ev.1) (rest : Trace) :
    (∀ ev ∈ trC ++ rest, stringFailed ev = false) ↔ ∀ ev ∈ rest, stringFailed ev = false := by
  rw [List.forall_mem_append]
  exact and_iff_right fun ev hev => creates_not_failed (hC ev hev)

theorem runs_createTag_bind {α : Type} {s : Text} {timeOutMs : ℤ} {k : ℤ × Text → Program α}
    {tr : Trace} {o : Except Fault α} (h : Runs (createTag [] s timeOutMs >>= k) tr o) :
    ∃ tag es trC rest, tr = trC ++ rest ∧ (∀ ev ∈ trC, Creates ev.1) ∧
      created trC = (if 0 ≤ tag then [tag] else []) ∧ Runs (k (tag, es)) rest o := by
  rcases (runs_bind _ _ _ _).mp h with ⟨trC, rest, r, rfl, h₁, h₂⟩ | ⟨e, rfl, h₁⟩
  · obtain ⟨tag, es, hr, hcreates, hcreated⟩ := NCursesUI.creates_createTag h₁
    cases hr
    exact ⟨tag, es, trC, rest, rfl, hcreates, hcreated, h₂⟩
  · obtain ⟨_, _, hr, -⟩ := runs_createTag h₁
    cases hr

theorem popups_created {rest : Trace} (h : ∀ ev ∈ rest, IsPopup ev.1) :
    ∀ ev ∈ rest, createdHandle ev = none :=
  fun ev hev => Works.not_created ((h ev hev).works 0).1

/-- A tag that a function creates, works on and leaves is destroyed when a failure made the work do
it. -/
theorem owned_left {α : Type} {s : Text} {timeOutMs : ℤ} {k : ℤ × Text → Program α}
    (hneg : ∀ tag es, tag < 0 → Calls (k (tag, es)) IsPopup)
    (hpos : ∀ tag es, 0 ≤ tag → Meets (k (tag, es)) fun tr _ => Body tag tr) :
    Meets (createTag [] s timeOutMs >>= k) fun tr _ =>
      Owned tr ↔ created tr = [] ∨ ∃ ev ∈ tr, stringFailed ev = true := by
  intro tr o h
  obtain ⟨tag, es, trC, rest, rfl, hC, hcreated, hk⟩ := runs_createTag_bind h
  by_cases h0 : 0 ≤ tag
  · have hbody := hpos tag es h0 rest o hk
    have hrest : created rest = [] := List.filterMap_eq_nil_iff.mpr hbody.not_created
    rw [if_pos h0] at hcreated
    rw [owned_append_iff hC hbody.not_created, created_append, hrest, hcreated, List.append_nil,
      List.forall_mem_singleton, hbody.spent_iff]
    constructor
    · rintro ⟨ev, hev, hfail⟩
      exact .inr ⟨ev, List.mem_append_right trC hev, hfail⟩
    · rintro (hnone | ⟨ev, hev, hfail⟩)
      · exact absurd hnone (List.cons_ne_nil _ _)
      · rcases List.mem_append.mp hev with hev | hev
        · rw [creates_not_failed (hC ev hev)] at hfail
          cases hfail
        · exact ⟨ev, hev, hfail⟩
  · have hpopups := popups_created (hneg tag es (by omega) rest o hk)
    rw [if_neg h0] at hcreated
    have hnone : created (trC ++ rest) = [] := by
      rw [created_append, hcreated]
      exact List.filterMap_eq_nil_iff.mpr hpopups
    refine iff_of_true ?_ (.inl hnone)
    rw [owned_append_iff hC hpopups, hcreated]
    simp

namespace NCursesUI
variable (con : Console)

/-- [Read] and [Write] destroy their tag, after its reader has done so too when a string failed. -/
theorem owned_handleEnterKey (f : Field) (ui : NCursesUI) :
    Meets (ui.handleEnterKey con f) fun tr o =>
      Ended o → (Owned tr ↔ ∀ ev ∈ tr, stringFailed ev = false) := by
  intro tr o h hend
  unfold handleEnterKey at h
  split at h
  · obtain ⟨tag, es, trC, rest, rfl, hC, hcreated, hk⟩ := runs_createTag_bind h
    change Runs (if tag < 0 then _ else _) rest o at hk
    by_cases h0 : tag < 0
    · rw [if_pos h0] at hk
      have hpopups : ∀ ev ∈ rest, IsPopup ev.1 :=
        ((popups_popupMessage es).bind fun _ => calls_pure ui) rest o hk
      rw [if_neg (by omega)] at hcreated
      rw [owned_append_iff hC (popups_created hpopups), hcreated]
      refine iff_of_true (by simp) ?_
      rw [quiet_append_iff hC]
      exact fun ev hev => ((hpopups ev hev).works 0).2
    · rw [if_neg h0] at hk
      rw [if_pos (by omega)] at hcreated
      rcases (runs_bind _ _ _ _).mp hk with ⟨trB, trD, ui', rfl, hB, hD⟩ | ⟨e, rfl, hB⟩
      · have hbody := body_useTag con f tag ui trB _ hB
        obtain ⟨r, trD', rfl, rfl, -⟩ := hD
        have hrest : ∀ ev ∈ trB ++ [⟨.destroy tag, r⟩], createdHandle ev = none := by
          rw [List.forall_mem_append, List.forall_mem_singleton]
          exact ⟨hbody.not_created, rfl⟩
        rw [owned_append_iff hC hrest, hcreated, List.forall_mem_singleton,
          hbody.spent_destroy_iff, quiet_append_iff hC, List.forall_mem_append,
          List.forall_mem_singleton]
        exact (and_iff_left rfl).symm
      · -- the tag functions do not raise a signal
        have hfault : TagFault e := ui.yields_useTag con f tag rest _ hB
        rcases hend with ⟨a, ha⟩ | he
        · cases ha
        · cases he
          rcases hfault with h | h | h <;> cases h
  · obtain ⟨rfl, -⟩ := h
    exact iff_of_true trivial (by simp)

/-! ## The profile run -/

/-- The read loop has a reader for the entry's type. -/
def Readable (e : TagEntry) : Prop := profiledKind (getTagType e.type []) ≠ none

/-- A run of the read loop: it destroys tags of its entries only, and only after failures; it gets
through when every entry is readable, and raises a signal at the first that is not. -/
structure ReadLoop (es : List TagEntry) (tr : Trace) (o : Except Fault Unit) : Prop where
  destroys : ∀ ev ∈ tr, ∀ tag, destroyHandle ev = some tag → tag ∈ es.map handleOf
  through : ∀ a, o = .ok a → (∀ e ∈ es, Readable e) ∧
    ((∀ ev ∈ tr, stringFailed ev = false) ∧ (∀ ev ∈ tr, ∀ tag, destroyHandle ev ≠ some tag) ∨
      (∃ ev ∈ tr, stringFailed ev = true) ∧
        ∃ tag ∈ es.map handleOf, ∃ ev ∈ tr, destroyHandle ev = some tag)
  trapped : o = .error .sigtrap → ∃ es₁ e es₂, es = es₁ ++ e :: es₂ ∧ ¬Readable e ∧
    ∀ ev ∈ tr, ∀ tag, destroyHandle ev = some tag → tag ∈ es₁.map handleOf

theorem ReadLoop.cons {e : TagEntry} {es : List TagEntry} {tr₁ tr₂ : Trace}
    {o : Except Fault Unit} (he : Readable e) (h₁ : Body (handleOf e) tr₁)
    (h₂ : ReadLoop es tr₂ o) : ReadLoop (e :: es) (tr₁ ++ tr₂) o := by
  have hdestroys : ∀ (l : List TagEntry),
      (∀ ev ∈ tr₂, ∀ tag, destroyHandle ev = some tag → tag ∈ l.map handleOf) →
        ∀ ev ∈ tr₁ ++ tr₂, ∀ tag, destroyHandle ev = some tag → tag ∈ (e :: l).map handleOf := by
    intro l hl
    rw [List.forall_mem_append]
    refine ⟨fun ev hev tag hd => ?_, fun ev hev tag hd => ?_⟩
    · rw [h₁.destroyed_eq ev hev tag hd]
      exact List.mem_cons_self
    · exact List.mem_cons_of_mem _ (hl ev hev tag hd)
  refine ⟨hdestroys es h₂.destroys, fun a ha => ?_, fun ho => ?_⟩
  · obtain ⟨hreadable, hrest⟩ := h₂.through a ha
    refine ⟨List.forall_mem_cons.mpr ⟨he, hreadable⟩, ?_⟩
    rcases h₁.destroyed with ⟨hquiet, hkept⟩ | ⟨⟨ev, hev, hfail⟩, ev', hev', hd⟩
    · rcases hrest with ⟨hquiet', hkept'⟩ | ⟨⟨ev, hev, hfail⟩, tag, htag, ev', hev', hd⟩
      · rw [List.forall_mem_append, List.forall_mem_append]
        exact .inl ⟨⟨hquiet, hquiet'⟩, hkept, hkept'⟩
      · exact .inr ⟨⟨ev, List.mem_append_right tr₁ hev, hfail⟩, tag, List.mem_cons_of_mem _ htag,
          ev', List.mem_append_right tr₁ hev', hd⟩
    · exact .inr ⟨⟨ev, List.mem_append_left tr₂ hev, hfail⟩, handleOf e, List.mem_cons_self,
        ev', List.mem_append_left tr₂ hev', hd⟩
  · obtain ⟨es₁, e', es₂, rfl, hnot, hrest⟩ := h₂.trapped ho
    exact ⟨e :: es₁, e', es₂, rfl, hnot, hdestroys es₁ hrest⟩

theorem readLoop_readTags (es : List TagEntry) : Meets (readTags con es) (ReadLoop es) := by
  induction es with
  | nil =>
    apply meets_pure
    refine ⟨by simp, fun _ _ => ⟨by simp, .inl ⟨by simp, by simp⟩⟩, by simp⟩
  | cons e es ih =>
    intro tr o h
    rcases (runs_bind _ _ _ _).mp h with ⟨tr₁, tr₂, a, rfl, h₁, h₂⟩ | ⟨e', rfl, h₁⟩
    · exact ReadLoop.cons (yields_profileRead con _ _ tr₁ _ h₁) (body_profileRead con _ _ tr₁ _ h₁)
        (ih tr₂ o h₂)
    · have hbody := body_profileRead con _ _ tr _ h₁
      refine ⟨fun ev hev tag hd => ?_, by simp, fun ho => ?_⟩
      · rw [hbody.destroyed_eq ev hev tag hd]
        exact List.mem_cons_self
      · cases ho
        rcases yields_profileRead con _ _ tr _ h₁ with hfault | ⟨hnone, -⟩
        · rcases hfault with h | h | h <;> cases h
        · refine ⟨[], e, es, rfl, fun hr => hr hnone, fun ev hev tag hd => ?_⟩
          -- an entry without a reader makes no call
          rw [hnone] at h₁
          obtain ⟨rfl, -⟩ := h₁
          exact absurd hev List.not_mem_nil

theorem releases_of_destroy {ev : Event Call.Reply} (h : ∃ tag, ev.1 = .destroy tag) :
    destroyHandle ev = ev.1.handle ∧ stringFailed ev = false := by
  obtain ⟨c, r⟩ := ev
  obtain ⟨tag, hc⟩ := h
  cases hc
  exact ⟨rfl, rfl⟩

theorem spent_destroys {es : List TagEntry} {trD : Trace} (types : Text) (n : ℕ) (fleshed : ℤ)
    (hD : Runs (destroyTags es) trD (.ok ())) (hnodup : (es.map handleOf).Nodup) :
    ∀ tag ∈ es.map handleOf, Spent tag (trD ++ [⟨.profileReport types n fleshed, ()⟩]) := by
  obtain ⟨-, hdestroyed, -⟩ := destroys_destroyTags es trD _ hD
  have hall : destroyed (trD ++ [⟨.profileReport types n fleshed, ()⟩]) = es.map handleOf := by
    rw [destroyed_append, hdestroyed]
    exact List.append_nil _
  intro tag htag
  apply settled_of_nodup
  · rw [List.forall_mem_append, List.forall_mem_singleton]
    refine ⟨fun ev hev tag' huse => ?_, fun tag' huse => by cases huse⟩
    rw [(releases_of_destroy (calls_destroyTags es trD _ hD ev hev)).1]
    exact huse
  · show (destroyed _).Nodup
    rw [hall]
    exact hnodup
  · show tag ∈ destroyed _
    rw [hall]
    exact htag

/-- What the loops after the create loop do for different handles. -/
theorem spent_readAndDestroy_iff (types : Text) (es : List TagEntry) (ui : NCursesUI) {rest : Trace}
    {o : Except Fault NCursesUI} (hrun : Runs (ui.readAndDestroy con types es) rest o)
    (hend : Ended o) (hnodup : (es.map handleOf).Nodup) :
    (∀ tag ∈ es.map handleOf, Spent tag rest) ↔
      (∀ e ∈ es, Readable e) ∧ ∀ ev ∈ rest, stringFailed ev = false := by
  rcases (runs_bind _ _ _ _).mp hrun with ⟨trR, rest, a, rfl, hR, h⟩ | ⟨e, rfl, hR⟩
  · rcases (runs_bind _ _ _ _).mp h with ⟨trD, rest, a', rfl, hD, h⟩ | ⟨e, rfl, hD⟩
    · obtain ⟨r, rest, rfl, rfl, rfl⟩ := h
      have hspent := spent_destroys types es.length ui.tobefleshed hD hnodup
      obtain ⟨-, hdestroyed, -⟩ := destroys_destroyTags es trD _ hD
      obtain ⟨hreadable, hread⟩ := (readLoop_readTags con es trR _ hR).through a rfl
      rcases hread with ⟨hquiet, hkept⟩ | ⟨⟨ev, hev, hfail⟩, tag, htag, hd⟩
      · have hquiet' : ∀ ev ∈ trD, stringFailed ev = false := fun ev hev =>
          (releases_of_destroy (calls_destroyTags es trD _ hD ev hev)).2
        refine iff_of_true (fun tag htag => ?_) ⟨hreadable, ?_⟩
        · exact (spent_append (fun ev hev => hkept ev hev tag) _).mpr (hspent tag htag)
        · rw [List.forall_mem_append, List.forall_mem_append, List.forall_mem_singleton]
          exact ⟨hquiet, hquiet', rfl⟩
      · refine iff_of_false (fun hall => ?_) fun hall => ?_
        · rw [← hdestroyed] at htag
          obtain ⟨ev', hev', hd'⟩ := List.mem_filterMap.mp htag
          refine not_settled_of_used_again hd ⟨ev', List.mem_append_left _ hev', ?_⟩
            (hall tag (hdestroyed ▸ htag))
          rw [← (releases_of_destroy (calls_destroyTags es trD _ hD ev' hev')).1]
          exact hd'
        · rw [hall.2 ev (List.mem_append_left _ hev)] at hfail
          cases hfail
    · obtain ⟨-, -, hok⟩ := destroys_destroyTags es _ _ hD
      cases hok
  · rcases hend with ⟨a, ha⟩ | he
    · cases ha
    · cases he
      obtain ⟨es₁, e, es₂, rfl, hnot, hfirst⟩ := (readLoop_readTags con _ rest _ hR).trapped rfl
      refine iff_of_false (fun hall => ?_) fun hall => hnot (hall.1 e (by simp))
      refine not_settled_of_kept (fun ev hev hd => ?_) (hall (handleOf e) (by simp))
      have hmem := hfirst ev hev _ hd
      rw [List.map_append, List.map_cons, List.nodup_append] at hnodup
      exact hnodup.2.2 _ hmem _ List.mem_cons_self rfl

theorem destroys_readAndDestroy (types : Text) (es : List TagEntry) (ui : NCursesUI) {rest : Trace}
    {o : Except Fault NCursesUI} (hrun : Runs (ui.readAndDestroy con types es) rest o) :
    ∀ ev ∈ rest, ∀ tag, destroyHandle ev = some tag → tag ∈ es.map handleOf := by
  rcases (runs_bind _ _ _ _).mp hrun with ⟨trR, rest, a, rfl, hR, h⟩ | ⟨e, rfl, hR⟩
  · rcases (runs_bind _ _ _ _).mp h with ⟨trD, rest, a', rfl, hD, h⟩ | ⟨e, rfl, hD⟩
    · obtain ⟨r, rest, rfl, rfl, -⟩ := h
      rw [List.forall_mem_append, List.forall_mem_append, List.forall_mem_singleton]
      refine ⟨(readLoop_readTags con es trR _ hR).destroys, fun ev hev tag hd => ?_,
        fun tag hd => by cases hd⟩
      rw [← (destroys_destroyTags es trD _ hD).2.1]
      exact List.mem_filterMap.mpr ⟨ev, hev, hd⟩
    · obtain ⟨-, -, hok⟩ := destroys_destroyTags es _ _ hD
      cases hok
  · exact (readLoop_readTags con es rest _ hR).destroys

end NCursesUI

/-- The entries that a profile run asks tags for, by the reply to its listing. -/
def asked (types : Text) : Trace → List TagEntry
  | ⟨.listTags _ _, (_, es)⟩ :: _ =>
    ((expandTags es).map fun r => NCursesUI.profiled types r.1).getD []
  | _ => []

/-- The entries that a profile run has made tags of, with the handles. -/
def profileMade (types : Text) (tr : Trace) : List (TagEntry × ℤ) := made (asked types tr) tr.tail

theorem profileMade_cons (types gateway path : Text) (rc : ℤ) (es : List TagEntry) (tr : Trace) :
    profileMade types (⟨.listTags gateway path, (rc, es)⟩ :: tr) =
      made (((expandTags es).map fun r => NCursesUI.profiled types r.1).getD []) tr := rfl

/-- Every tag made has a handle of 16 bits and a type that can be read, and no string fails. -/
def Smooth (types : Text) (tr : Trace) : Prop :=
  (∀ p ∈ profileMade types tr, p.2 < 65536 ∧ NCursesUI.Readable p.1) ∧
    ∀ ev ∈ tr, stringFailed ev = false

namespace NCursesUI
variable (con : Console)

theorem park_lt (tag : ℤ) : park tag < 65536 := by
  unfold park
  exact_mod_cast (UInt16.ofInt tag).toNat_lt

theorem map_handleOf_of_fits {ps : List (TagEntry × ℤ)}
    (hnonneg : ∀ tag ∈ ps.map Prod.snd, 0 ≤ tag) (hlt : ∀ tag ∈ ps.map Prod.snd, tag < 65536) :
    (ps.map parked).map handleOf = ps.map Prod.snd := by
  calc (ps.map parked).map handleOf = (ps.map Prod.snd).map park := map_handleOf_parked ps
    _ = (ps.map Prod.snd).map id :=
        List.map_congr_left fun tag htag => (park_eq_iff (hnonneg tag htag)).mpr (hlt tag htag)
    _ = ps.map Prod.snd := List.map_id _

/-- A handle that does not fit is not spent: what the loops destroy are numbers of 16 bits. -/
theorem spent_parked_iff (types : Text) (ps : List (TagEntry × ℤ)) (ui : NCursesUI) {rest : Trace}
    {o : Except Fault NCursesUI} (hrun : Runs (ui.readAndDestroy con types (ps.map parked)) rest o)
    (hend : Ended o) (hnonneg : ∀ tag ∈ ps.map Prod.snd, 0 ≤ tag)
    (hnodup : (ps.map Prod.snd).Nodup) :
    (∀ tag ∈ ps.map Prod.snd, Spent tag rest) ↔
      (∀ p ∈ ps, p.2 < 65536 ∧ Readable p.1) ∧ ∀ ev ∈ rest, stringFailed ev = false := by
  have hreadable : (∀ e ∈ ps.map parked, Readable e) ↔ ∀ p ∈ ps, Readable p.1 := List.forall_mem_map
  have hfit : (∀ tag ∈ ps.map Prod.snd, tag < 65536) →
      ((∀ tag ∈ ps.map Prod.snd, Spent tag rest) ↔
        (∀ p ∈ ps, Readable p.1) ∧ ∀ ev ∈ rest, stringFailed ev = false) := by
    intro hlt
    have hhandles := map_handleOf_of_fits hnonneg hlt
    have hiff := spent_readAndDestroy_iff con types _ ui hrun hend (hhandles ▸ hnodup)
    rwa [hhandles, hreadable] at hiff
  constructor
  · intro hspent
    have hlt : ∀ tag ∈ ps.map Prod.snd, tag < 65536 := by
      intro tag htag
      obtain ⟨before, ev, after, rfl, hd, -, -⟩ := (settled_iff rest).mp (hspent tag htag)
      have hmem := destroys_readAndDestroy con types _ ui hrun ev (by simp) tag hd
      rw [map_handleOf_parked] at hmem
      obtain ⟨tag', -, rfl⟩ := List.mem_map.mp hmem
      exact park_lt tag'
    obtain ⟨hread, hall⟩ := (hfit hlt).mp hspent
    exact ⟨fun p hp => ⟨hlt p.2 (List.mem_map_of_mem hp), hread p hp⟩, hall⟩
  · rintro ⟨hps, hall⟩
    refine (hfit ?_).mpr ⟨fun p hp => (hps p hp).2, hall⟩
    intro tag htag
    obtain ⟨p, hp, rfl⟩ := List.mem_map.mp htag
    exact (hps p hp).1

theorem owned_profileTags (types : Text) (ui : NCursesUI) :
    Meets (ui.profileTags con types) fun tr o =>
      Ended o → (created tr).Nodup → (Owned tr ↔ Smooth types tr) := by
  intro tr o hrun hend hnodup
  cases runs_profileTags con ui types hrun with
  | trapped gateway path rc es hes =>
    have hmade : profileMade types [⟨.listTags gateway path, (rc, es)⟩] = [] := by
      rw [profileMade_cons, hes]
      rfl
    refine iff_of_true (disciplined_of_none ?_) ⟨?_, ?_⟩
    · exact List.forall_mem_singleton.mpr rfl
    · rw [hmade]
      exact List.forall_mem_nil _
    · exact List.forall_mem_singleton.mpr rfl
  | unshown gateway path rc fleshed es entries trC e hes hloop he hfield =>
    rcases hend with ⟨a, ha⟩ | ho
    · cases ha
    · cases ho
      cases he
  | shown gateway path rc fleshed es entries trC rest ui' o hes hloop hshape hrest =>
    set ps := made (profiled types entries) trC with hps
    have hmade : profileMade types (⟨.listTags gateway path, (rc, es)⟩ :: (trC ++ rest)) = ps := by
      rw [profileMade_cons, hes]
      exact hloop.made_append rest
    have hquiet : ∀ ev ∈ rest, createdHandle ev = none := fun ev hev =>
      createdHandle_eq_none (calls_readAndDestroy con ui' types _ rest _ hrest ev hev)
    have hcreated : created (⟨.listTags gateway path, (rc, es)⟩ :: (trC ++ rest)) =
        ps.map Prod.snd := by
      have hnone : created rest = [] := List.filterMap_eq_nil_iff.mpr hquiet
      show created (trC ++ rest) = _
      rw [created_append, hnone, List.append_nil, hloop.created]
    have howned : Owned (⟨.listTags gateway path, (rc, es)⟩ :: (trC ++ rest)) ↔
        ∀ tag ∈ ps.map Prod.snd, Spent tag rest := by
      rw [← hloop.created, ← owned_append_iff hloop.creates hquiet]
      exact and_iff_right fun tag htag => by cases htag
    have hfailed : (∀ ev ∈ ⟨.listTags gateway path, (rc, es)⟩ :: (trC ++ rest),
        stringFailed ev = false) ↔ ∀ ev ∈ rest, stringFailed ev = false := by
      rw [List.forall_mem_cons, quiet_append_iff hloop.creates]
      exact and_iff_right rfl
    have hnonneg : ∀ tag ∈ ps.map Prod.snd, 0 ≤ tag := by
      rw [← hcreated]
      exact created_nonneg _
    rw [hcreated] at hnodup
    unfold Smooth
    rw [howned, hmade, hfailed]
    exact spent_parked_iff con types ps ui' hrest hend hnonneg hnodup

end NCursesUI

/-! ## The operations that create tags -/

inductive Operation
  | handleEnterKey (f : Field) (ui : NCursesUI)
  | profileTags (types : Text) (ui : NCursesUI)
  | readTestNumeric (t : ElemType) (values : List t.Val) (x : Example)
  | writeTestNumeric (t : ElemType) (values : List t.Val) (x : Example)
  | readTestString (values : List Text) (x : Example)
  | writeTestString (values : List Text) (x : Example)

namespace Operation

def run (con : Console) : Operation → Program Unit
  | .handleEnterKey f ui => ui.handleEnterKey con f >>= fun _ => pure ()
  | .profileTags types ui => ui.profileTags con types >>= fun _ => pure ()
  | .readTestNumeric t values x => x.readTestNumeric t values >>= fun _ => pure ()
  | .writeTestNumeric t values x => x.writeTestNumeric t values >>= fun _ => pure ()
  | .readTestString values x => x.readTestString con.turns values >>= fun _ => pure ()
  | .writeTestString values x => x.writeTestString values >>= fun _ => pure ()

/-- When the operation destroys what it creates. -/
def Balanced : Operation → Trace → Prop
  | .handleEnterKey _ _, tr => ∀ ev ∈ tr, stringFailed ev = false
  | .profileTags types _, tr => Smooth types tr
  | _, tr => created tr = [] ∨ ∃ ev ∈ tr, stringFailed ev = true

end Operation

theorem runs_discard {α : Type} {p : Program α} {tr : Trace} {o : Except Fault Unit}
    (h : Runs (p >>= fun _ => pure ()) tr o) : ∃ o', Runs p tr o' ∧ (Ended o → Ended o') := by
  rcases (runs_bind _ _ _ _).mp h with ⟨tr₁, tr₂, a, rfl, h₁, rfl, rfl⟩ | ⟨e, rfl, h₁⟩
  · rw [List.append_nil]
    exact ⟨.ok a, h₁, fun _ => .inl ⟨a, rfl⟩⟩
  · refine ⟨.error e, h₁, ?_⟩
    rintro (⟨a, ha⟩ | he)
    · cases ha
    · cases he
      exact .inr rfl

section Examples
variable (x : Example)

/-- The shape of an example: create, give up or work on the tag, and return. -/
theorem owned_example {α β : Type} {s : Text} {k : ℤ × Text → Program α} (refused : ℤ → Text → α)
    (work : ℤ → Text → Program β) (finish : β → Program α)
    (hk : ∀ tag es, k (tag, es) = if tag < 0 then pure (refused tag es) else work tag es >>= finish)
    (hwork : ∀ tag es, Meets (work tag es) fun tr _ => Body tag tr)
    (hfinish : ∀ r, Calls (finish r) IsPopup) :
    Meets (createTag [] s dataTimeout >>= k) fun tr _ =>
      Owned tr ↔ created tr = [] ∨ ∃ ev ∈ tr, stringFailed ev = true := by
  apply owned_left
  · intro tag es h0
    rw [hk, if_pos h0]
    exact calls_pure _
  · intro tag es h0
    rw [hk, if_neg (not_lt.mpr h0)]
    exact body_bind (hwork tag es) hfinish

theorem owned_readTestNumeric (t : ElemType) (values : List t.Val) :
    Meets (x.readTestNumeric t values) fun tr _ =>
      Owned tr ↔ created tr = [] ∨ ∃ ev ∈ tr, stringFailed ev = true := by
  apply owned_example _ _ _ fun _ _ => rfl
  · exact fun tag es => body_plain (calls_readNumericTag t es tag values dataTimeout)
  · intro r
    dsimp only
    split <;> exact calls_pure _

theorem owned_writeTestNumeric (t : ElemType) (values : List t.Val) :
    Meets (x.writeTestNumeric t values) fun tr _ =>
      Owned tr ↔ created tr = [] ∨ ∃ ev ∈ tr, stringFailed ev = true := by
  apply owned_example _ _ _ fun _ _ => rfl
  · exact fun tag es => body_plain (calls_writeNumericTag t es tag values dataTimeout)
  · intro r
    dsimp only
    split <;> exact calls_pure _

theorem owned_readTestString (turns : ℕ) (values : List Text) :
    Meets (x.readTestString turns values) fun tr _ =>
      Owned tr ↔ created tr = [] ∨ ∃ ev ∈ tr, stringFailed ev = true := by
  apply owned_example _ _ _ fun _ _ => rfl
  · exact fun tag es => body_reader (reader_readStringTag es tag turns values dataTimeout)
  · intro r
    dsimp only
    split <;> exact calls_pure _

theorem owned_writeTestString (values : List Text) :
    Meets (x.writeTestString values) fun tr _ =>
      Owned tr ↔ created tr = [] ∨ ∃ ev ∈ tr, stringFailed ev = true := by
  apply owned_example _ _ _ fun _ _ => rfl
  · exact fun tag es => body_plain (calls_writeStringTag es tag values dataTimeout)
  · intro r
    dsimp only
    split <;> exact calls_pure _

end Examples

namespace Operation

/-- In a run that ends, and in which no handle is created twice, every handle that is created is
destroyed once and not used again, if and only if the operation is balanced. -/
theorem owned_iff_balanced (con : Console) (op : Operation) (tr : Trace) (o : Except Fault Unit)
    (hrun : Runs (op.run con) tr o) (hend : Ended o) (hnodup : (created tr).Nodup) :
    Owned tr ↔ op.Balanced tr := by
  cases op with
  | handleEnterKey f ui =>
    obtain ⟨o', h, hended⟩ := runs_discard hrun
    exact NCursesUI.owned_handleEnterKey con f ui tr o' h (hended hend)
  | profileTags types ui =>
    obtain ⟨o', h, hended⟩ := runs_discard hrun
    exact NCursesUI.owned_profileTags con types ui tr o' h (hended hend) hnodup
  | readTestNumeric t values x =>
    obtain ⟨o', h, -⟩ := runs_discard hrun
    exact owned_readTestNumeric x t values tr o' h
  | writeTestNumeric t values x =>
    obtain ⟨o', h, -⟩ := runs_discard hrun
    exact owned_writeTestNumeric x t values tr o' h
  | readTestString values x =>
    obtain ⟨o', h, -⟩ := runs_discard hrun
    exact owned_readTestString x con.turns values tr o' h
  | writeTestString values x =>
    obtain ⟨o', h, -⟩ := runs_discard hrun
    exact owned_writeTestString x values tr o' h

theorem owned_profile_dint :
    Owned (trace World.serve ((profileTags [] (NCursesUI.initial [])).run Console.plain)
      (NCursesUI.dintWorld 7)) := by
  have hmade : profileMade [] (trace World.serve ((profileTags [] (NCursesUI.initial [])).run
      Console.plain) (NCursesUI.dintWorld 7)) =
        [(⟨[], text "LEVEL", [], 1, 0x00C4, 4, 1, 0, fun _ => 0⟩, 7)] := by decide +kernel
  apply (owned_iff_balanced Console.plain (profileTags [] (NCursesUI.initial [])) _ _
    (runs_trace World.serve _ (NCursesUI.dintWorld 7)) (.inl ⟨(), rfl⟩) (by decide +kernel)).mpr
  refine ⟨?_, by decide +kernel⟩
  rw [hmade, List.forall_mem_singleton]
  refine ⟨by decide, ?_⟩
  unfold NCursesUI.Readable
  decide +kernel

/-- The screen with the type STRING, on a tag whose library has no memory for a string. -/
def readFailing : Operation :=
  .handleEnterKey ⟨(sec2Table 3).toForm, (NCursesUI.initial [text "Type:=STRING"]).sec2 3⟩
    (NCursesUI.initial [text "Type:=STRING"])

def failingWorld : World :=
  { World.bench 7 swappedStrings.1 { swappedStrings.2 with memory := List.replicate 12 0 } [] with
    malloc := fun _ => false }

/-- [Read] destroys the tag a second time when its reader has done so. -/
theorem read_destroys_twice :
    ¬(∀ (con : Console) (op : Operation) (tr : Trace) (o : Except Fault Unit),
      Runs (op.run con) tr o → Ended o → (created tr).Nodup → Owned tr) := by
  intro h
  have howned := h Console.plain readFailing _ _
    (runs_trace World.serve (readFailing.run Console.plain) failingWorld) (.inl ⟨(), rfl⟩)
    (by decide +kernel)
  have hnot : ¬Owned (trace World.serve (readFailing.run Console.plain) failingWorld) := by
    decide +kernel
  exact hnot howned

end Operation

end Plctagt.Gui
