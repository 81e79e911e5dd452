import Plctagt.Foundations.Lines
import Plctagt.Foundations.Lockstep
import Plctagt.Foundations.Recent
import Plctagt.Gui.Run

/-! # The tag history

The options of the Tagname field are the tags used last. `storeCurrentTag` puts the tag in front,
cuts the list to `TAG_HISTORY_MAX` and takes out the repetition afterwards. So the list stays one of
at most ten different tags; but when it is full and the tag is already in it, other than as the
oldest, the oldest is cut for nothing.
-/
namespace Plctagt.Gui
open Effects Decimal Tag Lines Lockstep Recent
set_option autoImplicit false

/-- What `saveTagHistory` writes. -/
def tagHistoryText (tags : List Text) : Text := unlines 10 tags

namespace NCursesUI
variable {ui : NCursesUI}

def history (ui : NCursesUI) : List Text := (ui.sec2 1).options

/-- A tag is typed or chosen, and the field is left. -/
def storeTag (v : Text) (ui : NCursesUI) : Program NCursesUI := (ui.setValue 1 1 v).storeCurrentTag

def storeTags (vs : List Text) (ui : NCursesUI) : Program NCursesUI :=
  vs.foldl (fun p v => p >>= storeTag v) (pure ui)

/-- The run ends well, with this history, and the history is what was saved last. -/
def Saves (p : Program NCursesUI) (h : List Text) : Prop :=
  ∃ tr ui', (∀ tr' o, Runs p tr' o ↔ tr' = tr ∧ o = .ok ui') ∧ ui'.history = h ∧
    (tr = [] ∨ tr.getLast? = some ⟨.saveTagHistory h, ()⟩)

/-! ## One store -/

/-- The screen after a tag is stored. -/
def stored (v : Text) (ui : NCursesUI) : NCursesUI :=
  { ui with sec2 := Function.update ui.sec2 1 (Entry.mk v (cutFirst tagHistoryMax v ui.history)) }

theorem storeCurrentTag_eq (h : ui.getTagname ≠ []) :
    ui.storeCurrentTag =
      perform (.saveTagHistory (ui.stored ui.getTagname).history) >>=
        fun _ => pure (ui.stored ui.getTagname) :=
  if_neg h

theorem storeTag_eq {v : Text} (hv : v ≠ []) :
    ui.storeTag v =
      perform (.saveTagHistory (ui.stored v).history) >>= fun _ => pure (ui.stored v) := by
  have hstored : (ui.setValue 1 1 v).stored v = ui.stored v := by
    have hset : (ui.setValue 1 1 v).sec2 = Function.update ui.sec2 1 ⟨v, ui.history⟩ := rfl
    rw [stored, hset, Function.update_idem]
    rfl
  have hvalue : (ui.setValue 1 1 v).getTagname ≠ [] := hv
  rw [storeTag, storeCurrentTag_eq hvalue]
  exact congrArg (fun ui' : NCursesUI =>
    (perform (Call.saveTagHistory ui'.history) >>= fun _ => pure ui' : Program NCursesUI)) hstored

theorem runs_storeTag {v : Text} (hv : v ≠ []) (tr : Trace) (o : Except Fault NCursesUI) :
    Runs (ui.storeTag v) tr o ↔
      tr = [⟨.saveTagHistory (ui.stored v).history, ()⟩] ∧ o = .ok (ui.stored v) := by
  rw [storeTag_eq hv, runs_perform_bind]
  constructor
  · rintro ⟨⟨⟩, tr', rfl, rfl, rfl⟩
    exact ⟨rfl, rfl⟩
  · rintro ⟨rfl, rfl⟩
    exact ⟨(), [], rfl, rfl, rfl⟩

theorem saves_pure (ui : NCursesUI) : Saves (pure ui) ui.history :=
  ⟨[], ui, fun _ _ => Iff.rfl, rfl, .inl rfl⟩

theorem Saves.storeTag {p : Program NCursesUI} {h : List Text} (hp : Saves p h) {v : Text}
    (hv : v ≠ []) : Saves (p >>= NCursesUI.storeTag v) (cutFirst tagHistoryMax v h) := by
  obtain ⟨tr, ui', hruns, rfl, -⟩ := hp
  have hrun : Runs p tr (.ok ui') := (hruns tr (.ok ui')).mpr ⟨rfl, rfl⟩
  refine ⟨tr ++ [⟨.saveTagHistory (ui'.stored v).history, ()⟩], ui'.stored v, fun tr' o => ?_, rfl,
    .inr (List.getLast?_concat ..)⟩
  constructor
  · intro h
    rcases (runs_bind _ _ _ _).mp h with ⟨tr₁, tr₂, a, rfl, h₁, h₂⟩ | ⟨e, rfl, h₁⟩
    · obtain ⟨rfl, ha⟩ := (hruns tr₁ (.ok a)).mp h₁
      obtain rfl := Except.ok.inj ha
      obtain ⟨rfl, rfl⟩ := (runs_storeTag hv tr₂ o).mp h₂
      exact ⟨rfl, rfl⟩
    · have hend := ((hruns tr' (.error e)).mp h₁).2
      cases hend
  · rintro ⟨rfl, rfl⟩
    exact (hrun.bind_iff _ _ _).mpr ((runs_storeTag hv _ _).mpr ⟨rfl, rfl⟩)

theorem Saves.unique {p : Program NCursesUI} {h h' : List Text} (hp : Saves p h)
    (hp' : Saves p h') : h = h' := by
  obtain ⟨tr, ui₁, hruns, rfl, -⟩ := hp
  obtain ⟨tr', ui₂, hruns', rfl, -⟩ := hp'
  obtain ⟨-, ho⟩ := (hruns' tr (.ok ui₁)).mp ((hruns tr (.ok ui₁)).mpr ⟨rfl, rfl⟩)
  rw [Except.ok.inj ho]

/-! ## Any sequence of stores -/

theorem saves_storeTags (h : Tidy tagHistoryMax ui.history) {vs : List Text}
    (hvs : ∀ v ∈ vs, v ≠ []) :
    ∃ h', Saves (ui.storeTags vs) h' ∧ Tidy tagHistoryMax h' ∧ ∀ t ∈ h', t ∈ ui.history ++ vs := by
  induction vs using List.reverseRecOn with
  | nil =>
    refine ⟨ui.history, saves_pure ui, h, fun t ht => ?_⟩
    rwa [List.append_nil]
  | append_singleton vs v ih =>
    obtain ⟨h', hsaves, htidy, hmem⟩ := ih fun t ht => hvs t (List.mem_append_left _ ht)
    have hv := hvs v (List.mem_append_right _ List.mem_cons_self)
    refine ⟨cutFirst tagHistoryMax v h', ?_, tidy_cutFirst htidy.nodup v, fun t ht => ?_⟩
    · rw [storeTags, List.foldl_concat]
      exact hsaves.storeTag hv
    · rw [← List.append_assoc]
      rcases List.mem_cons.mp (List.mem_of_mem_take (List.mem_eraseDups.mp ht)) with rfl | ht
      · exact List.mem_append_right _ List.mem_cons_self
      · exact List.mem_append_left _ (hmem t ht)

/-- From a history of at most ten different tags, after any sequence of stores: the history is one
again, and the file reads back as it. It is the tag, followed by the others in their order, cut to
ten, after every store of the sequence just when none is made in a crowded history; and a tag that is
chosen again loses no entry just then. -/
theorem storeTags_touch_iff (h : Tidy tagHistoryMax ui.history) {vs : List Text}
    (hvs : ∀ v ∈ vs, v ≠ []) :
    (∃ h', Saves (ui.storeTags vs) h' ∧ Tidy tagHistoryMax h' ∧
      ((∀ t ∈ ui.history ++ vs, (10 : UInt8) ∉ t) → lines 10 (tagHistoryText h') = h')) ∧
    ((∀ p, p <+: vs →
        Saves (ui.storeTags p) (p.foldl (fun h v => touch tagHistoryMax v h) ui.history) ∧
        Tidy tagHistoryMax (p.foldl (fun h v => touch tagHistoryMax v h) ui.history)) ↔
      Along (fun h v => touch tagHistoryMax v h) (fun h v => ¬Crowded tagHistoryMax v h)
        ui.history vs) ∧
    ∀ v ∈ ui.history, v ≠ [] → ∃ h', Saves (ui.storeTag v) h' ∧
      ((∀ t ∈ ui.history, t ∈ h') ↔ ¬Crowded tagHistoryMax v ui.history) := by
  refine ⟨?_, ?_, fun v hmem hv => ?_⟩
  · obtain ⟨h', hsaves, htidy, hmem⟩ := saves_storeTags h hvs
    refine ⟨h', hsaves, htidy, fun hline => lines_unlines 10 h' fun t ht => ?_⟩
    exact hline t (hmem t ht)
  · refine prefix_iff (R := fun p h => Saves p h ∧ Tidy tagHistoryMax h) (fun _ _ hp => hp)
      (fun p h' v hv hp hr => ?_) (fun p h' v hv hp hc => ?_) ⟨saves_pure ui, h⟩
    · exact (cutFirst_eq_touch_iff hp.2).mp ((hp.1.storeTag (hvs v hv)).unique hr.1)
    · have heq : cutFirst tagHistoryMax v h' = touch tagHistoryMax v h' := cutFirst_eq_touch hp.2 hc
      rw [← heq]
      exact ⟨hp.1.storeTag (hvs v hv), tidy_cutFirst hp.2.nodup v⟩
  · exact ⟨cutFirst tagHistoryMax v ui.history, (saves_pure ui).storeTag hv, subset_cutFirst_iff h hmem⟩

def tags (names : List String) : List Text := names.map text

theorem storeTags_touch_iff_chosen :
    Saves (((initial []).loadTagHistory (tags ["B", "A"])).storeTags (tags ["A", "C"]))
      (tags ["C", "A", "B"]) := by
  have htidy : Tidy tagHistoryMax ((initial []).loadTagHistory (tags ["B", "A"])).history :=
    ⟨by decide, by decide⟩
  have hne : ∀ v ∈ tags ["A", "C"], v ≠ [] := by decide
  have halong := (storeTags_touch_iff htidy hne).2.1.mpr ⟨by decide, by decide, trivial⟩
  exact (halong (tags ["A", "C"]) (List.prefix_refl _)).1

def tenTags : NCursesUI :=
  (initial []).loadTagHistory (tags ["A", "B", "C", "D", "E", "F", "G", "H", "I", "J"])

/-- Ten tags are in the history, and the one in front is used again: the last one is lost. -/
theorem storeTag_loses :
    Tidy tagHistoryMax tenTags.history ∧ text "A" ∈ tenTags.history ∧
      Saves (tenTags.storeTag (text "A")) (tags ["A", "B", "C", "D", "E", "F", "G", "H", "I"]) ∧
      ¬Saves (tenTags.storeTag (text "A")) (touch tagHistoryMax (text "A") tenTags.history) := by
  have hcut : cutFirst tagHistoryMax (text "A") tenTags.history =
      tags ["A", "B", "C", "D", "E", "F", "G", "H", "I"] := by decide
  have hsaves : Saves (tenTags.storeTag (text "A"))
      (tags ["A", "B", "C", "D", "E", "F", "G", "H", "I"]) :=
    hcut ▸ (saves_pure tenTags).storeTag (by decide : text "A" ≠ [])
  refine ⟨⟨by decide, by decide⟩, by decide, hsaves, fun h => ?_⟩
  exact absurd (hsaves.unique h) (by decide)

end NCursesUI

end Plctagt.Gui
