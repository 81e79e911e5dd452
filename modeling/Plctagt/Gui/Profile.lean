import Plctagt.Gui.Shape

/-! # The loops of a profile run

What the create loop of `profileTags` keeps is read off its trace (`made`): the entries for which
`createTag` returned a handle, each with that handle. The loops after it make no tags.
-/
namespace Plctagt.Gui
open Effects Decimal Tag
set_option autoImplicit false

/-! ## The create loop -/

/-- The entries of which the trace of a create loop made tags, with the handles. Each entry takes a
version check and, when that succeeds, a creation. -/
def made : List TagEntry → Trace → List (TagEntry × ℤ)
  | e :: es, ⟨.checkLibVersion, rc⟩ :: tr =>
    if rc ≠ plctagStatusOk then made es tr
    else
      match tr with
      | ⟨.create _ _, tag⟩ :: tr => if 0 ≤ tag then (e, tag) :: made es tr else made es tr
      | _ => []
  | _, _ => []

def parked (p : TagEntry × ℤ) : TagEntry := { p.1 with instanceId := UInt16.ofInt p.2 }

def Creates : Call → Prop
  | .checkLibVersion => True
  | .create _ _ => True
  | _ => False

structure CreateLoop (es : List TagEntry) (tr : Trace) : Prop where
  creates : ∀ ev ∈ tr, Creates ev.1
  created : created tr = (made es tr).map Prod.snd
  made_append : ∀ rest, made es (tr ++ rest) = made es tr

namespace NCursesUI

theorem creates_createTag {s : Text} {timeOutMs : ℤ} {tr : Trace}
    {o : Except Fault (ℤ × Text)} (h : Runs (createTag [] s timeOutMs) tr o) :
    ∃ tag es, o = .ok (tag, es) ∧ (∀ ev ∈ tr, Creates ev.1) ∧
      created tr = if 0 ≤ tag then [tag] else [] := by
  obtain ⟨tag, es, rfl, ⟨rfl, rc, -, rfl⟩ | rfl⟩ := runs_createTag h
  · refine ⟨-1001, es, rfl, ?_, rfl⟩
    intro ev hev
    obtain rfl := List.mem_singleton.mp hev
    trivial
  · refine ⟨tag, es, rfl, ?_, ?_⟩
    · intro ev hev
      rcases List.mem_cons.mp hev with rfl | hev
      · trivial
      · obtain rfl := List.mem_singleton.mp hev
        trivial
    · rw [created, List.filterMap_cons_none rfl, List.filterMap_cons, createdHandle_create]
      by_cases h0 : 0 ≤ tag
      · simp [h0]
      · simp [h0]

theorem made_cons (e : TagEntry) (es : List TagEntry) {s : Text} {timeOutMs : ℤ} {tr₁ : Trace}
    {o : Except Fault (ℤ × Text)} (h : Runs (createTag [] s timeOutMs) tr₁ o) :
    ∃ tag es', o = .ok (tag, es') ∧ (∀ ev ∈ tr₁, Creates ev.1) ∧
      created tr₁ = (if 0 ≤ tag then [tag] else []) ∧
      ∀ tr, made (e :: es) (tr₁ ++ tr) =
        if 0 ≤ tag then (e, tag) :: made es tr else made es tr := by
  obtain ⟨tag, es', ho, hcreates, hcreated⟩ := creates_createTag h
  refine ⟨tag, es', ho, hcreates, hcreated, fun tr => ?_⟩
  obtain ⟨tag', es'', ho', ⟨rfl, rc, hrc, rfl⟩ | rfl⟩ := runs_createTag h
  · cases ho.symm.trans ho'
    exact if_pos hrc
  · cases ho.symm.trans ho'
    rfl

theorem runs_createTags (ui : NCursesUI) (es : List TagEntry) {tr : Trace}
    {o : Except Fault (List Text × List TagEntry)} (h : Runs (ui.createTags es) tr o) :
    o = .ok ((made es tr).map fun p => formatTagDisplay p.1 10, (made es tr).map parked) ∧
      CreateLoop es tr := by
  induction es generalizing tr o with
  | nil =>
    obtain ⟨rfl, rfl⟩ := h
    exact ⟨rfl, fun ev hev => absurd hev List.not_mem_nil, rfl, fun rest => rfl⟩
  | cons e es ih =>
    rcases (runs_bind _ _ _ _).mp h with ⟨tr₁, tr', r, rfl, h₁, h⟩ | ⟨e', rfl, h₁⟩
    · obtain ⟨tag, es', hr, hcreates₁, hcreated₁, hmade⟩ := made_cons e es h₁
      cases hr
      rcases (runs_bind _ _ _ _).mp h with ⟨tr₂, tr₃, r, rfl, h₂, h₃⟩ | ⟨e', rfl, h₂⟩
      · obtain ⟨hr, hloop⟩ := ih h₂
        cases hr
        have hres : tr₃ = [] ∧ o = .ok ((made (e :: es) (tr₁ ++ tr₂)).map
            fun p => formatTagDisplay p.1 10, (made (e :: es) (tr₁ ++ tr₂)).map parked) := by
          rw [hmade]
          by_cases h0 : 0 ≤ tag
          · simp only [not_lt.mpr h0, if_false, runs_pure] at h₃
            rw [if_pos h0]
            exact h₃
          · simp only [not_le.mp h0, if_true, runs_pure] at h₃
            rw [if_neg h0]
            exact h₃
        obtain ⟨rfl, rfl⟩ := hres
        rw [List.append_nil]
        refine ⟨rfl, fun ev hev => ?_, ?_, fun rest => ?_⟩
        · exact (List.mem_append.mp hev).elim (hcreates₁ ev) (hloop.creates ev)
        · rw [created_append, hcreated₁, hloop.created, hmade]
          split <;> rfl
        · rw [List.append_assoc, hmade, hmade, hloop.made_append]
      · obtain ⟨hr, -⟩ := ih h₂
        cases hr
    · obtain ⟨_, _, hr, -⟩ := made_cons e es h₁
      cases hr

/-! ## The loops after it -/

variable (con : Console)

theorem calls_profileRead (kind : Option TagKind) (tag : ℤ) :
    Calls (profileRead con kind tag) fun c => ∀ s t, c ≠ .create s t := by
  have hplain : ∀ c : Call, c.Works tag → ∀ s t, c ≠ .create s t := by
    rintro c hc s t rfl
    exact hc
  cases kind with
  | none => exact calls_stop _
  | some kind =>
    cases kind with
    | elem t =>
      exact ((calls_readNumericTag t [] tag [] dataTimeout).weaken fun c hc =>
        hplain c hc.works).bind fun _ => calls_pure _
    | string =>
      refine Calls.bind (Meets.weaken (reader_readStringTag [] tag con.turns [] dataTimeout)
        fun tr o h ev hev => ?_) fun _ => calls_pure _
      rcases h.calls with h | ⟨pre, ev', r, res, rfl, hpre, hev', -⟩
      · exact hplain _ (h ev hev).1
      · rcases List.mem_append.mp hev with hev | hev
        · exact hplain _ (hpre ev hev).1
        · rcases List.mem_cons.mp hev with rfl | hev
          · exact hplain _ hev'
          · obtain rfl := List.mem_singleton.mp hev
            intro s t
            nofun

theorem calls_readTags (es : List TagEntry) :
    Calls (readTags con es) fun c => ∀ s t, c ≠ .create s t := by
  induction es with
  | nil => exact calls_pure _
  | cons e es ih => exact (calls_profileRead con _ _).bind fun _ => ih

theorem runs_displayTags (ui : NCursesUI) {tr : Trace} {o : Except Fault NCursesUI}
    (h : Runs (ui.displayTags con) tr o) :
    ∃ gateway path rc es ui', tr = [⟨.listTags gateway path, (rc, es)⟩] ∧ o = .ok ui' ∧
      ui'.shape = ui.shape.resize es.length := by
  obtain ⟨⟨rc, es⟩, tr', rfl, rfl, rfl⟩ := h
  refine ⟨_, _, rc, es, _, rfl, rfl, ?_⟩
  rw [shape_updateSection3FromVector, shape_setStringType, List.length_map]

/-- The runs of `profileTags`: it stops at an entry it cannot expand, or at the redraw after the
create loop, or goes on with the other loops over the tags that were made. -/
inductive ProfileRun (ui : NCursesUI) (types : Text) : Trace → Except Fault NCursesUI → Prop
  | trapped (gateway path : Text) (rc : ℤ) (es : List TagEntry) (hes : expandTags es = none) :
      ProfileRun ui types [⟨.listTags gateway path, (rc, es)⟩] (.error .sigtrap)
  | unshown (gateway path : Text) (rc fleshed : ℤ) (es entries : List TagEntry) (tr : Trace)
      (e : Fault) (hes : expandTags es = some (entries, fleshed))
      (hloop : CreateLoop (profiled types entries) tr) (he : e = .fieldIndex)
      (h : (ui.shape.resize (created tr).length).size ui.actSec ≤ ui.actField) :
      ProfileRun ui types (⟨.listTags gateway path, (rc, es)⟩ :: tr) (.error e)
  | shown (gateway path : Text) (rc fleshed : ℤ) (es entries : List TagEntry) (tr rest : Trace)
      (ui' : NCursesUI) (o : Except Fault NCursesUI)
      (hes : expandTags es = some (entries, fleshed))
      (hloop : CreateLoop (profiled types entries) tr)
      (hshape : ui'.shape = ui.shape.resize (created tr).length)
      (hrun : Runs (ui'.readAndDestroy con types ((made (profiled types entries) tr).map parked))
        rest o) :
      ProfileRun ui types (⟨.listTags gateway path, (rc, es)⟩ :: (tr ++ rest)) o

theorem runs_profileTags (ui : NCursesUI) (types : Text) {tr : Trace}
    {o : Except Fault NCursesUI} (h : Runs (ui.profileTags con types) tr o) :
    ProfileRun con ui types tr o := by
  unfold profileTags at h
  obtain ⟨⟨rc, es⟩, tr', rfl, h⟩ := h
  dsimp only [Prog.bind, pure] at h
  cases hes : expandTags es with
  | none =>
    rw [hes] at h
    obtain ⟨rfl, rfl⟩ := h
    exact .trapped _ _ rc es hes
  | some r =>
    obtain ⟨entries, fleshed⟩ := r
    rw [hes] at h
    rcases (runs_bind _ _ _ _).mp h with ⟨trC, rest, r, rfl, hC, h⟩ | ⟨e, rfl, hC⟩
    · obtain ⟨hr, hloop⟩ := runs_createTags _ _ hC
      cases hr
      set ui₁ := (({ ui with tobefleshed := ui.tobefleshed + fleshed } : NCursesUI).setStringType
        con).updateSection3FromVector con
          ((made (profiled types entries) trC).map fun p => formatTagDisplay p.1 10) with hui₁
      have hshape : ui₁.shape = ui.shape.resize (created trC).length := by
        rw [hui₁, shape_updateSection3FromVector, shape_setStringType, hloop.created,
          List.length_map, List.length_map]
        rfl
      have hquiet : ∀ (tr₁ : Trace) (o : Except Fault NCursesUI), Runs (ui₁.updateUI con) tr₁ o →
          tr₁ = [] :=
        fun tr₁ o hu => List.eq_nil_iff_forall_not_mem.mpr (calls_updateUI con ui₁ tr₁ o hu)
      change Runs (ui₁.updateUI con >>= fun ui' =>
        ui'.readAndDestroy con types ((made (profiled types entries) trC).map parked)) rest o at h
      rcases (runs_bind _ _ _ _).mp h with ⟨tr₁, rest, ui', rfl, hu, hrun⟩ | ⟨e, rfl, hu⟩
      · obtain rfl := hquiet tr₁ _ hu
        refine .shown _ _ rc fleshed es entries trC rest ui' o hes hloop ?_ hrun
        rw [← hshape]
        exact (yields_updateUI con ui₁ [] _ hu).1
      · obtain rfl := hquiet _ _ hu
        rw [List.append_nil]
        obtain ⟨hfault, hfield⟩ := yields_updateUI con ui₁ [] _ hu
        rw [hshape] at hfield
        exact .unshown _ _ rc fleshed es entries trC e hes hloop hfault hfield
    · obtain ⟨hr, -⟩ := runs_createTags _ _ hC
      cases hr

theorem calls_destroyTags (es : List TagEntry) :
    Calls (destroyTags es) fun c => ∃ tag, c = .destroy tag := by
  induction es with
  | nil => exact calls_pure _
  | cons e es ih => exact (calls_perform ⟨_, rfl⟩).bind fun _ => ih

end NCursesUI

end Plctagt.Gui
