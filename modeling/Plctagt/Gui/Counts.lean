import Plctagt.Gui.Turn
import Plctagt.Tag.StringRoundTrip

/-! # The count that is asked for, and the values that are there

[Write] asks for as many elements as the Count field says and takes them from Section 3. Whatever
resizes Section 3 writes the Count field; an edit of the Count field resizes Section 3, unless the
count is the one seen last. `last_count` is not updated by a read or a listing, so an edit that goes
back to it after one of these leaves a count that Section 3 does not have.
-/
namespace Plctagt.Gui
open Effects Decimal Tag
set_option autoImplicit false

theorem stoi_printNat_le (n : ℕ) : (stoi (printInt n)).getD 0 ≤ n := by
  by_cases hn : (n : ℤ) ≤ intMax
  · rw [stoi_printNat n hn, Option.getD_some]
  · have hbig : stoi (printInt n) = none := by
      by_cases hlong : (n : ℤ) ≤ longMax
      · have hmin : longMin ≤ n := le_trans (by decide) (Int.natCast_nonneg n)
        rw [stoi, strtoll_printInt n hmin hlong]
        exact if_pos (.inr (.inr (.inr (not_le.mp hn))))
      · rw [stoi, strtoll_printInt_big n (not_le.mp hlong)]
        exact if_pos (.inr (.inl rfl))
    rw [hbig]
    exact Int.natCast_nonneg n

/-! ## Shapes -/

namespace Shape

/-- Section 3 has the values that are counted; the Count field is typed, not chosen. -/
structure Counted (s : Shape) : Prop where
  le : s.getCount ≤ s.length
  typed : s.count.options = []

variable {s s' : Shape} {key : Key} {tr : Trace} {v : Text}

theorem counted_resize (n : ℕ) (h : s.count.options = []) : (s.resize n).Counted :=
  ⟨stoi_printNat_le n, h⟩

theorem counted_checkCount (h : s.count.options = [])
    (hle : s.getCount = s.lastCount → s.lastCount ≤ s.length) : s.checkCount.Counted := by
  unfold checkCount
  split
  · exact counted_resize _ h
  · next heq =>
    have heq := not_not.mp heq
    exact ⟨heq ▸ hle heq, h⟩

theorem Counted.press (h : s.Counted) (hp : Press key tr v s s')
    (hat : ¬(s.actSec = 1 ∧ s.actField = 2)) : s'.Counted := by
  cases hp with
  | stay => exact h
  | edit hc => exact absurd hc hat
  | field i hi => exact ⟨h.le, h.typed⟩
  | «section» t ht hlt => exact ⟨h.le, h.typed⟩
  | read n hsec => exact counted_resize n h.typed
  | list n hkey hn => exact counted_resize n h.typed

/-- In the Count field the look at the count follows. Only an edit can bring a count that is the
last one and that Section 3 does not have. -/
theorem Counted.press_count (h : s.Counted) (hp : Press key tr v s s')
    (hv : (stoi v).getD 0 = s.lastCount → s.lastCount ≤ s.length) : s'.checkCount.Counted := by
  cases hp with
  | stay => exact counted_checkCount h.typed fun heq => heq ▸ h.le
  | edit hc => exact counted_checkCount h.typed hv
  | field i hi => exact counted_checkCount h.typed fun heq => heq ▸ h.le
  | «section» t ht hlt => exact counted_checkCount h.typed fun heq => heq ▸ h.le
  | read n hsec => exact counted_checkCount h.typed fun heq => heq ▸ stoi_printNat_le n
  | list n hkey hn => exact counted_checkCount h.typed fun heq => heq ▸ stoi_printNat_le n

theorem Counted.turned (h : s.Counted) (ht : Turned key tr v s s')
    (hv : s.actSec = 1 ∧ s.actField = 2 →
      (stoi v).getD 0 = s.lastCount → s.lastCount ≤ s.length) : s'.Counted := by
  cases ht with
  | chosen v' hat ho => exact absurd h.typed ho
  | pressed s' hat hp => exact h.press hp hat
  | counted s' hat hp => exact h.press_count hp (hv hat)

end Shape

/-! ## Sessions -/

namespace NCursesUI
variable {con : Console} {ui : NCursesUI}

def countField (ui : NCursesUI) : Field := ⟨(sec2Table 2).toForm, ui.sec2 2⟩

/-- The condition on a turn: when the key leaves a text in the Count field that reads as the last
count, Section 3 still has that many values. -/
def KeepsCount (ui : NCursesUI) (key : Key) (_ : Trace) : Prop :=
  ui.actSec = 1 ∧ ui.actField = 2 →
    (stoi (edited key ui.countField ui.cursorPos)).getD 0 = ui.lastCount →
      ui.lastCount ≤ ui.sec3.length

theorem counted_of_reached (h : ui.Reached con KeepsCount) : ui.shape.Counted := by
  refine Reached.invariant (I := fun ui => ui.shape.Counted) ?_ ?_ h
  · rintro ui ⟨state, history, tr, hrun⟩
    obtain ⟨ui', v, n, ho, hshape⟩ := meets_start con state history tr _ hrun
    obtain rfl := Except.ok.inj ho
    rw [hshape]
    exact Shape.counted_resize n rfl
  · rintro ui ui' key tr hin ⟨-, hkeeps⟩ hrun
    obtain ⟨f, hf, hturned, -⟩ := meets_turn con ui key tr _ hrun
    refine hin.turned hturned fun hat heq => ?_
    have hat : ui.actSec = 1 ∧ ui.actField = 2 := hat
    have hcount : f = ui.countField := by
      rw [hat.1, hat.2] at hf
      exact (Option.some.inj hf).symm
    rw [hcount] at heq
    exact hkeeps hat heq

/-! ## What [Write] indexes -/

/-- The request behind [Read] and [Write]. -/
def request (ui : NCursesUI) : Text :=
  buildTagstring ui.getGateway ui.getTagname ui.getCount ui.getPath ui.getCpu ui.getProtocol

/-- The library reports more elements for the tag of the request than Section 3 has. -/
def Outgrown (ui : NCursesUI) (tr : Trace) : Prop :=
  ∃ tag n : ℤ, ⟨.create (cstr ui.request) dataTimeout, tag⟩ ∈ tr ∧
    ⟨.getIntAttribute tag .elemCount 0, n⟩ ∈ tr ∧ ui.sec3.length < n

theorem WriteFaults.bind {α β : Type} {tag : ℤ} {length : ℕ} {p : Program α} {f : α → Program β}
    (hp : Meets p (WriteFaults tag length))
    (hf : ∀ a, Yields (f a) (fun _ => True) (fun _ => False)) :
    Meets (p >>= f) (WriteFaults tag length) := by
  refine meets_bind hp (fun tr₁ a _ => Meets.weaken (hf a) fun tr₂ o h e he => ?_) fun tr e h e' he => ?_
  · subst he
    exact h.elim
  · cases he
    exact h e rfl

theorem meets_writeTag (tag : ℤ) :
    Meets (ui.writeTag con tag) (WriteFaults tag ui.sec3.length) := by
  have hpure : ∀ _ : ℤ, Yields (pure ui : Program NCursesUI) (fun _ => True) (fun _ => False) :=
    fun _ => (yields_pure _).mpr trivial
  unfold writeTag
  split
  · next t _ =>
    have hlen : (toNumericVector con.float t ui.getSection3Values).length = ui.sec3.length := by
      rw [toNumericVector, List.length_map, getSection3Values, List.length_map]
    have hwrite := meets_writeNumericTag t [] tag
      (toNumericVector con.float t ui.getSection3Values) dataTimeout
    rw [hlen] at hwrite
    refine WriteFaults.bind (WriteFaults.bind hwrite fun r => ?_) hpure
    split
    split
    · exact (yields_popupMessage _).bind fun _ _ => (yields_pure _).mpr trivial
    · exact (yields_pure _).mpr trivial
  · have hwrite := meets_writeStringTag [] tag ui.getSection3Values dataTimeout
    rw [getSection3Values, List.length_map] at hwrite
    refine WriteFaults.bind (WriteFaults.bind hwrite fun r => ?_) hpure
    split
    split
    · exact (yields_popupMessage _).bind fun _ _ => (yields_pure _).mpr trivial
    · exact (yields_pure _).mpr trivial
  · exact meets_pure fun _ h => nomatch h

theorem meets_handleEnterKey (f : Field) (hf : f.label = text "[Write]") :
    Meets (ui.handleEnterKey con f) fun tr o => o = .error .vectorIndex → ui.Outgrown tr := by
  intro tr o h ho
  subst ho
  unfold handleEnterKey at h
  split at h
  · rcases (runs_bind _ _ _ _).mp h with ⟨tr₁, tr₂, r, rfl, h₁, h₂⟩ | ⟨e, he, h₁⟩
    · obtain ⟨tag, es, hr, hcreate⟩ := runs_createTag h₁
      cases hr
      change Runs (if tag < 0 then _ else _) tr₂ _ at h₂
      split at h₂
      · obtain ⟨-, -, -, -, h₂⟩ := h₂
        cases h₂
      · next htag =>
        have hcreated : (⟨.create (cstr ui.request) dataTimeout, tag⟩ : Event Call.Reply) ∈ tr₁ := by
          rcases hcreate with ⟨rfl, -⟩ | rfl
          · exact absurd (by decide : (-1001 : ℤ) < 0) htag
          · exact List.mem_cons_of_mem _ List.mem_cons_self
        have hread : f.label ≠ text "[Read]" := by
          rw [hf]
          decide
        have hwrite := WriteFaults.bind (@meets_writeTag con ui tag) (fun ui' =>
          yields_perform_bind (c := .destroy tag) fun _ => (yields_pure ui').mpr trivial)
        rw [useTag, if_neg hread] at h₂
        rcases hwrite _ _ h₂ _ rfl with h | ⟨-, n, hlt, hmem⟩
        · cases h
        · exact ⟨tag, n, List.mem_append_left _ hcreated, List.mem_append_right _ hmem, hlt⟩
    · obtain ⟨_, _, hr, -⟩ := runs_createTag h₁
      cases hr
  · obtain ⟨-, h⟩ := h
    cases h

theorem updateUI_vectorIndex {tr : Trace} : ¬Runs (ui.updateUI con) tr (.error .vectorIndex) := by
  intro h
  rcases (runs_bind _ _ _ _).mp h with ⟨tr₁, tr₂, f, rfl, -, h⟩ | ⟨e, he, h⟩
  · change Runs (if f.typed then _ else _) tr₂ _ at h
    split at h <;> exact nomatch h.2
  · rcases runs_activeField _ h with ⟨f, ho, -⟩ | ⟨ho, -⟩
    · cases ho
    · cases ho
      cases he

theorem outgrown_of_vectorIndex {tr : Trace} (hsec : ui.actSec = 1) (hfield : ui.actField = 4)
    (h : Runs (ui.turn con (.byte 10)) tr (.error .vectorIndex)) : ui.Outgrown tr := by
  have hf : (ui.fields ui.actSec)[ui.actField]? = some ⟨(sec2Table 4).toForm, ui.sec2 4⟩ := by
    rw [hsec, hfield]
    rfl
  rcases (runs_bind _ _ _ _).mp h with ⟨tr₁, tr₂, ui', rfl, h₁, h₂⟩ | ⟨e, he, h₁⟩
  · split at h₂
    · exact (updateUI_vectorIndex h₂).elim
    · obtain ⟨-, h₂⟩ := h₂
      cases h₂
  · cases he
    rw [answer, activeField_eq _ _ hf, ret_bind] at h₁
    split at h₁
    · obtain ⟨r, tr', rfl, h₁⟩ := h₁
      cases r with
      | none =>
        obtain ⟨-, h₁⟩ := h₁
        cases h₁
      | some i =>
        obtain ⟨-, h₁⟩ := h₁
        cases h₁
    · rcases (runs_bind _ _ _ _).mp h₁ with ⟨tr₁, tr₂, ui', rfl, -, -, h₁⟩ | ⟨e, he, h₁⟩
      · cases h₁
      · cases he
        exact meets_handleEnterKey ⟨(sec2Table 4).toForm, ui.sec2 4⟩ rfl tr _ h₁ rfl

/-- In every state that a session comes to, when its turns keep the count, Section 3 has at least as
many values as [Write] asks for; so [Write] leaves the vector only when the library reports more
elements for the tag than it was asked for. -/
theorem getCount_le_of_reached (h : ui.Reached con KeepsCount) :
    ui.getCount ≤ ui.sec3.length ∧
    ∀ tr, ui.actSec = 1 → ui.actField = 4 →
      Runs (ui.turn con (.byte 10)) tr (.error .vectorIndex) →
        ∃ tag n : ℤ, ⟨.create (cstr ui.request) dataTimeout, tag⟩ ∈ tr ∧
          ⟨.getIntAttribute tag .elemCount 0, n⟩ ∈ tr ∧ ui.getCount < n := by
  have hle : ui.getCount ≤ ui.sec3.length := (counted_of_reached h).le
  refine ⟨hle, fun tr hsec hfield hrun => ?_⟩
  obtain ⟨tag, n, hcreate, hcount, hlt⟩ := outgrown_of_vectorIndex hsec hfield hrun
  exact ⟨tag, n, hcreate, hcount, lt_of_le_of_lt hle hlt⟩

instance decidableKeepsCount (ui : NCursesUI) (key : Key) (tr : Trace) :
    Decidable (KeepsCount ui key tr) :=
  inferInstanceAs (Decidable (_ ∧ _ → _ = _ → _ ≤ _))

/-- The count becomes 12, then the cursor goes back; a listing of one tag leaves 1, which an edit
turns into 15, and the next key leaves the Count field. -/
def typedCountKeys : List Key :=
  [.byte 4, .byte 9, .byte 9, .byte 50, .left, .byte 9, .f 2, .up, .byte 53, .byte 9]

theorem getCount_le_of_reached_typed :
    ∃ s, checkedSession Console.plain (fun ui key tr => KeepsCount ui key tr) [] []
        (World.bench 1 swappedStrings.1 swappedStrings.2 [dintTag (text "A")]) typedCountKeys = some s ∧
      s.1.getCount = 15 ∧ s.1.getCount ≤ s.1.sec3.length := by
  have hcount : (checkedSession Console.plain (fun ui key tr => KeepsCount ui key tr) [] []
      (World.bench 1 swappedStrings.1 swappedStrings.2 [dintTag (text "A")]) typedCountKeys).map
        (fun s => s.1.getCount) = some 15 := by decide +kernel
  obtain ⟨s, hs, hcount⟩ := Option.map_eq_some_iff.mp hcount
  refine ⟨s, hs, hcount, (getCount_le_of_reached (reached_session _ hs ?_)).1⟩
  exact fun ui key tr hc => of_decide_eq_true hc

/-- `TEST_ARRAY`, ten DINTs. -/
def testArray : PlcTag × Device :=
  ({ swappedStrings.1 with data := some (List.replicate 40 0) },
    { memory := [], elemSize := 4, elemCount := 10, readStatus := 0, writeStatus := 0 })

/-- A controller with this tag only; of the types the fifth one, `INT32`, is chosen. -/
def testArrayWorld : World :=
  { World.bench 1 testArray.1 testArray.2
      [⟨[], text "TEST_ARRAY", [], 0, 0x20C4, 4, 10, 1, fun _ => 0⟩] with
    choice := fun options =>
      if h : 4 < options.length then some ⟨4, h⟩
      else if h : 0 < options.length then some ⟨0, h⟩ else none }

/-- To the Count field and on, a listing of one tag, back, a `0` behind the `1`, up to the type, and
down to [Write]. -/
def staleCountKeys : List Key :=
  [.byte 4, .byte 9, .byte 9, .byte 9, .f 2, .up, .byte 48, .up, .up, .byte 10, .byte 9, .byte 9,
    .byte 9, .byte 9]

/-- The count is 10 again, as it was when it was last looked at, but Section 3 has the line of the
listing only: [Write] asks for ten elements and reads `values[1]`. -/
theorem vectorIndex_of_stale_count :
    ∃ (ui : NCursesUI) (tr : Trace), ui.Reached Console.plain (fun _ _ _ => True) ∧
      ui.running = true ∧ ui.actSec = 1 ∧ ui.actField = 4 ∧
      ui.getCount = 10 ∧ ui.sec3.length = 1 ∧
      Runs (ui.turn Console.plain (.byte 10)) tr (.error .vectorIndex) := by
  have hend : (session Console.plain [text "Count:=10"] [] testArrayWorld staleCountKeys).map
      (fun s => ((s.1.running, s.1.actSec, s.1.actField), (s.1.getCount, s.1.sec3.length),
        faultAt Console.plain (.byte 10) s)) =
      some ((true, 1, 4), (10, 1), some .vectorIndex) := by decide +kernel
  obtain ⟨s, hs, hval⟩ := Option.map_eq_some_iff.mp hend
  obtain ⟨hat, hval⟩ := Prod.mk.inj hval
  obtain ⟨hcounts, hfault⟩ := Prod.mk.inj hval
  obtain ⟨hrunning, hat⟩ := Prod.mk.inj hat
  obtain ⟨hsec, hfield⟩ := Prod.mk.inj hat
  obtain ⟨hcount, hlen⟩ := Prod.mk.inj hcounts
  obtain ⟨tr, htr⟩ := runs_faultAt _ hfault
  exact ⟨s.1, tr, reached_session _ hs fun _ _ _ _ => trivial, hrunning, hsec, hfield, hcount, hlen,
    htr⟩

end NCursesUI

end Plctagt.Gui
