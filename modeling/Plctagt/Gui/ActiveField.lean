import Plctagt.Gui.Turn
import Plctagt.Tag.StringRoundTrip

/-! # The active field is there

`act_field` indexes the fields of the active section, and each section's `last_active` is an index
to come back to. Nothing adjusts either when Section 3 gets shorter. So they stay indices as long as
Section 3 is entered at a field it has, and a listing made from inside it reaches the active field;
otherwise the next look at `fields[act_field]` is past the end.
-/
namespace Plctagt.Gui
open Effects Decimal Tag
set_option autoImplicit false

/-! ## Shapes -/

namespace Shape

/-- The active field is there, and so is the field to come back to in the sections of fixed
length. -/
structure InRange (s : Shape) : Prop where
  active : s.actField < s.size s.actSec
  saved₀ : s.lastActive 0 < 4
  saved₁ : s.lastActive 1 < 5

/-- Section 3 is entered at a field it has, also after Count is looked at, and what is listed from
inside it reaches the active field. -/
structure Safe (key : Key) (tr : Trace) (s : Shape) : Prop where
  enters : target key s.actSec = some 2 → s.lastActive 2 < s.length ∧
    (s.actSec = 1 ∧ s.actField = 2 → s.lastActive 2 < s.checkCount.length)
  lists : key = .f 2 → s.actSec = 2 → ∀ n, Listed tr n → s.actField < n

variable {s s' : Shape} {key : Key} {tr : Trace} {v : Text}

theorem size_of_ne_two (s s' : Shape) {t : Fin 3} (h : t ≠ 2) : s.size t = s'.size t := by
  match t with
  | 0 => rfl
  | 1 => rfl
  | 2 => exact absurd rfl h

theorem InRange.resize (h : s.InRange) (n : ℕ) (hn : s.actSec = 2 → s.actField < n) :
    (s.resize n).InRange := by
  refine ⟨?_, h.saved₀, h.saved₁⟩
  by_cases hsec : s.actSec = 2
  · show s.actField < (s.resize n).size s.actSec
    rw [hsec]
    exact hn hsec
  · have hsize := s.size_of_ne_two (s.resize n) hsec
    exact hsize ▸ h.active

theorem target_ne {a t : Fin 3} (h : target key a = some t) : t ≠ a := by
  unfold target at h
  split at h
  · obtain rfl := Option.some.inj h
    exact (by decide : ∀ a : Fin 3, a - 1 ≠ a) a
  · split at h
    · obtain rfl := Option.some.inj h
      exact (by decide : ∀ a : Fin 3, a + 1 ≠ a) a
    · cases h

theorem InRange.enter (h : s.InRange) {t : Fin 3} (ht : t ≠ s.actSec)
    (h2 : t = 2 → s.lastActive 2 < s.length) : (s.enter t).InRange := by
  have hsaved : ∀ (i : Fin 3) (b : ℕ), s.lastActive i < b → (s.actSec = i → s.actField < b) →
      Function.update s.lastActive s.actSec s.actField i < b := by
    intro i b hi hs
    by_cases hsec : i = s.actSec
    · subst hsec
      rw [Function.update_self]
      exact hs rfl
    · rwa [Function.update_of_ne hsec]
  have hactive := h.active
  refine ⟨?_, hsaved 0 4 h.saved₀ fun hs => ?_, hsaved 1 5 h.saved₁ fun hs => ?_⟩
  · show Function.update s.lastActive s.actSec s.actField t < (s.enter t).size t
    rw [Function.update_of_ne ht]
    match t with
    | 0 => exact h.saved₀
    | 1 => exact h.saved₁
    | 2 => exact h2 rfl
  · rw [hs] at hactive
    exact hactive
  · rw [hs] at hactive
    exact hactive

theorem inRange_press (hp : Press key tr v s s') (h : s.InRange) (hs : s.Safe key tr) :
    s'.InRange := by
  cases hp with
  | stay => exact h
  | edit hat => exact ⟨h.active, h.saved₀, h.saved₁⟩
  | field i hi => exact ⟨hi, h.saved₀, h.saved₁⟩
  | «section» t ht hlt => exact h.enter (target_ne ht) fun h2 => (hs.enters (h2 ▸ ht)).1
  | read n hsec => exact h.resize n fun h2 => absurd h2 hsec
  | list n hkey hn => exact h.resize n fun h2 => hs.lists hkey h2 n hn

theorem checkCount_actSec : s.checkCount.actSec = s.actSec := by
  unfold checkCount
  split <;> rfl

theorem checkCount_actField : s.checkCount.actField = s.actField := by
  unfold checkCount
  split <;> rfl

theorem checkCount_lastActive : s.checkCount.lastActive = s.lastActive := by
  unfold checkCount
  split <;> rfl

theorem InRange.checkCount (h : s.InRange)
    (hn : s.actSec = 2 → s.actField < s.checkCount.length) : s.checkCount.InRange := by
  refine ⟨?_, ?_, ?_⟩
  · rw [checkCount_actField, checkCount_actSec]
    by_cases hsec : s.actSec = 2
    · rw [hsec]
      exact hn hsec
    · rw [s.checkCount.size_of_ne_two s hsec]
      exact h.active
  · rw [checkCount_lastActive]
    exact h.saved₀
  · rw [checkCount_lastActive]
    exact h.saved₁

theorem checkCount_enter_length (t : Fin 3) : (s.enter t).checkCount.length = s.checkCount.length := by
  unfold checkCount
  show (if s.getCount ≠ s.lastCount then _ else _ : Shape).length = _
  split <;> rfl

theorem inRange_turned (ht : Turned key tr v s s') (h : s.InRange) (hs : s.Safe key tr) :
    s'.InRange := by
  cases ht with
  | chosen v' hat ho => exact ⟨h.active, h.saved₀, h.saved₁⟩
  | pressed s' hat hp => exact inRange_press hp h hs
  | counted s' hat hp =>
    refine (inRange_press hp h hs).checkCount fun h2 => ?_
    have hsec : s.actSec ≠ 2 := by
      rw [hat.1]
      decide
    -- the key went from Count to Section 3, which is then filled by the count
    cases hp with
    | «section» t hkey hlt =>
      obtain rfl : t = 2 := h2
      have hfield : (s.enter 2).actField = s.lastActive 2 :=
        Function.update_of_ne hsec.symm _ _
      rw [hfield, checkCount_enter_length]
      exact (hs.enters hkey).2 hat
    | stay => exact absurd h2 hsec
    | edit => exact absurd h2 hsec
    | field => exact absurd h2 hsec
    | read => exact absurd h2 hsec
    | list => exact absurd h2 hsec

theorem InRange.no_fault (h : s.InRange) (hs : s.Safe key tr) : ¬PressFault key tr s := by
  intro hf
  have hactive := h.active
  cases hf with
  | empty h0 => omega
  | «section» t ht hle =>
    have := (h.enter (target_ne ht) fun h2 => (hs.enters (h2 ▸ ht)).1).active
    exact absurd this (not_lt.mpr hle)
  | list n hkey hn hle =>
    have := (h.resize n fun h2 => hs.lists hkey h2 n hn).active
    exact absurd this (not_lt.mpr hle)

end Shape

/-! ## Sessions -/

namespace NCursesUI
variable {con : Console} {ui : NCursesUI}

/-- The condition on a turn: a key that enters Section 3 finds its last active field there, also
after the look at the count when it is pressed in the Count field, and a listing or a profile run
from inside Section 3 shows more lines than the active field's index. -/
def KeepsField (con : Console) (ui : NCursesUI) (key : Key) (tr : Trace) : Prop :=
  (target key ui.actSec = some 2 → ui.lastActive 2 < ui.sec3.length ∧
    (ui.actSec = 1 ∧ ui.actField = 2 → ui.lastActive 2 < (ui.checkCountChange con).sec3.length)) ∧
  (key = .f 2 → ui.actSec = 2 → ∀ n, Listed tr n → ui.actField < n)

theorem KeepsField.safe {key : Key} {tr : Trace} (h : KeepsField con ui key tr) :
    ui.shape.Safe key tr := by
  refine ⟨fun ht => ⟨(h.1 ht).1, fun hat => ?_⟩, h.2⟩
  have hlen := (h.1 ht).2 hat
  rw [← shape_checkCountChange con ui]
  exact hlen

theorem inRange_of_reached (h : ui.Reached con (KeepsField con)) : ui.shape.InRange := by
  refine Reached.invariant (I := fun ui => ui.shape.InRange) ?_ ?_ h
  · rintro ui ⟨state, history, tr, hrun⟩
    obtain ⟨ui', v, n, ho, hshape⟩ := meets_start con state history tr _ hrun
    obtain rfl := Except.ok.inj ho
    rw [hshape]
    exact ⟨(by decide : 0 < 4), (by decide : 0 < 4), (by decide : 0 < 5)⟩
  · rintro ui ui' key tr hin ⟨-, hsafe⟩ hrun
    obtain ⟨f, -, hturned, -⟩ := meets_turn con ui key tr _ hrun
    exact Shape.inRange_turned hturned hin hsafe.safe

/-- In every state that a session comes to, when its turns keep the active field, the active field
is there; and the next such turn neither reads a field that is not there nor divides by 0. -/
theorem activeField_of_reached (h : ui.Reached con (KeepsField con)) :
    ui.actField < ui.size ui.actSec ∧
    ∀ key tr o, KeepsField con ui key tr → Runs (ui.turn con key) tr o →
      o ≠ .error .fieldIndex ∧ o ≠ .error .moduloZero := by
  have hin := inRange_of_reached h
  refine ⟨size_shape ui _ ▸ hin.active, fun key tr o hsafe hrun => ?_⟩
  have hno : ∀ e, IndexFault e → o ≠ .error e := by
    rintro e he rfl
    rcases meets_turn con ui key tr _ hrun he with hle | hf | ⟨v, s', hturned, hle⟩
    · exact absurd hin.active (not_lt.mpr hle)
    · exact hin.no_fault hsafe.safe hf
    · exact absurd (Shape.inRange_turned hturned hin hsafe.safe).active (not_lt.mpr hle)
  exact ⟨hno _ (.inl rfl), hno _ (.inr rfl)⟩

/-- The number of lines that `Listed` speaks of. -/
def linesListed : Trace → Option ℕ
  | [⟨.popupSelect _ _, _⟩, ⟨.listTags _ _, (_, es)⟩] => some es.length
  | ⟨.popupSelect _ _, _⟩ :: ⟨.popupSelect _ _, _⟩ :: ⟨.listTags _ _, _⟩ :: tr =>
    some (created tr).length
  | _ => none

theorem linesListed_of_listed {tr : Trace} {n : ℕ} (h : Listed tr n) : linesListed tr = some n := by
  cases h <;> rfl

/-- `KeepsField`, for a session to check. -/
def keepsField (con : Console) (ui : NCursesUI) (key : Key) (tr : Trace) : Bool :=
  (target key ui.actSec = some 2 → ui.lastActive 2 < ui.sec3.length ∧
    (ui.actSec = 1 ∧ ui.actField = 2 → ui.lastActive 2 < (ui.checkCountChange con).sec3.length)) ∧
  (key = .f 2 → ui.actSec = 2 → ∀ n ∈ linesListed tr, ui.actField < n)

theorem keepsField_sound {key : Key} {tr : Trace} (h : keepsField con ui key tr = true) :
    KeepsField con ui key tr := by
  obtain ⟨henters, hlists⟩ := of_decide_eq_true h
  exact ⟨henters, fun hkey hsec n hn => hlists hkey hsec n (linesListed_of_listed hn)⟩

/-- From a count of 13 to the third field of Section 3, where three tags are listed; back to the
Count field, which says 3 now, and to Section 3 again. -/
def listInsideKeys : List Key :=
  [.byte 4, .byte 9, .byte 9, .byte 51, .byte 4, .byte 9, .byte 9, .f 2, .byte 21, .byte 4]

theorem activeField_of_reached_listed :
    ∃ s, checkedSession Console.plain (keepsField Console.plain) [] []
        (World.bench 1 swappedStrings.1 swappedStrings.2
          [dintTag (text "A"), dintTag (text "B"), dintTag (text "C")]) listInsideKeys = some s ∧
      s.1.actSec = 2 ∧ s.1.actField = 2 ∧ s.1.sec3.length = 3 ∧
      s.1.actField < s.1.size s.1.actSec := by
  have hend : (checkedSession Console.plain (keepsField Console.plain) [] []
      (World.bench 1 swappedStrings.1 swappedStrings.2
        [dintTag (text "A"), dintTag (text "B"), dintTag (text "C")]) listInsideKeys).map
      (fun s => (s.1.actSec, s.1.actField, s.1.sec3.length)) = some (2, 2, 3) := by decide +kernel
  obtain ⟨s, hs, hval⟩ := Option.map_eq_some_iff.mp hend
  obtain ⟨hsec, hval⟩ := Prod.mk.inj hval
  obtain ⟨hfield, hlen⟩ := Prod.mk.inj hval
  refine ⟨s, hs, hsec, hfield, hlen, (activeField_of_reached (reached_session _ hs ?_)).1⟩
  exact fun ui key tr hc => keepsField_sound hc

/-- The state file says `Count:=0`, so Section 3 is empty, and the second CTRL-D goes there. -/
theorem fieldIndex_of_count0 :
    ∃ (ui : NCursesUI) (tr : Trace), ui.Reached Console.plain (fun _ _ _ => True) ∧
      ui.running = true ∧ Runs (ui.turn Console.plain (.byte 4)) tr (.error .fieldIndex) := by
  have hfault : (session Console.plain [text "Count:=0"] []
      (World.bench 1 swappedStrings.1 swappedStrings.2 []) [.byte 4]).map
        (fun s => (s.1.running, faultAt Console.plain (.byte 4) s)) = some (true, some .fieldIndex) := by
    decide +kernel
  obtain ⟨s, hs, hval⟩ := Option.map_eq_some_iff.mp hfault
  obtain ⟨hrunning, hfault⟩ := Prod.mk.inj hval
  obtain ⟨tr, htr⟩ := runs_faultAt _ hfault
  exact ⟨s.1, tr, reached_session _ hs fun _ _ _ _ => trivial, hrunning, htr⟩

end NCursesUI

end Plctagt.Gui
