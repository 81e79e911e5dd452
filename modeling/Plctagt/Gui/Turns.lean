import Plctagt.Gui.Updates

/-! # Keys in a row

Keys that neither call anything nor leave the active field: a turn of one is what the key does, the
look at the count where the Count field is active, the look at the type, and the redraw
(`turn_of_press`). Looking at the count twice settles it.
-/
namespace Plctagt.Gui
open Effects Decimal Tag
set_option autoImplicit false

/-! ## Shapes -/

namespace Shape

/-- The look that follows a key. -/
def look (s : Shape) : Shape := if s.actSec = 1 ∧ s.actField = 2 then s.checkCount else s

/-- The look finds nothing to do. -/
def Settled (s : Shape) : Prop := s.actSec = 1 ∧ s.actField = 2 → s.getCount = s.lastCount

theorem getCount_resize (s : Shape) {n : ℕ} (h : (n : ℤ) ≤ intMax) : (s.resize n).getCount = n := by
  show (stoi (printInt n)).getD 0 = n
  rw [stoi_printNat n h, Option.getD_some]

theorem checkCount_of_eq {s : Shape} (h : s.getCount = s.lastCount) : s.checkCount = s :=
  if_neg (not_not.mpr h)

theorem checkCount_of_ne {s : Shape} (h : s.getCount ≠ s.lastCount) :
    s.checkCount =
      { s with lastCount := s.getCount }.resize (max 0 (atoi s.count.value)).toNat :=
  if_pos h

theorem filled_le (v : Text) : ((max 0 (atoi v)).toNat : ℤ) ≤ intMax := by
  have hle := atoi_le_intMax v
  have h0 : (0 : ℤ) ≤ intMax := by decide
  omega

/-- The first look may find a text that is not the number Section 3 is filled by, the second one
finds that number. -/
theorem checkCount_settles (s : Shape) :
    s.checkCount.checkCount.getCount = s.checkCount.checkCount.lastCount := by
  by_cases h : s.getCount = s.lastCount
  · rw [checkCount_of_eq h, checkCount_of_eq h]
    exact h
  · set n := (max 0 (atoi s.count.value)).toNat with hn
    have hle : (n : ℤ) ≤ intMax := filled_le s.count.value
    have hfill := checkCount_of_ne h
    have hcount : s.checkCount.getCount = n := by
      rw [hfill]
      exact getCount_resize _ hle
    have hvalue : atoi s.checkCount.count.value = n := by
      rw [hfill]
      exact atoi_printNat n hle
    by_cases h' : s.checkCount.getCount = s.checkCount.lastCount
    · rw [checkCount_of_eq h']
      exact h'
    · rw [checkCount_of_ne h', hvalue, hcount, max_eq_right (Int.natCast_nonneg n),
        Int.toNat_natCast]
      exact getCount_resize _ hle

theorem checkCount_active (s : Shape) :
    s.checkCount.actSec = s.actSec ∧ s.checkCount.actField = s.actField := by
  unfold checkCount
  split <;> exact ⟨rfl, rfl⟩

theorem look_active (s : Shape) : s.look.actSec = s.actSec ∧ s.look.actField = s.actField := by
  unfold look
  split
  · exact s.checkCount_active
  · exact ⟨rfl, rfl⟩

theorem look_settles (s : Shape) : s.look.look.Settled := by
  intro h
  obtain ⟨hsec, hfield⟩ := s.look.look_active
  obtain ⟨hsec', hfield'⟩ := s.look_active
  rw [hsec, hfield] at h
  have hat : s.actSec = 1 ∧ s.actField = 2 := by rwa [hsec', hfield'] at h
  have hlook : s.look.look = s.checkCount.checkCount := by
    rw [look, if_pos h, look, if_pos hat]
  rw [hlook]
  exact s.checkCount_settles

theorem Settled.look {s : Shape} (h : s.Settled) : s.look = s := by
  by_cases hat : s.actSec = 1 ∧ s.actField = 2
  · rw [Shape.look, if_pos hat, checkCount_of_eq (h hat)]
  · exact if_neg hat

theorem settled_of_sec3 {s : Shape} (h : s.actSec = 2) : s.Settled := by
  rintro ⟨hsec, -⟩
  rw [h] at hsec
  exact absurd hsec (by decide)

/-- The look leaves an active field where there is one. -/
theorem look_inside {s : Shape} (h : s.actField < s.size s.actSec) :
    s.look.actField < s.look.size s.look.actSec := by
  by_cases hsec : s.actSec = 2
  · rwa [(settled_of_sec3 hsec).look]
  · rw [s.look_active.1, s.look_active.2]
    match hs : s.actSec with
    | 0 => rwa [hs] at h
    | 1 => rwa [hs] at h
    | 2 => exact absurd hs hsec

end Shape

/-! ## One key -/

namespace NCursesUI
variable {con : Console} {ui ui₁ : NCursesUI} {key : Key} {f : Field}

/-- What the loop looks at after a key. -/
def looked (con : Console) (ui ui₁ : NCursesUI) : NCursesUI :=
  (if ui.actSec = 1 ∧ ui.actField = 2 then ui₁.checkCountChange con else ui₁).checkTypeChange con

theorem turn_of_press (hf : (ui.fields ui.actSec)[ui.actField]? = some f) (hkey : key ≠ .byte 10)
    (hp : ui.press con key f = pure ui₁) :
    ui.turn con key =
      if (looked con ui ui₁).running then (looked con ui ui₁).updateUI con
      else pure (looked con ui ui₁) := by
  have hanswer : ui.answer con key = pure (looked con ui ui₁) := by
    rw [answer, activeField_eq _ _ hf, ret_bind, if_neg (fun h => hkey h.2), hp, ret_bind]
    rfl
  rw [turn, hanswer, ret_bind]

theorem shape_looked (hsec : ui₁.actSec = ui.actSec) (hfield : ui₁.actField = ui.actField) :
    (looked con ui ui₁).shape = ui₁.shape.look := by
  rw [looked, shape_checkTypeChange, apply_ite shape, shape_checkCountChange, ← hsec, ← hfield]
  rfl

/-- A count that is settled is not looked at again. -/
theorem looked_of_settled (hsec : ui₁.actSec = ui.actSec) (hfield : ui₁.actField = ui.actField)
    (h : ui₁.shape.Settled) : looked con ui ui₁ = ui₁.checkTypeChange con := by
  rw [looked]
  split
  · next hat =>
    rw [← hsec, ← hfield] at hat
    have hsame : ui₁.checkCountChange con = ui₁ := if_neg (not_not.mpr (h hat))
    rw [hsame]
  · rfl

theorem running_checkCountChange : (ui.checkCountChange con).running = ui.running := by
  unfold checkCountChange
  dsimp only
  split <;> rfl

theorem running_checkTypeChange : (ui.checkTypeChange con).running = ui.running := by
  unfold checkTypeChange
  split <;> rfl

theorem running_looked : (looked con ui ui₁).running = ui₁.running := by
  rw [looked, running_checkTypeChange, apply_ite running, running_checkCountChange, ite_self]

/-! ## Several keys -/

theorem pure_injective {a b : NCursesUI} (h : (pure a : Program NCursesUI) = pure b) : a = b := by
  cases h
  rfl

def turns (con : Console) (keys : List Key) (ui : NCursesUI) : Program NCursesUI :=
  keys.foldl (fun p key => p >>= turn con key) (pure ui)

theorem turns_concat (keys : List Key) (key : Key) (ui : NCursesUI) :
    ui.turns con (keys ++ [key]) = ui.turns con keys >>= turn con key := by
  rw [turns, List.foldl_concat]
  rfl

theorem turns_append (keys keys' : List Key) (ui : NCursesUI) :
    ui.turns con (keys ++ keys') = ui.turns con keys >>= turns con keys' := by
  induction keys' using List.reverseRecOn with
  | nil =>
    rw [List.append_nil]
    exact (bind_pure _).symm
  | append_singleton keys' key ih =>
    have hlast : turns con (keys' ++ [key]) = fun ui => ui.turns con keys' >>= turn con key :=
      funext fun ui => turns_concat keys' key ui
    rw [← List.append_assoc, turns_concat, ih, bind_assoc, hlast]

theorem Reached.turn_pure {ui' : NCursesUI} (h : ui.Reached con fun _ _ _ => True)
    (hrun : ui.running = true) (hturn : ui.turn con key = pure ui') :
    ui'.Reached con fun _ _ _ => True :=
  .turn ui ui' key [] h ⟨hrun, trivial⟩ (hturn ▸ ⟨rfl, rfl⟩)

end NCursesUI

end Plctagt.Gui
