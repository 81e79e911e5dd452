import Plctagt.Foundations.Numerals
import Plctagt.Gui.Section3

/-! # What [Write] makes of a text

`toNumericVector` of `utility.h` on the integral types. One `strtoll` serves all of them, and a cast
takes its result to `T`: what `strtoll` has in range and `T` has not is wrapped, and a `uint64_t` from
`2 ^ 63` on is out of range. `Meant` is the value a text stands for, in the terms of `Denotes`.
-/
namespace Plctagt.Gui
open Decimal Tag
set_option autoImplicit false

/-! ## Patterns and the numbers they stand for -/

theorem toInt_bounds {w : ℕ} (k : ℕ) (hw : w ≤ k + 1) (v : BitVec w) :
    -2 ^ k ≤ v.toInt ∧ v.toInt < 2 ^ k := by
  have hlo := BitVec.le_two_mul_toInt (x := v)
  have hhi := BitVec.two_mul_toInt_lt (x := v)
  have hpow : (2 : ℤ) ^ w ≤ 2 ^ (k + 1) := pow_le_pow_right₀ (by norm_num) hw
  rw [pow_succ] at hpow
  omega

theorem toNat_bound {w : ℕ} (k : ℕ) (hw : w ≤ k) (v : BitVec w) : v.toNat < 2 ^ k :=
  lt_of_lt_of_le v.isLt (Nat.pow_le_pow_right (by norm_num) hw)

theorem ofInt_toNat {w : ℕ} (v : BitVec w) : BitVec.ofInt w v.toNat = v := by
  rw [BitVec.ofInt_natCast, BitVec.ofNat_toNat, BitVec.setWidth_eq]

/-- `v` is in the range of the type. -/
def Representable (t : NumType) (v : ℤ) : Prop := ∃ x : t.Word, wordInt t x = v

theorem ofInt_wordInt (t : NumType) (x : t.Word) : BitVec.ofInt _ (wordInt t x) = x := by
  cases t
  case int8 | int16 | int32 | int64 => exact BitVec.ofInt_toInt
  all_goals exact ofInt_toNat x

theorem wordInt_ofInt (t : NumType) {v : ℤ} (h : Representable t v) :
    wordInt t (BitVec.ofInt _ v) = v := by
  obtain ⟨x, rfl⟩ := h
  rw [ofInt_wordInt]

instance (t : NumType) (v : ℤ) : Decidable (Representable t v) :=
  decidable_of_iff (wordInt t (BitVec.ofInt _ v) = v) ⟨fun h => ⟨_, h⟩, wordInt_ofInt t⟩

theorem wordInt_zero (t : NumType) : wordInt t 0 = 0 := by
  cases t <;> decide

theorem wordInt_inj (t : NumType) {x y : t.Word} : wordInt t x = wordInt t y ↔ x = y := by
  constructor
  · intro h
    rw [← ofInt_wordInt t x, h, ofInt_wordInt]
  · rintro rfl
    rfl

theorem ofInt_eq_zero_iff (w : ℕ) (v : ℤ) : BitVec.ofInt w v = 0 ↔ (2 : ℤ) ^ w ∣ v := by
  rw [← BitVec.toNat_inj, BitVec.toNat_ofInt]
  have hpos : (0 : ℤ) < 2 ^ w := by positivity
  have hcast : ((2 ^ w : ℕ) : ℤ) = 2 ^ w := by push_cast; rfl
  have hnonneg := Int.emod_nonneg v hpos.ne'
  rw [hcast, Int.dvd_iff_emod_eq_zero]
  show (v % 2 ^ w).toNat = (0 : BitVec w).toNat ↔ _
  have hzero : (0 : BitVec w).toNat = 0 := BitVec.toNat_zero
  omega

theorem longMin_le_of_representable (t : NumType) {v : ℤ} (h : Representable t v) :
    longMin ≤ v := by
  obtain ⟨x, rfl⟩ := h
  have hmin : longMin = -2 ^ 63 := rfl
  cases t
  case int8 => exact (toInt_bounds 63 (by decide) (w := 8) x).1
  case int16 => exact (toInt_bounds 63 (by decide) (w := 16) x).1
  case int32 => exact (toInt_bounds 63 (by decide) (w := 32) x).1
  case int64 => exact (toInt_bounds 63 (by decide) (w := 64) x).1
  all_goals simp only [wordInt]; omega

/-! ## One text -/

/-- The number the text is, when it is one in the range of `T`, and 0 otherwise. -/
def Meant (t : NumType) (s : Text) (x : t.Word) : Prop :=
  (∃ v, Denotes s v ∧ Representable t v ∧ wordInt t x = v) ∨
  ((∀ v, Denotes s v → ¬ Representable t v) ∧ wordInt t x = 0)

/-- A text that [Write] takes as it is meant. What stands before the first NUL may be a number; then
either it is the text's value and within `long long`, or it must come out as 0. -/
def Unwrapped (t : NumType) (s : Text) : Prop :=
  ∀ v, Denotes (cstr s) v →
    if (0 : UInt8) ∉ s ∧ Representable t v then v ≤ longMax
    else v < longMin ∨ longMax < v ∨ (2 : ℤ) ^ (8 * t.bytes) ∣ v

variable (fl : FloatText)

theorem toNumeric_integral {t : NumType} (ht : t.isFloat = false) (s : Text) :
    toNumeric fl (.num t) s =
      converted 0 (BitVec.ofInt _ (strtoll s).value) (strtoll s).erange (strtoll s).rest := by
  cases t
  case float32 | float64 => exact absurd ht (by decide)
  all_goals rfl

theorem toNumeric_of_begins {t : NumType} (ht : t.isFloat = false) {s : Text} {v : ℤ} {rest : Text}
    (h : Begins (cstr s) v rest) :
    toNumeric fl (.num t) s =
      if rest = [] ∧ longMin ≤ v ∧ v ≤ longMax then BitVec.ofInt _ v else 0 := by
  rw [toNumeric_integral fl ht, strtoll_of_begins h]
  by_cases hlo : v < longMin
  · rw [if_pos hlo, if_neg (by omega)]
    exact if_pos (.inl rfl)
  by_cases hhi : longMax < v
  · rw [if_neg hlo, if_pos hhi, if_neg (by omega)]
    exact if_pos (.inl rfl)
  rw [if_neg hlo, if_neg hhi]
  by_cases hrest : rest = []
  · rw [if_pos (c := rest = [] ∧ _) ⟨hrest, by omega, by omega⟩]
    exact if_neg (by simp [hrest])
  · rw [if_neg (c := rest = [] ∧ _) fun h => hrest h.1]
    exact if_pos (.inr (by simpa using hrest))

theorem toNumeric_of_not_begins {t : NumType} (ht : t.isFloat = false) {s : Text}
    (h : ∀ v rest, ¬ Begins (cstr s) v rest) : toNumeric fl (.num t) s = 0 := by
  rw [toNumeric_integral fl ht, (strto_of_not_begins h).1]
  exact if_pos (.inr (by simp))

theorem toNumeric_of_not_denotes {t : NumType} (ht : t.isFloat = false) {s : Text}
    (h : ∀ v, ¬ Denotes (cstr s) v) : toNumeric fl (.num t) s = 0 := by
  by_cases hb : ∃ v rest, Begins (cstr s) v rest
  · obtain ⟨v, rest, hb⟩ := hb
    rw [toNumeric_of_begins fl ht hb, if_neg]
    rintro ⟨rfl, -⟩
    exact h v hb
  · exact toNumeric_of_not_begins fl ht fun v rest hv => hb ⟨v, rest, hv⟩

theorem denotes_cstr_iff {s : Text} {v : ℤ} :
    Denotes s v ↔ (0 : UInt8) ∉ s ∧ Denotes (cstr s) v := by
  constructor
  · intro h
    rw [cstr_eq_self s h.nul_not_mem]
    exact ⟨h.nul_not_mem, h⟩
  · rintro ⟨hnul, h⟩
    rwa [cstr_eq_self s hnul] at h

theorem meant_iff_of_denotes {t : NumType} {s : Text} {v : ℤ} (h : Denotes (cstr s) v)
    (x : t.Word) :
    Meant t s x ↔ wordInt t x = if (0 : UInt8) ∉ s ∧ Representable t v then v else 0 := by
  have hv : ∀ v', Denotes s v' ↔ (0 : UInt8) ∉ s ∧ v' = v := fun v' => by
    rw [denotes_cstr_iff]
    exact and_congr_right fun _ => ⟨fun h' => (h'.unique h).1, fun e => e ▸ h⟩
  simp only [Meant, hv]
  split_ifs with hc
  · constructor
    · rintro (⟨v', ⟨-, rfl⟩, -, hx⟩ | ⟨hnot, -⟩)
      · exact hx
      · exact absurd hc.2 (hnot v ⟨hc.1, rfl⟩)
    · exact fun hx => .inl ⟨v, ⟨hc.1, rfl⟩, hc.2, hx⟩
  · constructor
    · rintro (⟨v', ⟨hnul, rfl⟩, hrep, -⟩ | ⟨-, hx⟩)
      · exact absurd ⟨hnul, hrep⟩ hc
      · exact hx
    · refine fun hx => .inr ⟨?_, hx⟩
      rintro v' ⟨hnul, rfl⟩ hrep
      exact hc ⟨hnul, hrep⟩

theorem meant_toNumeric_iff {t : NumType} (ht : t.isFloat = false) (s : Text) :
    Meant t s (toNumeric fl (.num t) s) ↔ Unwrapped t s := by
  by_cases hd : ∃ v, Denotes (cstr s) v
  · obtain ⟨v, hv⟩ := hd
    have hunwrapped : Unwrapped t s ↔
        if (0 : UInt8) ∉ s ∧ Representable t v then v ≤ longMax
        else v < longMin ∨ longMax < v ∨ (2 : ℤ) ^ (8 * t.bytes) ∣ v := by
      refine ⟨fun h => h v hv, fun h v' hv' => ?_⟩
      rwa [(hv'.unique hv).1]
    rw [hunwrapped, meant_iff_of_denotes hv, toNumeric_of_begins fl ht hv]
    split_ifs with hrange hc hc
    · exact iff_of_true (wordInt_ofInt t hc.2) hrange.2.2
    · have hin : ¬ v < longMin ∧ ¬ longMax < v := by omega
      rw [← wordInt_zero t, wordInt_inj, ofInt_eq_zero_iff]
      simp only [hin.1, hin.2, false_or]
    · have hlo := longMin_le_of_representable t hc.2
      have hhi : ¬ v ≤ longMax := fun hle => hrange ⟨rfl, hlo, hle⟩
      have hmax : longMax = 2 ^ 63 - 1 := rfl
      rw [wordInt_zero]
      omega
    · refine iff_of_true (wordInt_zero t) ?_
      by_cases hlo : v < longMin
      · exact .inl hlo
      · exact .inr (.inl (not_le.mp fun hle => hrange ⟨rfl, not_lt.mp hlo, hle⟩))
  · have hnone : ∀ v, ¬ Denotes (cstr s) v := fun v hv => hd ⟨v, hv⟩
    rw [toNumeric_of_not_denotes fl ht hnone]
    refine iff_of_true (.inr ⟨fun v hv => ?_, wordInt_zero t⟩) fun v hv => absurd hv (hnone v)
    exact absurd (denotes_cstr_iff.mp hv).2 (hnone v)

/-! ## The vector -/

/-- For every integral type but `bool` and every list of texts: `toNumericVector` gives every text its
value if and only if no text holds a number that the type has not and the cast makes something
of, or one past the range of `long long` that the type has. -/
theorem toNumericVector_meant_iff (t : NumType) (ht : t.isFloat = false) (strVec : List Text) :
    List.Forall₂ (Meant t) strVec (toNumericVector fl (.num t) strVec) ↔
      ∀ s ∈ strVec, Unwrapped t s := by
  rw [toNumericVector, List.forall₂_map_right_iff, List.forall₂_same]
  exact forall₂_congr fun s _ => meant_toNumeric_iff fl ht s

theorem toNumericVector_meant_int16 :
    List.Forall₂ (Meant .int16) [text " -5", text "7x"]
      (toNumericVector Console.plain.float (.num .int16) [text " -5", text "7x"]) := by
  have hminus : Unwrapped .int16 (text " -5") := by
    intro v hv
    have hfive : Denotes (cstr (text " -5")) (-5) := begins_iff.mpr ⟨true, 5, by decide, rfl⟩
    obtain rfl := (hv.unique hfive).1
    decide
  have htrailing : Unwrapped .int16 (text "7x") := by
    intro v hv
    have hseven : Begins (cstr (text "7x")) 7 (text "x") := begins_iff.mpr ⟨false, 7, by decide, rfl⟩
    exact absurd (hv.unique hseven).2 (by decide)
  refine (toNumericVector_meant_iff Console.plain.float .int16 rfl [text " -5", text "7x"]).mpr ?_
  exact List.forall_mem_cons.mpr ⟨hminus, List.forall_mem_singleton.mpr htrailing⟩

/-- `300` is no `int8_t`, and 44 is handed over for it. -/
theorem toNumericVector_int8_wraps :
    toNumericVector Console.plain.float (.num .int8) [text "300"] =
      ([44] : List (ElemType.num .int8).Val) ∧
    ¬ List.Forall₂ (Meant .int8) [text "300"]
      (toNumericVector Console.plain.float (.num .int8) [text "300"]) := by
  have hval : toNumericVector Console.plain.float (.num .int8) [text "300"] =
      ([44] : List (ElemType.num .int8).Val) := by decide
  refine ⟨hval, fun h => ?_⟩
  have hmeant : Meant .int8 (text "300") 44 := by
    rw [hval] at h
    exact (List.forall₂_cons.mp h).1
  have hthree : Denotes (cstr (text "300")) 300 := begins_iff.mpr ⟨false, 300, by decide, rfl⟩
  exact absurd ((meant_iff_of_denotes hthree 44).mp hmeant) (by decide)

end Plctagt.Gui
