import Plctagt.Foundations.Decimal

/-! # The number a text begins with

`scan` goes through a text from left to right. `Begins s v rest` says the same of the text as a whole:
it is white space, an optional sign, digits, and a rest that begins with no digit, and `v` is the
integer that sign and digits write. With nothing left the text denotes `v`. `strtoll` and
`strtoull` are then functions of `v` and the rest (`strtoll_of_begins`, `strtoull_of_begins`).
-/
namespace Plctagt.Decimal
set_option autoImplicit false

inductive Sign
  | none
  | plus
  | minus

def Sign.text : Sign → Text
  | .none => []
  | .plus => [43]
  | .minus => [45]

def Sign.apply : Sign → ℕ → ℤ
  | .minus, n => -n
  | _, n => n

def Begins (s : Text) (v : ℤ) (rest : Text) : Prop :=
  ∃ (space : Text) (sign : Sign) (digits : Text),
    (∀ b ∈ space, isSpace b = true) ∧ digits ≠ [] ∧ (∀ b ∈ digits, isDigit b = true) ∧
    (∀ b ∈ rest.head?, isDigit b = false) ∧
    s = space ++ (sign.text ++ (digits ++ rest)) ∧ v = sign.apply (digitsVal digits)

/-- The whole text is the integer `v`. -/
def Denotes (s : Text) (v : ℤ) : Prop := Begins s v []

/-- The integer of a sign and a magnitude, as `strtoll` puts them together. -/
def signed (neg : Bool) (n : ℕ) : ℤ := if neg then -n else n

theorem isDigit_spec : ∀ b : UInt8, isDigit b = true → isSpace b = false ∧ b ≠ 43 ∧ b ≠ 45 := by
  decide +kernel

theorem dropWhile_digits {digits rest : Text} (hdigits : ∀ b ∈ digits, isDigit b = true)
    (hrest : ∀ b ∈ rest.head?, isDigit b = false) :
    (digits ++ rest).takeWhile isDigit = digits ∧ (digits ++ rest).dropWhile isDigit = rest := by
  rw [List.takeWhile_append_of_pos hdigits, List.dropWhile_append_of_pos hdigits]
  cases rest with
  | nil => simp
  | cons b t =>
    have hb : isDigit b = false := hrest b rfl
    simp [hb]

theorem scan_of_begins {s : Text} {v : ℤ} {rest : Text} (h : Begins s v rest) :
    ∃ neg n, scan s = some (neg, n, rest) ∧ v = signed neg n := by
  obtain ⟨space, sign, digits, hspace, hne, hdigits, hrest, rfl, rfl⟩ := h
  obtain ⟨htake, hdrop⟩ := dropWhile_digits hdigits hrest
  obtain ⟨d, t, rfl⟩ := List.exists_cons_of_ne_nil hne
  obtain ⟨hsp, hplus, hminus⟩ := isDigit_spec d (hdigits d List.mem_cons_self)
  simp only [scan, List.dropWhile_append_of_pos hspace]
  cases sign with
  | none =>
    have hbody : (Sign.text .none ++ (d :: t ++ rest)).dropWhile isSpace = d :: t ++ rest := by
      simp [Sign.text, hsp]
    refine ⟨false, digitsVal (d :: t), ?_, rfl⟩
    have h45 : (d :: t ++ rest).head? ≠ some 45 := by simpa using hminus
    have h43 : (d :: t ++ rest).head? ≠ some 43 := by simpa using hplus
    simp only [hbody, h45, h43, or_self, if_false, htake, hdrop, hne, decide_false]
  | plus =>
    have hbody : (Sign.text .plus ++ (d :: t ++ rest)).dropWhile isSpace = 43 :: (d :: t ++ rest) :=
      rfl
    refine ⟨false, digitsVal (d :: t), ?_, rfl⟩
    simp only [hbody, List.head?_cons, or_true, if_true, List.tail_cons, htake, hdrop, hne, if_false]
    rfl
  | minus =>
    have hbody : (Sign.text .minus ++ (d :: t ++ rest)).dropWhile isSpace = 45 :: (d :: t ++ rest) :=
      rfl
    refine ⟨true, digitsVal (d :: t), ?_, rfl⟩
    simp only [hbody, List.head?_cons, true_or, if_true, List.tail_cons, htake, hdrop, hne,
      if_false, decide_true]

/-- The sign `scan` takes off, and what it leaves. -/
theorem sign_split (body : Text) : ∃ sign : Sign,
    body = sign.text ++
      (if body.head? = some 45 ∨ body.head? = some 43 then body.tail else body) ∧
    ∀ n, sign.apply n = signed (decide (body.head? = some 45)) n := by
  by_cases hminus : body.head? = some 45
  · obtain ⟨t, rfl⟩ : ∃ t, body = 45 :: t := List.head?_eq_some_iff.mp hminus
    exact ⟨.minus, rfl, fun n => rfl⟩
  by_cases hplus : body.head? = some 43
  · obtain ⟨t, rfl⟩ : ∃ t, body = 43 :: t := List.head?_eq_some_iff.mp hplus
    exact ⟨.plus, rfl, fun n => rfl⟩
  · refine ⟨.none, ?_, fun n => ?_⟩
    · rw [if_neg (by simp [hminus, hplus])]
      rfl
    · rw [decide_eq_false hminus]
      rfl

theorem begins_of_scan {s : Text} {neg : Bool} {n : ℕ} {rest : Text}
    (h : scan s = some (neg, n, rest)) : Begins s (signed neg n) rest := by
  obtain ⟨sign, hbody, hsign⟩ := sign_split (s.dropWhile isSpace)
  simp only [scan] at h
  generalize hcut : (if (s.dropWhile isSpace).head? = some 45 ∨ (s.dropWhile isSpace).head? = some 43
    then (s.dropWhile isSpace).tail else s.dropWhile isSpace) = cut at h hbody
  split at h
  · cases h
  · next hne =>
    simp only [Option.some.injEq, Prod.mk.injEq] at h
    obtain ⟨rfl, rfl, rfl⟩ := h
    refine ⟨s.takeWhile isSpace, sign, cut.takeWhile isDigit, ?_, hne, ?_, ?_, ?_, (hsign _).symm⟩
    · exact fun b hb => List.mem_takeWhile_imp hb
    · exact fun b hb => List.mem_takeWhile_imp hb
    · intro b hb
      have := List.head?_dropWhile_not isDigit cut
      rw [hb] at this
      simpa using this
    · rw [List.takeWhile_append_dropWhile, ← hbody, List.takeWhile_append_dropWhile]

theorem begins_iff {s : Text} {v : ℤ} {rest : Text} :
    Begins s v rest ↔ ∃ neg n, scan s = some (neg, n, rest) ∧ v = signed neg n := by
  constructor
  · exact scan_of_begins
  · rintro ⟨neg, n, hscan, rfl⟩
    exact begins_of_scan hscan

theorem Begins.unique {s : Text} {v v' : ℤ} {rest rest' : Text} (h : Begins s v rest)
    (h' : Begins s v' rest') : v = v' ∧ rest = rest' := by
  obtain ⟨neg, n, hscan, rfl⟩ := begins_iff.mp h
  obtain ⟨neg', n', hscan', rfl⟩ := begins_iff.mp h'
  rw [hscan] at hscan'
  cases hscan'
  exact ⟨rfl, rfl⟩

/-- A number has no NUL in it. -/
theorem Denotes.nul_not_mem {s : Text} {v : ℤ} (h : Denotes s v) : (0 : UInt8) ∉ s := by
  obtain ⟨space, sign, digits, hspace, -, hdigits, -, rfl, -⟩ := h
  simp only [List.append_nil, List.mem_append, not_or]
  refine ⟨fun h0 => ?_, ?_, fun h0 => ?_⟩
  · exact absurd (hspace 0 h0) (by decide)
  · cases sign <;> decide
  · exact absurd (hdigits 0 h0) (by decide)

theorem denotes_printInt (n : ℤ) : Denotes (printInt n) n := by
  refine begins_iff.mpr ⟨_, _, scan_printInt n, ?_⟩
  by_cases h : n < 0 <;> simp only [signed, h, decide_true, decide_false, if_true, if_false,
    Bool.false_eq_true] <;> omega

/-! ## The conversions -/

theorem strtoll_of_begins {s : Text} {v : ℤ} {rest : Text} (h : Begins (cstr s) v rest) :
    strtoll s = if v < longMin then ⟨longMin, true, some rest⟩
      else if longMax < v then ⟨longMax, true, some rest⟩ else ⟨v, false, some rest⟩ := by
  obtain ⟨neg, n, hscan, rfl⟩ := begins_iff.mp h
  simp only [strtoll, hscan, signed]
  rfl

theorem strtoull_of_begins {s : Text} {v : ℤ} {rest : Text} (h : Begins (cstr s) v rest) :
    strtoull s = if (ulongMax : ℤ) < |v| then ⟨ulongMax, true, some rest⟩
      else ⟨v % 2 ^ 64, false, some rest⟩ := by
  obtain ⟨neg, n, hscan, rfl⟩ := begins_iff.mp h
  have habs : |signed neg n| = n := by cases neg <;> simp [signed]
  simp only [strtoull, hscan, habs, Nat.cast_lt]
  by_cases hbig : ulongMax < n
  · rw [if_pos hbig, if_pos hbig]
  · rw [if_neg hbig, if_neg hbig]
    cases neg with
    | true => rfl
    | false =>
      have hn : (n : ℤ) % 2 ^ 64 = n := by
        have : ulongMax = 2 ^ 64 - 1 := rfl
        exact Int.emod_eq_of_lt (by omega) (by omega)
      show (⟨(n : ℤ), false, some rest⟩ : Strto) = ⟨(n : ℤ) % 2 ^ 64, false, some rest⟩
      rw [hn]

theorem strto_of_not_begins {s : Text} (h : ∀ v rest, ¬ Begins (cstr s) v rest) :
    strtoll s = ⟨0, false, none⟩ ∧ strtoull s = ⟨0, false, none⟩ := by
  have hscan : scan (cstr s) = none := by
    cases hs : scan (cstr s) with
    | none => rfl
    | some r => exact absurd (begins_of_scan hs) (h _ _)
  simp only [strtoll, strtoull, hscan, and_self]

example : Denotes (text " -12") (-12) :=
  begins_iff.mpr ⟨true, 12, by decide, rfl⟩

end Plctagt.Decimal
