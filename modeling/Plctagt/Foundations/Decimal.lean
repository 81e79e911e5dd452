import Mathlib

/-! # Byte strings and decimal numbers, as the C library reads and prints them

A C++ string is a list of bytes (`Text`). Numbers are printed in decimal (`printNat`, `printInt`)
and read back by the `strto*` family: optional white space, an optional sign, then as many digits
as there are. What is modelled is the documented behaviour on 64-bit `long` and `long long`:
the range clamp with `ERANGE`, the end pointer, and the negation `strtoul` applies to a signed
input. The main fact is that reading what was printed gives the number back (`scan_printInt`).
-/
namespace Plctagt.Decimal
set_option autoImplicit false

/-! ## Byte strings -/

/-- A C++ string, byte by byte. -/
abbrev Text := List UInt8

def text (s : String) : Text := s.toList.map fun c => UInt8.ofNat c.toNat

/-- What `c_str()` shows to a C function: everything before the first NUL. -/
def cstr (s : Text) : Text := s.takeWhile (· ≠ 0)

theorem cstr_eq_self (s : Text) (h : (0 : UInt8) ∉ s) : cstr s = s := by
  rw [cstr, List.takeWhile_eq_self_iff]
  intro b hb
  have hne : b ≠ 0 := fun e => h (e ▸ hb)
  simpa using hne

/-- `snprintf` into a buffer of `n` bytes keeps `n - 1` of them and the terminator. -/
def snprintf (n : ℕ) (s : Text) : Text := s.take (n - 1)

theorem snprintf_eq_self (n : ℕ) (s : Text) (h : s.length < n) : snprintf n s = s :=
  List.take_of_length_le (by omega)

/-! ## Digits -/

def isSpace (b : UInt8) : Bool := b == 32 || (9 ≤ b && b ≤ 13)

def isDigit (b : UInt8) : Bool := 48 ≤ b && b ≤ 57

def digitByte (d : ℕ) : UInt8 := UInt8.ofNat (48 + d)

def digitVal (b : UInt8) : ℕ := b.toNat - 48

theorem digitByte_spec : ∀ d < 10,
    isDigit (digitByte d) = true ∧ digitVal (digitByte d) = d ∧
    isSpace (digitByte d) = false ∧ digitByte d ≠ 43 ∧ digitByte d ≠ 45 ∧ digitByte d ≠ 0 := by
  decide

/-- The number written by a digit string. -/
def digitsVal (s : Text) : ℕ := Nat.ofDigits 10 (s.reverse.map digitVal)

def printNat (n : ℕ) : Text :=
  if n = 0 then [digitByte 0] else ((Nat.digits 10 n).map digitByte).reverse

def printInt (n : ℤ) : Text := if n < 0 then 45 :: printNat n.natAbs else printNat n.natAbs

theorem mem_printNat (n : ℕ) (b : UInt8) (h : b ∈ printNat n) : ∃ d < 10, b = digitByte d := by
  unfold printNat at h
  split at h
  · exact ⟨0, by norm_num, by simpa using h⟩
  · obtain ⟨d, hd, rfl⟩ := List.mem_map.mp (List.mem_reverse.mp h)
    exact ⟨d, Nat.digits_lt_base (by norm_num) hd, rfl⟩

theorem isDigit_of_mem_printNat (n : ℕ) (b : UInt8) (h : b ∈ printNat n) : isDigit b = true := by
  obtain ⟨d, hd, rfl⟩ := mem_printNat n b h
  exact (digitByte_spec d hd).1

theorem printNat_ne_nil (n : ℕ) : printNat n ≠ [] := by
  unfold printNat
  split
  · simp
  · simpa using Nat.digits_ne_nil_iff_ne_zero.mpr ‹n ≠ 0›

theorem digitsVal_printNat (n : ℕ) : digitsVal (printNat n) = n := by
  unfold digitsVal printNat
  split
  · next h => subst h; decide
  · have hmap : ((Nat.digits 10 n).map digitByte).map digitVal = Nat.digits 10 n := by
      rw [List.map_map]
      refine (List.map_congr_left (fun d hd => ?_)).trans (List.map_id _)
      exact (digitByte_spec d (Nat.digits_lt_base (by norm_num) hd)).2.1
    rw [List.reverse_reverse, hmap, Nat.ofDigits_digits]

theorem length_printNat_le_iff {n k : ℕ} (hk : 0 < k) : (printNat n).length ≤ k ↔ n < 10 ^ k := by
  unfold printNat
  split
  · next h =>
    rw [h]
    exact iff_of_true hk (by positivity)
  · rw [List.length_reverse, List.length_map]
    exact Nat.digits_length_le_iff (by norm_num) n

theorem printNat_length_le (n k : ℕ) (hk : 0 < k) (h : n < 10 ^ k) : (printNat n).length ≤ k :=
  (length_printNat_le_iff hk).mpr h

theorem printNat_injective {m n : ℕ} (h : printNat m = printNat n) : m = n := by
  rw [← digitsVal_printNat m, h, digitsVal_printNat]

theorem printNat_digit {d : ℕ} (h0 : 0 < d) (hd : d < 10) : printNat d = [digitByte d] := by
  rw [printNat, if_neg h0.ne', Nat.digits_of_lt 10 d h0.ne' hd]
  rfl

/-- One digit more. -/
theorem printNat_concat {m d : ℕ} (hm : 0 < m) (hd : d < 10) :
    printNat (d + 10 * m) = printNat m ++ [digitByte d] := by
  have hdigits : Nat.digits 10 (d + 10 * m) = d :: Nat.digits 10 m :=
    Nat.digits_add 10 (by norm_num) d m hd (.inr hm.ne')
  rw [printNat, if_neg (by omega), hdigits, printNat, if_neg hm.ne', List.map_cons,
    List.reverse_cons]

/-! ## Reading numbers -/

/-- Sign and digits of a number text: the sign, the magnitude and what follows the last digit;
`none` when there is no digit to convert. -/
def scan (s : Text) : Option (Bool × ℕ × Text) :=
  let body := s.dropWhile isSpace
  let neg := body.head? = some 45
  let body := if body.head? = some 45 ∨ body.head? = some 43 then body.tail else body
  let digits := body.takeWhile isDigit
  if digits = [] then none else some (neg, digitsVal digits, body.dropWhile isDigit)

/-- What a `strto*` call leaves behind: the value, whether `errno` is `ERANGE`, and the text from
the end pointer on (`none`: nothing was converted and the end pointer is the start). -/
structure Strto where
  value : ℤ
  erange : Bool
  rest : Option Text
  deriving DecidableEq

def longMin : ℤ := -2 ^ 63
def longMax : ℤ := 2 ^ 63 - 1
def ulongMax : ℕ := 2 ^ 64 - 1
def intMin : ℤ := -2 ^ 31
def intMax : ℤ := 2 ^ 31 - 1

/-- `strtol` and `strtoll`, base 10: out of range clamps and sets `ERANGE`. -/
def strtoll (s : Text) : Strto :=
  match scan (cstr s) with
  | none => ⟨0, false, none⟩
  | some (neg, n, rest) =>
    let v : ℤ := if neg then -n else n
    if v < longMin then ⟨longMin, true, some rest⟩
    else if longMax < v then ⟨longMax, true, some rest⟩
    else ⟨v, false, some rest⟩

/-- `strtoul` and `strtoull`, base 10: a minus sign negates the result modulo `2 ^ 64`. -/
def strtoull (s : Text) : Strto :=
  match scan (cstr s) with
  | none => ⟨0, false, none⟩
  | some (neg, n, rest) =>
    if ulongMax < n then ⟨ulongMax, true, some rest⟩
    else if neg then ⟨(-(n : ℤ)) % 2 ^ 64, false, some rest⟩
    else ⟨n, false, some rest⟩

/-- `std::stoi`: `none` stands for either exception, no conversion or out of the `int` range. -/
def stoi (s : Text) : Option ℤ :=
  let r := strtoll s
  if r.rest = none ∨ r.erange = true ∨ r.value < intMin ∨ intMax < r.value then none
  else some r.value

/-- `atoi`: the low 32 bits of `strtol`, as an `int`; 0 when nothing converts. -/
def atoi (s : Text) : ℤ := (BitVec.ofInt 32 (strtoll s).value).toInt

/-! ## Reading what was printed -/

theorem mem_printInt (n : ℤ) (b : UInt8) (h : b ∈ printInt n) : isDigit b = true ∨ b = 45 := by
  unfold printInt at h
  split at h
  · rcases List.mem_cons.mp h with h | h
    · exact .inr h
    · exact .inl (isDigit_of_mem_printNat _ b h)
  · exact .inl (isDigit_of_mem_printNat _ b h)

/-- A byte that is neither a digit nor the sign is not printed. -/
theorem not_mem_printInt (n : ℤ) {b : UInt8} (hdigit : isDigit b = false) (hsign : b ≠ 45) :
    b ∉ printInt n := by
  intro h
  rcases mem_printInt n b h with hd | hb
  · rw [hdigit] at hd
    cases hd
  · exact hsign hb

theorem cstr_printInt (n : ℤ) : cstr (printInt n) = printInt n :=
  cstr_eq_self _ (not_mem_printInt n (by decide) (by decide))

theorem printNat_head (n : ℕ) : ∃ d < 10, ∃ t, printNat n = digitByte d :: t := by
  cases hp : printNat n with
  | nil => exact absurd hp (printNat_ne_nil n)
  | cons b t =>
    obtain ⟨d, hd, rfl⟩ := mem_printNat n b (by rw [hp]; exact List.mem_cons_self)
    exact ⟨d, hd, t, rfl⟩

theorem takeWhile_printNat (n : ℕ) : (printNat n).takeWhile isDigit = printNat n :=
  List.takeWhile_eq_self_iff.mpr (isDigit_of_mem_printNat n)

theorem dropWhile_printNat (n : ℕ) : (printNat n).dropWhile isDigit = [] :=
  List.dropWhile_eq_nil_iff.mpr (isDigit_of_mem_printNat n)

theorem scan_printNat (n : ℕ) : scan (printNat n) = some (false, n, []) := by
  obtain ⟨d, hd, t, ht⟩ := printNat_head n
  obtain ⟨-, -, hsp, hplus, hminus, -⟩ := digitByte_spec d hd
  have hbody : (printNat n).dropWhile isSpace = printNat n := by
    rw [ht, List.dropWhile_cons, hsp]
    rfl
  have h45 : (printNat n).head? ≠ some 45 := by rw [ht]; simpa using hminus
  have h43 : (printNat n).head? ≠ some 43 := by rw [ht]; simpa using hplus
  simp only [scan, hbody, h45, h43, or_self, if_false, takeWhile_printNat, dropWhile_printNat,
    printNat_ne_nil, digitsVal_printNat, decide_false]

theorem scan_printInt (n : ℤ) : scan (printInt n) = some (decide (n < 0), n.natAbs, []) := by
  unfold printInt
  split
  · next h =>
    have hbody : (45 :: printNat n.natAbs).dropWhile isSpace = 45 :: printNat n.natAbs := by
      rw [List.dropWhile_cons]
      rfl
    simp only [scan, hbody, List.head?_cons, true_or, if_true, List.tail_cons,
      takeWhile_printNat, dropWhile_printNat, printNat_ne_nil, if_false, digitsVal_printNat,
      decide_true, h]
  · next h => rw [scan_printNat, decide_eq_false h]

theorem strtoll_printInt (n : ℤ) (hlo : longMin ≤ n) (hhi : n ≤ longMax) :
    strtoll (printInt n) = ⟨n, false, some []⟩ := by
  have hv : (if decide (n < 0) = true then -(n.natAbs : ℤ) else n.natAbs) = n := by
    by_cases h : n < 0 <;> simp only [h, decide_true, decide_false, if_true, if_false,
      Bool.false_eq_true] <;> omega
  simp only [strtoll, cstr_printInt, scan_printInt, hv]
  rw [if_neg (by omega), if_neg (by omega)]

theorem strtoll_printInt_big (n : ℤ) (h : longMax < n) :
    strtoll (printInt n) = ⟨longMax, true, some []⟩ := by
  have h0 : (0 : ℤ) ≤ longMax := by decide
  have hlo : longMin ≤ 0 := by decide
  have hv : (if decide (n < 0) = true then -(n.natAbs : ℤ) else n.natAbs) = n := by
    rw [decide_eq_false (by omega), if_neg (by simp)]
    omega
  simp only [strtoll, cstr_printInt, scan_printInt, hv]
  rw [if_neg (by omega), if_pos h]

theorem strtoull_printNat (n : ℕ) (h : n ≤ ulongMax) :
    strtoull (printInt n) = ⟨n, false, some []⟩ := by
  have hneg : ¬ (n : ℤ) < 0 := by omega
  simp only [strtoull, cstr_printInt, scan_printInt, hneg, decide_false, Int.natAbs_natCast]
  rw [if_neg (by omega)]
  rfl

theorem printInt_length_le (n : ℤ) (k : ℕ) (hk : 0 < k) (h : n.natAbs < 10 ^ k) :
    (printInt n).length ≤ k + 1 := by
  have := printNat_length_le n.natAbs k hk h
  unfold printInt
  split
  · rw [List.length_cons]; omega
  · omega

theorem stoi_printNat (n : ℕ) (h : (n : ℤ) ≤ intMax) : stoi (printInt n) = some (n : ℤ) := by
  have hb : intMax ≤ longMax := by decide
  have hl : longMin ≤ 0 := by decide
  have hi : intMin ≤ 0 := by decide
  rw [stoi, strtoll_printInt n (by omega) (by omega)]
  rw [if_neg (by simp; omega)]

theorem atoi_le_intMax (s : Text) : atoi s ≤ intMax := by
  have hlt := BitVec.toInt_lt (x := BitVec.ofInt 32 (strtoll s).value)
  have hmax : intMax = 2 ^ 31 - 1 := rfl
  rw [atoi]
  omega

theorem atoi_printNat (n : ℕ) (h : (n : ℤ) ≤ intMax) : atoi (printInt n) = n := by
  have hb : intMax ≤ longMax := by decide
  have hl : longMin ≤ 0 := by decide
  have hmax : intMax = 2 ^ 31 - 1 := rfl
  rw [atoi, strtoll_printInt n (by omega) (by omega), BitVec.toInt_ofInt]
  show Int.bmod n (2 ^ 32) = n
  exact Int.bmod_eq_of_le (by omega) (by omega)

example : strtoll (text " -12x") = ⟨-12, false, some (text "x")⟩ := by decide

end Plctagt.Decimal
