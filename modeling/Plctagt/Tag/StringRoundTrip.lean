import Plctagt.Tag.StringTag
import Plctagt.Tag.NumericRoundTrip

/-! # Strings of a fixed-length counted definition, written and read back

The writer places element `i` at `i` times the length of element 0; the reader walks by the length
of each string. For a fixed-length definition both are the definition's total length, whatever the
buffer held before. `StringAt` says that the buffer holds a string at an offset; it speaks about the
bytes of that field only, so a later store to another field keeps it.
-/
namespace Plctagt.Tag
open Effects Bytes Decimal
set_option autoImplicit false

/-! ## Fixed-length counted definitions -/

/-- Count word of 2 or 4 bytes, then `strMaxCapacity` characters, then padding. -/
structure FixedCounted (b : TagByteOrder) : Prop where
  defined : b.strIsDefined = true
  counted : b.strIsCounted = true
  fixedLength : b.strIsFixedLength = true
  unterminated : b.strIsZeroTerminated = false
  countWord : b.strCountWordBytes = 2 ∨ b.strCountWordBytes = 4
  capacity : b.strMaxCapacity < 2 ^ 15
  swapped : b.strIsByteSwapped = true → b.strMaxCapacity % 2 = 0
  total : b.strTotalLength = b.strCountWordBytes + b.strMaxCapacity + b.strPadBytes

namespace FixedCounted
variable {b : TagByteOrder} (hb : FixedCounted b)
include hb

theorem countWord_le : b.strCountWordBytes ≤ 4 ∧ 2 ≤ b.strCountWordBytes := by
  have := hb.countWord
  omega

theorem capacity_le_total : b.strCountWordBytes + b.strMaxCapacity ≤ b.strTotalLength := by
  have := hb.total
  omega

theorem total_pos : 0 < b.strTotalLength := by
  have := hb.countWord_le
  have := hb.total
  omega

end FixedCounted

/-! ## The places of the characters -/

theorem charIndex_lt (b : TagByteOrder) (cap i : ℕ)
    (hcap : b.strIsByteSwapped = true → cap % 2 = 0) (hi : i < cap) : b.charIndex i < cap := by
  unfold TagByteOrder.charIndex
  split
  · next hs =>
    have := hcap hs
    split <;> omega
  · exact hi

theorem charIndex_injective (b : TagByteOrder) (i j : ℕ) (h : b.charIndex i = b.charIndex j) :
    i = j := by
  unfold TagByteOrder.charIndex at h
  split at h
  · split at h <;> split at h <;> omega
  · exact h

/-! ## A string at an offset -/

section StringAt
variable (b : TagByteOrder)

def countAt (data : List UInt8) (offset : ℕ) : ℕ :=
  if b.strCountWordBytes = 2 then load data offset b.int16Order
  else load data offset b.int32Order

/-- The field at `offset` holds `s`: its count word counts the characters, and each is in place. -/
structure StringAt (data : List UInt8) (offset : ℕ) (s : Text) : Prop where
  count : countAt b data offset = s.length
  char : ∀ i (hi : i < s.length),
    data.getD (b.charIndex i + offset + b.strCountWordBytes) 0 = s[i]

variable {b} (hb : FixedCounted b)
include hb

theorem countAt_congr (data data' : List UInt8) (offset : ℕ)
    (h : ∀ i, offset ≤ i → i < offset + b.strCountWordBytes → data.getD i 0 = data'.getD i 0) :
    countAt b data offset = countAt b data' offset := by
  unfold countAt
  split
  · next h2 =>
    exact load_congr _ _ _ _ (fun i h1 hi => h i h1 (by omega))
  · next h2 =>
    have := hb.countWord
    exact load_congr _ _ _ _ (fun i h1 hi => h i h1 (by omega))

theorem StringAt.congr {data data' : List UInt8} {offset : ℕ} {s : Text}
    (hs : StringAt b data offset s) (hcap : s.length ≤ b.strMaxCapacity)
    (h : ∀ i, offset ≤ i → i < offset + b.strTotalLength → data'.getD i 0 = data.getD i 0) :
    StringAt b data' offset s := by
  have htot := hb.capacity_le_total
  refine ⟨?_, fun i hi => ?_⟩
  · rw [← hs.count]
    exact countAt_congr hb _ _ _ (fun i h1 h2 => h i h1 (by omega))
  · have := charIndex_lt b b.strMaxCapacity i hb.swapped (by omega)
    rw [← hs.char i hi]
    exact h _ (by omega) (by omega)

end StringAt

/-! ## Reading a string that is there -/

section Get
variable {p : PlcTag} {data : List UInt8} {offset : ℕ} {s : Text}

theorem getStringLengthUnsafe_eq (hb : FixedCounted p.byteOrder) (hd : p.data = some data)
    (hin : offset + p.byteOrder.strTotalLength ≤ data.length)
    (hs : countAt p.byteOrder data offset = s.length)
    (hcap : s.length ≤ p.byteOrder.strMaxCapacity) :
    getStringLengthUnsafe p offset = some (s.length : ℤ) := by
  have htot := hb.capacity_le_total
  have hcap' := hb.capacity
  unfold countAt at hs
  simp only [getStringLengthUnsafe, hb.counted, if_true, hd, Option.getD_some]
  rcases hb.countWord with h2 | h4
  · rw [if_pos h2] at hs
    simp only [h2, wordUnsafe]
    rw [if_pos (by push_cast; omega), Int.toNat_natCast, hs, Option.map_some, BitVec.toInt,
      BitVec.toNat_ofNat, Nat.mod_eq_of_lt (by omega), if_pos (by omega)]
  · rw [if_neg (by omega)] at hs
    simp only [h4, wordUnsafe]
    rw [if_pos (by push_cast; omega), Int.toNat_natCast, hs, Option.map_some, BitVec.toInt,
      BitVec.toNat_ofNat, Nat.mod_eq_of_lt (by omega), if_pos (by omega)]

theorem getStringTotalLengthUnsafe_eq (hb : FixedCounted p.byteOrder) (offset : ℤ) :
    getStringTotalLengthUnsafe p offset = some (p.byteOrder.strTotalLength : ℤ) := by
  simp only [getStringTotalLengthUnsafe, hb.fixedLength, hb.unterminated, if_true,
    Bool.false_eq_true, if_false, Option.map_some, hb.total, Option.some.injEq]
  push_cast
  omega

theorem copyOut_stringAt (hb : FixedCounted p.byteOrder) (hlen : data.length < 2 ^ 31)
    (hin : offset + p.byteOrder.strTotalLength ≤ data.length)
    (hs : StringAt p.byteOrder data offset s) (hcap : s.length ≤ p.byteOrder.strMaxCapacity) :
    copyOut p.byteOrder data offset s.length 0 = (plctagStatusOk, s) := by
  have htot := hb.capacity_le_total
  refine copyOut_eq p.byteOrder data offset s (by omega) (fun i hi => ?_) s.length 0 (by omega)
  have hidx := charIndex_lt p.byteOrder p.byteOrder.strMaxCapacity i hb.swapped (by omega)
  have hlt : p.byteOrder.charIndex i + offset + p.byteOrder.strCountWordBytes < data.length := by
    omega
  have hchar := hs.char i hi
  rw [List.getD_eq_getElem _ _ hlt] at hchar
  rw [List.getElem?_eq_getElem hlt, hchar]
  rfl

theorem plcTagGetString_eq (hb : FixedCounted p.byteOrder) (hd : p.data = some data)
    (hbit : p.isBit = false) (hlen : data.length < 2 ^ 31)
    (hin : offset + p.byteOrder.strTotalLength ≤ data.length)
    (hs : StringAt p.byteOrder data offset s) (hcap : s.length ≤ p.byteOrder.strMaxCapacity) :
    plcTagGetString p offset (s.length + 1) = some (plctagStatusOk, s ++ [0]) := by
  have htot := hb.capacity_le_total
  have hsize : p.size = data.length := PlcTag.size_eq hd
  have hmin : min s.length data.length = s.length := by omega
  have hmax : (if (s.length : ℤ) + 1 < s.length then (s.length : ℤ) + 1 else s.length)
      = s.length := if_neg (by omega)
  simp only [plcTagGetString, stringRefusal_none hb.defined hd hbit, hmax,
    getStringLengthUnsafe_eq hb hd hin hs.count hcap, Option.map_some, hsize, hd, Option.getD_some]
  rw [if_pos (by omega), Int.toNat_natCast, hmin,
    copyOut_stringAt hb hlen hin hs hcap]
  simp only [cleared]
  have e : ((s.length : ℤ) + 1).toNat - s.length = 1 := by omega
  rw [e]
  rfl

end Get

/-! ## Storing a string -/

theorem getD_zeroRange (data : List UInt8) (lo hi j : ℕ) (h : ¬ (lo ≤ j ∧ j < hi)) :
    (zeroRange data lo hi).getD j 0 = data.getD j 0 := by
  simp only [zeroRange, List.getD_eq_getElem?_getD, List.getElem?_mapIdx, if_neg h]
  cases data[j]? <;> rfl

@[simp] theorem zeroRange_length (data : List UInt8) (lo hi : ℕ) :
    (zeroRange data lo hi).length = data.length := List.length_mapIdx

section Put
variable {b : TagByteOrder} (hb : FixedCounted b)
include hb

theorem copyIn_spec (start : ℕ) (s : Text) (i : ℕ) (data : List UInt8)
    (hcap : i + s.length ≤ b.strMaxCapacity)
    (hin : start + b.strMaxCapacity ≤ data.length) (hlen : data.length < 2 ^ 31) :
    ∃ data', copyIn b start data i s = (plctagStatusOk, data') ∧ data'.length = data.length ∧
      (∀ j, (∀ k, k < s.length → j ≠ start + b.charIndex (i + k)) →
        data'.getD j 0 = data.getD j 0) ∧
      ∀ k (hk : k < s.length), data'.getD (start + b.charIndex (i + k)) 0 = s[k] := by
  induction s generalizing i data with
  | nil => exact ⟨data, rfl, rfl, fun j _ => rfl, fun k hk => absurd hk (by simp)⟩
  | cons c cs ih =>
    rw [List.length_cons] at hcap
    have hidx := charIndex_lt b b.strMaxCapacity i hb.swapped (by omega)
    have hu : toUnsigned ((start : ℤ) + b.charIndex i) = start + b.charIndex i := by
      rw [← Nat.cast_add, toUnsigned_natCast _ (by omega)]
    obtain ⟨data', heq, hlen', hframe, hchars⟩ :=
      ih (i + 1) (data.set (start + b.charIndex i) c) (by omega)
        (by rw [List.length_set]; exact hin) (by rw [List.length_set]; exact hlen)
    refine ⟨data', ?_, by rw [hlen', List.length_set], fun j hj => ?_, fun k hk => ?_⟩
    · rw [copyIn, hu, if_pos (by omega), heq]
    · rw [hframe j (fun k hk => by
        have := hj (k + 1) (by rw [List.length_cons]; omega)
        rwa [Nat.add_right_comm, Nat.add_assoc])]
      exact getD_set_ne _ _ _ _ (Ne.symm (hj 0 (by simp)))
    · cases k with
      | zero =>
        rw [hframe _ (fun k _ he => by
          have := charIndex_injective b _ _ (Nat.add_left_cancel he)
          omega)]
        exact getD_set_self _ _ _ (by omega)
      | succ k =>
        have e : i + (k + 1) = i + 1 + k := by omega
        rw [e]
        exact hchars k (by rw [List.length_cons] at hk; omega)

theorem setCountWord_spec (data : List UInt8) (offset length : ℕ)
    (hlength : length ≤ b.strMaxCapacity)
    (hin : offset + b.strCountWordBytes ≤ data.length) :
    ∃ data', setCountWord b data offset length = some (plctagStatusOk, data') ∧
      data'.length = data.length ∧ countAt b data' offset = length ∧
      ∀ j, (j < offset ∨ offset + b.strCountWordBytes ≤ j) →
        data'.getD j 0 = data.getD j 0 := by
  have hcap := hb.capacity
  rcases hb.countWord with h2 | h4
  · refine ⟨store data offset b.int16Order length, ?_, store_length _ _ _ _, ?_, fun j hj => ?_⟩
    · simp only [setCountWord, h2]
      rw [if_neg (by omega), if_neg (by omega), Int.toNat_natCast]
    · rw [countAt, if_pos h2, load_store _ _ _ _ (by omega), Nat.mod_eq_of_lt (by omega)]
    · exact store_frame _ _ _ _ _ (by omega)
  · refine ⟨store data offset b.int32Order length, ?_, store_length _ _ _ _, ?_, fun j hj => ?_⟩
    · simp only [setCountWord, h4]
      rw [if_neg (by omega), if_neg (by omega), Int.toNat_natCast]
    · rw [countAt, if_neg (by omega), load_store _ _ _ _ (by omega), Nat.mod_eq_of_lt (by omega)]
    · exact store_frame _ _ _ _ _ (by omega)

/-- The body of the setter puts the string in its field and changes no other field. -/
theorem setStringData_spec (data : List UInt8) (offset : ℕ) (s : Text)
    (hs : s.length ≤ b.strMaxCapacity) (hin : offset + b.strTotalLength ≤ data.length)
    (hlen : data.length < 2 ^ 31) :
    ∃ data', setStringData b data offset b.strTotalLength s = some (plctagStatusOk, data') ∧
      data'.length = data.length ∧ StringAt b data' offset s ∧
      ∀ j, (j < offset ∨ offset + b.strTotalLength ≤ j) → data'.getD j 0 = data.getD j 0 := by
  have htot := hb.capacity_le_total
  have hlo : toUnsigned (offset : ℤ) = offset := toUnsigned_natCast _ (by omega)
  have hhi : toUnsigned ((offset : ℤ) + b.strTotalLength) = offset + b.strTotalLength := by
    rw [← Nat.cast_add, toUnsigned_natCast _ (by omega)]
  have hst : toUnsigned ((offset : ℤ) + b.strCountWordBytes) = offset + b.strCountWordBytes := by
    rw [← Nat.cast_add, toUnsigned_natCast _ (by omega)]
  set zeroed := zeroRange data offset (offset + b.strTotalLength) with hzeroed
  have hzlen : zeroed.length = data.length := zeroRange_length _ _ _
  obtain ⟨data₁, hcount, hlen₁, hcountAt, hframe₁⟩ :=
    setCountWord_spec hb zeroed offset s.length hs (by omega)
  obtain ⟨data₂, hcopy, hlen₂, hframe₂, hchars⟩ :=
    copyIn_spec hb (offset + b.strCountWordBytes) s 0 data₁ (by omega) (by omega) (by omega)
  have hplace : ∀ k, k < s.length → b.charIndex (0 + k) < b.strMaxCapacity := fun k hk => by
    rw [Nat.zero_add]
    exact charIndex_lt b b.strMaxCapacity k hb.swapped (by omega)
  refine ⟨data₂, ?_, by rw [hlen₂, hlen₁, hzlen], ⟨?_, fun i hi => ?_⟩, fun j hj => ?_⟩
  · simp only [setStringData, hlo, hhi, ← hzeroed, hb.counted, if_true, hst, hb.unterminated]
    rw [if_neg (by omega), hcount]
    simp only [Option.map_some, ne_eq, not_true_eq_false, if_false, hcopy, Bool.false_eq_true]
  · rw [← hcountAt]
    refine countAt_congr hb _ _ _ (fun i h1 h2 => hframe₂ i (fun k _ => ?_))
    omega
  · have e : b.charIndex i + offset + b.strCountWordBytes
        = offset + b.strCountWordBytes + b.charIndex (0 + i) := by
      rw [Nat.zero_add]
      omega
    rw [e]
    exact hchars i hi
  · rw [hframe₂ j (fun k hk => by
      have := hplace k hk
      omega), hframe₁ j (by omega)]
    exact getD_zeroRange _ _ _ _ (by omega)

end Put

theorem plcTagSetString_spec (realloc : ℕ → Bool) {p : PlcTag} {data : List UInt8} {s : Text}
    (hb : FixedCounted p.byteOrder) (hd : p.data = some data) (hbit : p.isBit = false)
    (hlen : data.length < 2 ^ 31) (offset : ℕ)
    (hin : offset + p.byteOrder.strTotalLength ≤ data.length)
    (hs : s.length ≤ p.byteOrder.strMaxCapacity) :
    ∃ data', plcTagSetString realloc p offset s
        = some (plctagStatusOk, { p with data := some data' }) ∧
      data'.length = data.length ∧ StringAt p.byteOrder data' offset s ∧
      ∀ j, (j < offset ∨ offset + p.byteOrder.strTotalLength ≤ j) →
        data'.getD j 0 = data.getD j 0 := by
  obtain ⟨data', hset, hlen', hat, hframe⟩ := setStringData_spec hb data offset s hs hin hlen
  refine ⟨data', ?_, hlen', hat, hframe⟩
  have hpos := hb.total_pos
  have hnew : getNewStringTotalLengthUnsafe p.byteOrder s.length = p.byteOrder.strTotalLength := by
    simp only [getNewStringTotalLengthUnsafe, hb.fixedLength, if_true]
    rw [if_pos (by omega)]
  have hresize : resizeTagBufferAtOffset realloc data
      ((offset : ℤ) + p.byteOrder.strTotalLength) ((offset : ℤ) + p.byteOrder.strTotalLength)
        = (plctagStatusOk, data) := by
    unfold resizeTagBufferAtOffset
    rw [if_neg (by omega), if_neg (by omega), if_pos rfl]
  simp only [plcTagSetString, hb.defined, hbit, Bool.not_true, Bool.false_eq_true, if_false]
  rw [if_neg (by omega), getStringTotalLengthUnsafe_eq hb, Option.bind_some,
    if_neg (by omega), hnew, if_neg (by omega), if_neg (by simp), hd, Option.getD_some, hresize]
  simp only [ne_eq, not_true_eq_false, if_false, hset, Option.map_some]

/-! ## The loops against a connected tag -/

section Loops
variable {w : World} {tag : ℤ} {name : Text} {p : PlcTag} {d : Device} {data : List UInt8}

/-- The first `n` fields of the buffer hold the first `n` values. -/
def FieldsHold (b : TagByteOrder) (data : List UInt8) (values : List Text) (n : ℕ) : Prop :=
  ∀ j (hj : j < values.length), j < n → StringAt b data (j * b.strTotalLength) values[j]

/-- What is asked of the values: no NUL, and room in a field. -/
def Storable (b : TagByteOrder) (values : List Text) (n : ℕ) : Prop :=
  ∀ j (hj : j < values.length), j < n →
    (0 : UInt8) ∉ values[j] ∧ values[j].length ≤ b.strMaxCapacity

theorem field_in {total count i : ℕ} (hi : i < count) (hlen : data.length = count * total) :
    i * total + total ≤ data.length := by
  rw [hlen, ← Nat.succ_mul]
  exact Nat.mul_le_mul_right _ hi

theorem eval_getStringTotalLength (h : w.Connected tag name p d) (hb : FixedCounted p.byteOrder)
    (hd : p.data = some data) (hbit : p.isBit = false) (offset : ℤ) :
    eval World.serve (perform (.getStringTotalLength tag offset) >>= replied) w =
      (.ok (p.byteOrder.strTotalLength : ℤ), w) := by
  simp only [eval_perform_bind, World.serve, World.look_connected h, plcTagGetStringTotalLength,
    stringRefusal_none hb.defined hd hbit, getStringTotalLengthUnsafe_eq hb, replied, eval_pure]

theorem eval_setString (h : w.Connected tag name p d) (hb : FixedCounted p.byteOrder)
    (hd : p.data = some data) (hbit : p.isBit = false) (hbuf : data.length < 2 ^ 31)
    {count : ℕ} (hlen : data.length = count * p.byteOrder.strTotalLength)
    (values : List Text) (i : ℕ) (hi : i < values.length) (hin : i < count)
    (hok : Storable p.byteOrder values count) (hheld : FieldsHold p.byteOrder data values i) :
    ∃ data', eval World.serve
        (perform (.setString tag ((p.byteOrder.strTotalLength : ℤ) * i) (cstr values[i]))
          >>= replied) w = (.ok plctagStatusOk, w.setData tag name p data') ∧
      data'.length = data.length ∧ FieldsHold p.byteOrder data' values (i + 1) := by
  obtain ⟨hfree, hcap⟩ := hok i hi hin
  have e : (p.byteOrder.strTotalLength : ℤ) * i = ((i * p.byteOrder.strTotalLength : ℕ) : ℤ) := by
    push_cast
    ring
  obtain ⟨data', hset, hlen', hat, hframe⟩ := plcTagSetString_spec w.realloc (s := values[i]) hb hd
    hbit hbuf (i * p.byteOrder.strTotalLength) (field_in hin hlen) hcap
  refine ⟨data', ?_, hlen', fun j hj hji => ?_⟩
  · simp only [e, cstr_eq_self _ hfree, eval_perform_bind, World.serve, World.modify_connected h,
      hset, replied, eval_pure, World.setData]
  · rcases Nat.lt_succ_iff_lt_or_eq.mp hji with hlt | rfl
    · have hbefore : j * p.byteOrder.strTotalLength + p.byteOrder.strTotalLength
          ≤ i * p.byteOrder.strTotalLength := by
        rw [← Nat.succ_mul]
        exact Nat.mul_le_mul_right _ hlt
      exact (hheld j hj hlt).congr hb (hok j hj (by omega)).2
        (fun k _ hk => hframe k (.inl (by omega)))
    · exact hat

theorem eval_writeStrings (es : Text) (values : List Text) {count : ℕ} (n i : ℕ)
    (h : w.Connected tag name p d) (hb : FixedCounted p.byteOrder) (hd : p.data = some data)
    (hbit : p.isBit = false) (hbuf : data.length < 2 ^ 31)
    (hlen : data.length = count * p.byteOrder.strTotalLength) (hvalues : count ≤ values.length)
    (hin : i + n = count) (hok : Storable p.byteOrder values count)
    (hheld : FieldsHold p.byteOrder data values i) :
    ∃ data', eval World.serve (writeStrings es tag values n i) w
        = (.ok (plctagStatusOk, es), w.setData tag name p data') ∧
      data'.length = data.length ∧ FieldsHold p.byteOrder data' values count := by
  induction n generalizing i w p data with
  | zero =>
    refine ⟨data, ?_, rfl, by rwa [← hin]⟩
    rw [writeStrings, eval_pure, World.setData, ← hd, World.setSession_self h]
  | succ n ih =>
    have hi : i < values.length := by omega
    obtain ⟨data₁, hset, hlen₁, hheld₁⟩ :=
      eval_setString h hb hd hbit hbuf hlen values i hi (by omega) hok hheld
    obtain ⟨data₂, heq, hlen₂, hheld₂⟩ := ih (i + 1) (h.setData data₁) hb rfl hbit (by omega)
      (hlen₁.trans hlen) (by omega) hok hheld₁
    refine ⟨data₂, ?_, by omega, hheld₂⟩
    rw [writeStrings, eval_bind_ok _ _ (eval_getStringTotalLength h hb hd hbit 0),
      List.getElem?_eq_getElem hi]
    simp only
    rw [eval_bind_ok _ _ hset, if_neg (by simp)]
    refine heq.trans ?_
    simp only [World.setData, World.setSession_setSession]

theorem eval_readStrings_turn (es : Text) (values prior : List Text) {count : ℕ}
    (turns i : ℕ) (strNum : ℤ) (h : w.Connected tag name p d) (hb : FixedCounted p.byteOrder)
    (hd : p.data = some data) (hbit : p.isBit = false) (hbuf : data.length < 2 ^ 31)
    (hlen : data.length = count * p.byteOrder.strTotalLength)
    (hmalloc : ∀ n ≤ p.byteOrder.strMaxCapacity + 1, w.malloc n = true)
    (hi : i < values.length) (hin : i < count)
    (hok : Storable p.byteOrder values count) (hheld : FieldsHold p.byteOrder data values count) :
    eval World.serve (readStrings es tag (turns + 1) strNum
        ((i * p.byteOrder.strTotalLength : ℕ) : ℤ) prior) w =
      eval World.serve (readStrings es tag turns (strNum + 1)
        (((i + 1) * p.byteOrder.strTotalLength : ℕ) : ℤ) (prior ++ [values[i]])) w := by
  obtain ⟨hfree, hcap⟩ := hok i hi hin
  have hfield := field_in hin hlen
  have hpos := hb.total_pos
  have hat := hheld i hi hin
  have hsize : (p.size : ℤ) = data.length := by rw [PlcTag.size_eq hd]
  have hzero : (0 : UInt8) ∈ values[i] ++ [0] := by simp
  have hcstr : cstr (values[i] ++ [0]) = values[i] := by
    have hall : ∀ c ∈ values[i], (decide (c ≠ 0)) = true := fun c hc =>
      decide_eq_true (fun e => hfree (e ▸ hc))
    rw [cstr, List.takeWhile_append_of_pos hall]
    simp
  have hcap15 := hb.capacity
  have halloc : w.malloc (toUnsigned ((values[i].length : ℤ) + 1)) = true := by
    rw [← Nat.cast_succ, toUnsigned_natCast _ (by omega)]
    exact hmalloc _ (by omega)
  have hint : ¬ intMax < (values[i].length : ℤ) + 1 := by
    have hmax : intMax = 2 ^ 31 - 1 := rfl
    omega
  have hnext : ((i * p.byteOrder.strTotalLength : ℕ) : ℤ) + p.byteOrder.strTotalLength
      = (((i + 1) * p.byteOrder.strTotalLength : ℕ) : ℤ) := by
    push_cast
    ring
  rw [readStrings]
  simp only [eval_perform_bind, World.serve, World.look_connected h, hsize]
  rw [if_pos (by omega)]
  simp only [bind_assoc, eval_perform_bind, World.serve, World.look_connected h,
    plcTagGetStringLength, stringRefusal_none hb.defined hd hbit,
    getStringLengthUnsafe_eq hb hd hfield hat.count hcap, replied, pure_bind, hint, halloc,
    Bool.true_eq_false, if_false, plcTagGetString_eq hb hd hbit hbuf hfield hat hcap, ne_eq,
    not_true_eq_false, hzero, if_true, hcstr, plcTagGetStringTotalLength,
    getStringTotalLengthUnsafe_eq hb, hnext]

theorem eval_readStrings (es : Text) (values : List Text) {count : ℕ} (n i turns : ℕ)
    (strNum : ℤ) (prior : List Text) (h : w.Connected tag name p d)
    (hb : FixedCounted p.byteOrder) (hd : p.data = some data) (hbit : p.isBit = false)
    (hbuf : data.length < 2 ^ 31) (hlen : data.length = count * p.byteOrder.strTotalLength)
    (hmalloc : ∀ n ≤ p.byteOrder.strMaxCapacity + 1, w.malloc n = true)
    (hvalues : count ≤ values.length) (hin : i + n = count)
    (hturns : n < turns) (hok : Storable p.byteOrder values count)
    (hheld : FieldsHold p.byteOrder data values count) :
    eval World.serve (readStrings es tag turns strNum
        ((i * p.byteOrder.strTotalLength : ℕ) : ℤ) prior) w =
      (.ok (0, es, prior ++ (values.drop i).take n), w) := by
  obtain ⟨turns, rfl⟩ := Nat.exists_eq_succ_of_ne_zero (Nat.ne_of_gt (Nat.zero_lt_of_lt hturns))
  induction n generalizing i turns strNum prior with
  | zero =>
    have hsize : (p.size : ℤ) = ((i * p.byteOrder.strTotalLength : ℕ) : ℤ) := by
      rw [PlcTag.size_eq hd, hlen, ← hin, Nat.add_zero]
    rw [readStrings]
    simp only [eval_perform_bind, World.serve, World.look_connected h, hsize, lt_self_iff_false,
      if_false, eval_pure, List.take_zero, List.append_nil]
  | succ n ih =>
    have hi : i < values.length := by omega
    obtain ⟨turns, rfl⟩ := Nat.exists_eq_succ_of_ne_zero (n := turns) (by omega)
    rw [eval_readStrings_turn es values prior (turns + 1) i strNum h hb hd hbit hbuf hlen hmalloc
        hi (by omega) hok hheld, ih (i + 1) (strNum + 1) _ (by omega) turns (by omega),
      List.drop_eq_getElem_cons hi, List.take_succ_cons, List.append_assoc,
      List.singleton_append]

/-! ## The round trip -/

/-- `turns` bounds the reader's loop: one turn a string and one to see the end are enough. The
buffer's size is a C `int`. -/
theorem readStringTag_writeStringTag (elemCount : ℕ) (h : w.Connected tag name p d)
    (hb : FixedCounted p.byteOrder) (hd : p.data = some data) (hbit : p.isBit = false)
    (hlen : data.length = elemCount * p.byteOrder.strTotalLength) (hbuf : data.length < 2 ^ 31)
    (hec : 1 ≤ elemCount) (hsize : d.elemSize ≠ 0) (hcount : d.elemCount = elemCount)
    (hmalloc : ∀ n ≤ p.byteOrder.strMaxCapacity + 1, w.malloc n = true)
    (hwrite : d.writeStatus = plctagStatusOk)
    (hread : d.readStatus = plctagStatusOk) (values : List Text)
    (hvalues : elemCount ≤ values.length)
    (hok : ∀ s ∈ values.take elemCount, (0 : UInt8) ∉ s ∧ s.length ≤ p.byteOrder.strMaxCapacity)
    (es rs : Text) (timeOutMs timeOutMs' : ℤ) (prior : List Text) (turns : ℕ)
    (hturns : elemCount < turns) :
    ∃ w', eval World.serve (writeStringTag es tag values timeOutMs) w = (.ok (0, es), w') ∧
      (eval World.serve (readStringTag turns rs tag prior timeOutMs') w').1
        = .ok (0, rs, prior ++ values.take elemCount) := by
  have hec0 : d.elemCount ≠ 0 := by omega
  have hstore : Storable p.byteOrder values elemCount := fun j hj hjn =>
    hok _ (List.mem_take_iff_getElem.mpr ⟨j, by omega, rfl⟩)
  obtain ⟨stored, hloop, hlen', hheld⟩ := eval_writeStrings es values elemCount 0 h hb hd hbit hbuf
    hlen hvalues (Nat.zero_add _) hstore (fun j _ hj => absurd hj (Nat.not_lt_zero j))
  have hc := h.setData stored
  have hc' := hc.setDevice { d with memory := stored }
  refine ⟨(w.setData tag name p stored).setDevice name { d with memory := stored }, ?_, ?_⟩
  · have hn : d.elemCount.toNat = elemCount := by omega
    rw [writeStringTag, eval_bind_ok _ _ (eval_tagGetSizes h hsize hec0 es)]
    simp only [hn]
    rw [eval_bind_ok _ _ hloop]
    simp only [ne_eq, not_true_eq_false, if_false, eval_perform_bind, World.serve,
      World.write_connected hc, hwrite, if_true, eval_pure, Option.getD_some]
  · have hc'' := hc'.setData stored
    simp only [readStringTag, eval_perform_bind, World.serve, World.read_connected hc' hread, ne_eq,
      not_true_eq_false, if_false]
    have hrun := eval_readStrings rs values elemCount 0 turns 1 prior hc'' hb rfl hbit
      (by omega) (hlen'.trans hlen) hmalloc hvalues (Nat.zero_add _) hturns hstore hheld
    rw [Nat.zero_mul, Nat.cast_zero, List.drop_zero] at hrun
    rw [eval_bind_ok _ _ (eval_tagGetSizes hc'' hsize hec0 rs)]
    simp only [not_true_eq_false, if_false]
    exact congrArg Prod.fst hrun

end Loops

def swappedStrings : PlcTag × Device :=
  ({ data := some (List.replicate 12 0xAA)
     isBit := false
     bit := 0
     allowFieldResize := false
     byteOrder :=
       { strIsDefined := true, strIsCounted := true, strIsFixedLength := true
         strIsZeroTerminated := false, strIsByteSwapped := true, strCountWordBytes := 2
         strMaxCapacity := 4, strTotalLength := 6, strPadBytes := 0
         int16Order := .little 2, int32Order := .little 4, int64Order := .little 8
         float32Order := .little 4, float64Order := .little 8 } },
    { memory := [], elemSize := 6, elemCount := 2, readStatus := 0, writeStatus := 0 })

theorem readStringTag_writeStringTag_swapped :
    let w := World.single 1 [] swappedStrings.1 swappedStrings.2
    ∃ w', eval World.serve (writeStringTag [] 1 [text "abc", text "x"] 5000) w
        = (.ok (0, []), w') ∧
      (eval World.serve (readStringTag 3 [] 1 [] 5000) w').1
        = .ok (0, [], [text "abc", text "x"]) := by
  intro w
  have h : w.Connected 1 [] swappedStrings.1 swappedStrings.2 := World.single_connected
  have hb : FixedCounted swappedStrings.1.byteOrder :=
    ⟨rfl, rfl, rfl, rfl, .inl rfl, by decide, by decide, rfl⟩
  exact readStringTag_writeStringTag 2 h hb rfl rfl rfl (by decide) (by decide) (by decide) rfl
    (fun _ _ => rfl) rfl rfl [text "abc", text "x"] (by decide) (by decide) [] [] 5000 5000 [] 3
    (by decide)

end Plctagt.Tag
