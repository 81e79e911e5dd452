import Plctagt.Foundations.Codec
import Plctagt.Foundations.Numerals
import Plctagt.Tag.Accessors

/-! # Tag names

`cip_encode_tag_name` of the two `cip.c`: the text of a tag name becomes a path of segments that the
PLC reads. A name as the grammar of the source has it is encoded as its path, and whatever is accepted
is a path, as long as it stays inside the buffer; the buffer is not checked in all places.
-/
namespace Plctagt.Tag
open Bytes Decimal Codec
set_option autoImplicit false

abbrev plctagErrBadParam : ℤ := -7

def maxTagName : ℕ := 260

/-- The bytes of `encoded_name` that were written, so that `encoded_index` is their number; the tag is
allocated zeroed. `bit` when `is_bit`. -/
structure EncodedName where
  rc : ℤ
  encodedName : List UInt8
  bit : Option ℤ
  deriving DecidableEq

def isAlpha (b : UInt8) : Bool := (65 ≤ b && b ≤ 90) || (97 ≤ b && b ≤ 122)

def isAlnum (b : UInt8) : Bool := isAlpha b || isDigit b

/-- `:` and `_` are like letters. -/
def isSymbolChar (b : UInt8) : Bool := isAlnum b || b == 58 || b == 95

/-- And `@` begins a name. -/
def isSymbolStart (b : UInt8) : Bool := isAlpha b || b == 58 || b == 95 || b == 64

def skipWhitespace (name : Text) : Text := name.dropWhile (· == 32)

/-- The characters that the loop of `parse_symbolic_segment` takes from `encoded_i` on, and the
rest. -/
def symbolChars : ℕ → Text → Text × Text
  | _, [] => ([], [])
  | encodedI, c :: name =>
    if isSymbolChar c ∧ encodedI < maxTagName - 1 then
      (c :: (symbolChars (encodedI + 1) name).1, (symbolChars (encodedI + 1) name).2)
    else ([], c :: name)

/-- `parse_symbolic_segment`; `none` is `PLCTAG_ERR_NO_MATCH`. -/
def parseSymbolicSegment (enc : List UInt8) (name : Text) : Option (List UInt8 × Text) :=
  match name with
  | [] => none
  | c :: name =>
    if isSymbolStart c then
      let chars := symbolChars (enc.length + 3) name
      -- the length is counted up in its byte
      let segLen := UInt8.ofNat (1 + chars.1.length)
      let enc := enc ++ 0x91 :: segLen :: c :: chars.1
      some (if segLen.toNat % 2 = 1 ∧ enc.length < maxTagName then enc ++ [0] else enc, chars.2)
    else none

/-- The three forms of a numeric segment. -/
def numericBytes (val : ℕ) : List UInt8 :=
  if 0xFFFF < val then [0x2A, 0, byteOf val 0, byteOf val 1, byteOf val 2, byteOf val 3]
  else if 0xFF < val then [0x29, 0, byteOf val 0, byteOf val 1]
  else [0x28, byteOf val 0]

def parseNumericSegment (enc : List UInt8) (name : Text) : Option (List UInt8 × Text) :=
  (strtoll name).rest.bind fun rest =>
    if (strtoll name).value < 0 then none
    else some (enc ++ numericBytes (strtoll name).value.toNat, rest)

def parseBitSegment (elemCount : ℤ) (name : Text) : Option (ℤ × Text) :=
  (strtoll name).rest.bind fun rest =>
    if (strtoll name).value < 0 ∨ 65536 ≤ (strtoll name).value then none
    else if elemCount ≠ 1 then none
    else some ((strtoll name).value, rest)

/-- A turn of the loop over the dimensions: whether there was a segment, and what is left. -/
def parseDimension (enc : List UInt8) (name : Text) : Bool × List UInt8 × Text :=
  match parseNumericSegment enc (skipWhitespace name) with
  | none => (false, enc, skipWhitespace (skipWhitespace name))
  | some (enc, name) => (true, enc, skipWhitespace name)

/-- The loop, with `n` turns more than this one. -/
def parseDimensions : ℕ → List UInt8 → Text → List UInt8 × Text
  | 0, enc, name => (parseDimension enc name).2
  | n + 1, enc, name =>
    let turn := parseDimension enc name
    if turn.1 ∧ turn.2.2.head? = some 44 then parseDimensions n turn.2.1 turn.2.2.tail else turn.2

/-- A turn of the loop of `cip_encode_tag_name`: what is written and what is left of the name when it
goes on, and when it ends what there is then. -/
def encodeTurn (elemCount : ℤ) (enc : List UInt8) (name : Text) :
    (List UInt8 × Text) ⊕ (EncodedName × Text) :=
  match name with
  | 46 :: name =>
    match parseSymbolicSegment enc name with
    | some parsed => .inl parsed
    | none =>
      match parseBitSegment elemCount name with
      | some (bit, name) => .inr (⟨plctagStatusOk, enc, some bit⟩, name)
      | none => .inr (⟨plctagErrBadParam, enc, none⟩, name)
  | 91 :: name =>
    match parseDimensions 2 enc name with
    | (enc, 93 :: name) => .inl (enc, name)
    | (enc, name) => .inr (⟨plctagErrBadParam, enc, none⟩, name)
  | name => .inr (⟨plctagStatusOk, enc, none⟩, name)

/-- The loop, which takes something off the name in each turn. -/
def encodeSegments (elemCount : ℤ) : ℕ → List UInt8 → Text → EncodedName × Text
  | 0, enc, name => (⟨plctagStatusOk, enc, none⟩, name)
  | fuel + 1, enc, name =>
    if enc.length < maxTagName then
      match encodeTurn elemCount enc name with
      | .inl (enc, name) => encodeSegments elemCount fuel enc name
      | .inr ended => ended
    else (⟨plctagStatusOk, enc, none⟩, name)

/-- `cip_encode_tag_name`; `name` is a C string. -/
def cipEncodeTagName (elemCount : ℤ) (name : Text) : EncodedName :=
  match parseSymbolicSegment [0] name with
  | none => ⟨plctagErrBadParam, [0], none⟩
  | some (enc, name) =>
    let r := encodeSegments elemCount name.length enc name
    if r.1.rc ≠ plctagStatusOk then r.1
    else if r.2 ≠ [] then { r.1 with rc := plctagErrBadParam }
    else { r.1 with
      encodedName := r.1.encodedName.set 0 (UInt8.ofNat ((r.1.encodedName.length - 1) / 2)) }

example : cipEncodeTagName 1 (text "Ab.c[1, 300].5") =
    ⟨0, [7, 0x91, 2, 65, 98, 0x91, 1, 99, 0, 0x28, 1, 0x29, 0, 44, 1], some 5⟩ := by decide +kernel

/-! ## Paths -/

/-- A segment of a path: a name of up to 255 characters, padded to an even length, or an index in one of
three forms. -/
inductive PathSegment where
  | symbol (name : Text)
  | element8 (index : UInt8)
  | element16 (index : UInt16)
  | element32 (index : UInt32)
  deriving DecidableEq

namespace PathSegment

def pad (name : Text) : List UInt8 := if name.length % 2 = 1 then [0] else []

def bytes : PathSegment → List UInt8
  | symbol name => 0x91 :: UInt8.ofNat name.length :: (name ++ pad name)
  | element8 index => [0x28, index]
  | element16 index => [0x29, 0, byteOf index.toNat 0, byteOf index.toNat 1]
  | element32 index =>
    [0x2A, 0, byteOf index.toNat 0, byteOf index.toNat 1, byteOf index.toNat 2, byteOf index.toNat 3]

def Wf : PathSegment → Prop
  | symbol name => name.length < 256
  | _ => True

/-- What a PLC makes of the front of a path. -/
def read : List UInt8 → Option (PathSegment × List UInt8)
  | 0x91 :: len :: bs =>
    let name := bs.take len.toNat
    if name.length = len.toNat ∧ pad name <+: bs.drop len.toNat then
      some (symbol name, bs.drop (len.toNat + (pad name).length))
    else none
  | 0x28 :: b :: bs => some (element8 b, bs)
  | 0x29 :: 0 :: b₀ :: b₁ :: bs => some (element16 (UInt16.ofNat (b₀.toNat + 256 * b₁.toNat)), bs)
  | 0x2A :: 0 :: b₀ :: b₁ :: b₂ :: b₃ :: bs =>
    some (element32 (UInt32.ofNat
      (b₀.toNat + 256 * b₁.toNat + 65536 * b₂.toNat + 16777216 * b₃.toNat)), bs)
  | _ => none

/-- The segments of a path. -/
def readPath (bs : List UInt8) : Option (List PathSegment) := readAll read bs.length bs

theorem read_symbol (len : UInt8) (bs : List UInt8) : read (0x91 :: len :: bs) =
    if (bs.take len.toNat).length = len.toNat ∧ pad (bs.take len.toNat) <+: bs.drop len.toNat then
      some (symbol (bs.take len.toNat), bs.drop (len.toNat + (pad (bs.take len.toNat)).length))
    else none := rfl

theorem reads {seg : PathSegment} (h : seg.Wf) : Reads bytes read seg := by
  cases seg with
  | symbol name =>
    refine ⟨List.cons_ne_nil _ _, fun rest => ?_⟩
    have hlen : (UInt8.ofNat name.length).toNat = name.length := UInt8.toNat_ofNat_of_lt' h
    have htake : (name ++ (pad name ++ rest)).take name.length = name := List.take_left
    have hdrop : (name ++ (pad name ++ rest)).drop name.length = pad name ++ rest := List.drop_left
    rw [bytes, List.cons_append, List.cons_append, read_symbol, hlen, List.append_assoc, htake, hdrop,
      if_pos ⟨rfl, List.prefix_append _ _⟩, ← List.drop_drop, hdrop, List.drop_left]
  | element8 index => exact ⟨List.cons_ne_nil _ _, fun rest => rfl⟩
  | element16 index =>
    refine ⟨List.cons_ne_nil _ _, fun rest => ?_⟩
    have hval : UInt16.ofNat ((byteOf index.toNat 0).toNat + 256 * (byteOf index.toNat 1).toNat) =
        index := by
      have hlt := index.toNat_lt
      refine UInt16.toNat_inj.mp ?_
      rw [byteOf_toNat, byteOf_toNat, UInt16.toNat_ofNat']
      omega
    show some (element16 _, rest) = _
    rw [hval]
  | element32 index =>
    refine ⟨List.cons_ne_nil _ _, fun rest => ?_⟩
    have hval : UInt32.ofNat ((byteOf index.toNat 0).toNat + 256 * (byteOf index.toNat 1).toNat +
        65536 * (byteOf index.toNat 2).toNat + 16777216 * (byteOf index.toNat 3).toNat) = index := by
      have hlt := index.toNat_lt
      refine UInt32.toNat_inj.mp ?_
      rw [byteOf_toNat, byteOf_toNat, byteOf_toNat, byteOf_toNat, UInt32.toNat_ofNat']
      omega
    show some (element32 _, rest) = _
    rw [hval]

end PathSegment

/-! ## Symbolic segments -/

open PathSegment

theorem symbolChars_spec (encodedI : ℕ) (name : Text) :
    (symbolChars encodedI name).1 ++ (symbolChars encodedI name).2 = name ∧
      encodedI + (symbolChars encodedI name).1.length ≤ max encodedI (maxTagName - 1) := by
  induction name generalizing encodedI with
  | nil => exact ⟨rfl, le_max_left _ _⟩
  | cons c name ih =>
    rw [symbolChars]
    split_ifs with h
    · obtain ⟨happend, hlength⟩ := ih (encodedI + 1)
      refine ⟨by rw [List.cons_append, happend], ?_⟩
      have hroom := h.2
      rw [List.length_cons]
      omega
    · exact ⟨rfl, le_max_left _ _⟩

theorem symbolChars_complete {encodedI : ℕ} {cs rest : Text} (hcs : ∀ c ∈ cs, isSymbolChar c = true)
    (hrest : ∀ c ∈ rest.head?, isSymbolChar c = false) (hroom : encodedI + cs.length < maxTagName) :
    symbolChars encodedI (cs ++ rest) = (cs, rest) := by
  induction cs generalizing encodedI with
  | nil =>
    cases rest with
    | nil => rfl
    | cons c rest =>
      rw [List.nil_append, symbolChars, if_neg fun h => absurd h.1 (by rw [hrest c rfl]; simp)]
  | cons c cs ih =>
    rw [List.length_cons] at hroom
    rw [List.cons_append, symbolChars, if_pos ⟨hcs c List.mem_cons_self, by omega⟩,
      ih (fun c' hc => hcs c' (List.mem_cons_of_mem c hc)) (by omega)]

/-- What a symbolic segment takes from the name and what it writes. -/
theorem parseSymbolicSegment_eq_some {enc enc' : List UInt8} {name rest : Text}
    (h : parseSymbolicSegment enc name = some (enc', rest)) :
    ∃ s padding : List UInt8, s ≠ [] ∧ name = s ++ rest ∧
      enc' = enc ++ 0x91 :: UInt8.ofNat s.length :: (s ++ padding) ∧
      enc.length + 2 + s.length ≤ max (enc.length + 3) (maxTagName - 1) ∧
      padding = if s.length % 2 = 1 ∧ enc.length + 2 + s.length < maxTagName then [0] else [] := by
  cases name with
  | nil => exact absurd h (by simp [parseSymbolicSegment])
  | cons c name =>
    rw [parseSymbolicSegment] at h
    split_ifs at h with hstart
    obtain ⟨happend, hlength⟩ := symbolChars_spec (enc.length + 3) name
    dsimp only at h
    generalize symbolChars (enc.length + 3) name = chars at *
    obtain ⟨henc, rfl⟩ := Prod.mk.inj (Option.some.inj h)
    have hlen : (c :: chars.1).length = 1 + chars.1.length := by rw [List.length_cons, Nat.add_comm]
    have hodd : (UInt8.ofNat (1 + chars.1.length)).toNat % 2 = 1 ↔ (1 + chars.1.length) % 2 = 1 := by
      rw [UInt8.toNat_ofNat']
      omega
    have hroom : (enc ++ 0x91 :: UInt8.ofNat (1 + chars.1.length) :: c :: chars.1).length =
        enc.length + 2 + (1 + chars.1.length) := by
      simp only [List.length_append, List.length_cons]
      omega
    refine ⟨c :: chars.1, _, List.cons_ne_nil _ _, by rw [List.cons_append, happend], ?_, by omega, rfl⟩
    rw [← henc, hlen, hroom]
    simp only [hodd]
    split_ifs <;> simp

/-- `SYMBOLIC_SEG`, with the characters that are like letters. -/
def IsSymbol (s : Text) : Prop :=
  s ≠ [] ∧ (∀ b ∈ s.head?, isSymbolStart b = true) ∧ ∀ b ∈ s.tail, isSymbolChar b = true

instance decidableIsSymbol (s : Text) : Decidable (IsSymbol s) := inferInstanceAs (Decidable (_ ∧ _))

theorem parseSymbolicSegment_complete {enc s rest : List UInt8} (h : IsSymbol s)
    (hrest : ∀ b ∈ rest.head?, isSymbolChar b = false)
    (hroom : (enc ++ (symbol s).bytes).length < maxTagName) :
    parseSymbolicSegment enc (s ++ rest) = some (enc ++ (symbol s).bytes, rest) := by
  obtain ⟨hne, hstart, hs⟩ := h
  obtain ⟨c, s, rfl⟩ := List.exists_cons_of_ne_nil hne
  have hlen : enc.length + 3 + s.length + (pad (c :: s)).length < maxTagName := by
    simp only [bytes, List.length_append, List.length_cons] at hroom
    omega
  rw [List.cons_append, parseSymbolicSegment, if_pos (hstart c rfl)]
  rw [List.tail_cons] at hs
  simp only [symbolChars_complete hs hrest (Nat.lt_of_le_of_lt (Nat.le_add_right _ _) hlen)]
  have hcount : 1 + s.length = (c :: s).length := Nat.add_comm 1 _
  have hodd : (UInt8.ofNat (c :: s).length).toNat % 2 = 1 ↔ (c :: s).length % 2 = 1 := by
    rw [UInt8.toNat_ofNat']
    omega
  have hwritten : (enc ++ 0x91 :: UInt8.ofNat (c :: s).length :: c :: s).length < maxTagName := by
    simp only [List.length_append, List.length_cons]
    omega
  simp only [hcount, hodd, hwritten, and_true, bytes, pad]
  split_ifs <;> simp

/-! ## Numeric segments -/

theorem digitsVal_lt {digits : Text} (h : ∀ b ∈ digits, isDigit b = true) :
    digitsVal digits < 10 ^ digits.length := by
  have hsmall : ∀ d ∈ digits.reverse.map digitVal, d < 10 := by
    intro d hd
    obtain ⟨b, hb, rfl⟩ := List.mem_map.mp hd
    have hdigit := h b (List.mem_reverse.mp hb)
    simp only [isDigit, Bool.and_eq_true, decide_eq_true_eq, UInt8.le_iff_toNat_le] at hdigit
    have h57 : (57 : UInt8).toNat = 57 := rfl
    rw [digitVal]
    omega
  have hlt := Nat.ofDigits_lt_base_pow_length (by norm_num) hsmall
  rwa [List.length_map, List.length_reverse] at hlt

/-- What `strtol` takes for a number that is not negative. -/
theorem strtoll_takes {name rest : Text} (hrest : (strtoll name).rest = some rest)
    (hval : 0 ≤ (strtoll name).value) :
    ∃ d > 0, (strtoll name).value.toNat < 10 ^ d ∧ d + rest.length ≤ name.length := by
  by_cases h : ∃ v rest, Begins (cstr name) v rest
  · obtain ⟨v, rest', hbegins⟩ := h
    have hstrto := strtoll_of_begins hbegins
    obtain ⟨space, sign, digits, -, hne, hdigits, -, hname, rfl⟩ := hbegins
    have hlt := digitsVal_lt hdigits
    have hlow : longMin < 0 := by decide
    have hlen : (cstr name).length ≤ name.length := (List.takeWhile_prefix _).length_le
    have hkept : rest' = rest := by
      rw [hstrto] at hrest
      split_ifs at hrest <;> exact Option.some.inj hrest
    rw [hname, List.length_append, List.length_append, List.length_append] at hlen
    refine ⟨digits.length, List.length_pos_of_ne_nil hne, ?_, by rw [← hkept]; omega⟩
    refine lt_of_le_of_lt ?_ hlt
    have hsign : sign.apply (digitsVal digits) ≤ digitsVal digits := by
      cases sign <;> simp only [Sign.apply] <;> omega
    rw [hstrto] at hval ⊢
    split_ifs at hval ⊢ <;> dsimp only at hval ⊢ <;> omega
  · have hnone : ∀ v rest, ¬Begins (cstr name) v rest := fun v rest hb => h ⟨v, rest, hb⟩
    rw [(strto_of_not_begins hnone).1] at hrest
    exact absurd hrest (by simp)

theorem parseNumericSegment_eq_some {enc enc' : List UInt8} {name rest : Text}
    (h : parseNumericSegment enc name = some (enc', rest)) :
    ∃ val d, enc' = enc ++ numericBytes val ∧ 0 < d ∧ val < 10 ^ d ∧ d + rest.length ≤ name.length := by
  obtain ⟨rest', hrest, h⟩ := Option.bind_eq_some_iff.mp h
  split_ifs at h with hneg
  obtain ⟨rfl, rfl⟩ := Prod.mk.inj (Option.some.inj h)
  obtain ⟨d, hd, hlt, hlen⟩ := strtoll_takes hrest (not_lt.mp hneg)
  exact ⟨_, d, rfl, hd, hlt, hlen⟩

theorem strtoll_printNat_append {n : ℕ} (hn : (n : ℤ) ≤ longMax) {rest : Text}
    (hrest : ∀ b ∈ rest.head?, isDigit b = false) (hnul : (0 : UInt8) ∉ rest) :
    strtoll (printNat n ++ rest) = ⟨n, false, some rest⟩ := by
  have hlow : longMin < 0 := by decide
  have hnul' : (0 : UInt8) ∉ printNat n ++ rest := by
    rw [List.mem_append]
    refine not_or.mpr ⟨fun hzero => ?_, hnul⟩
    exact absurd (isDigit_of_mem_printNat n 0 hzero) (by decide)
  have hbegins : Begins (cstr (printNat n ++ rest)) n rest := by
    rw [cstr_eq_self _ hnul']
    refine ⟨[], .none, printNat n, by simp, printNat_ne_nil n, isDigit_of_mem_printNat n, hrest, rfl, ?_⟩
    rw [digitsVal_printNat]
    rfl
  rw [strtoll_of_begins hbegins, if_neg (by omega), if_neg (by omega)]

theorem parseNumericSegment_printNat (enc : List UInt8) {n : ℕ} (hn : (n : ℤ) ≤ longMax) {rest : Text}
    (hrest : ∀ b ∈ rest.head?, isDigit b = false) (hnul : (0 : UInt8) ∉ rest) :
    parseNumericSegment enc (printNat n ++ rest) = some (enc ++ numericBytes n, rest) := by
  rw [parseNumericSegment, strtoll_printNat_append hn hrest hnul]
  rfl

theorem length_numericBytes_le {val d : ℕ} (hd : 0 < d) (hval : val < 10 ^ d) :
    (numericBytes val).length ≤ 2 * d ∧ (numericBytes val).length ≤ 6 := by
  have hsmall : ∀ k, d ≤ k → val < 10 ^ k := fun k hk =>
    hval.trans_le (Nat.pow_le_pow_right (by norm_num) hk)
  rw [numericBytes]
  split_ifs with hbig hword
  · have hfive : 4 < d := by
      by_contra hle
      have := hsmall 4 (by omega)
      omega
    simp only [List.length_cons, List.length_nil]
    omega
  · have hthree : 2 < d := by
      by_contra hle
      have := hsmall 2 (by omega)
      omega
    simp only [List.length_cons, List.length_nil]
    omega
  · simp only [List.length_cons, List.length_nil]
    omega

/-- An index has the first form that has room for it; from `2 ^ 32` on it is cut. -/
def numericSegment (val : ℕ) : PathSegment :=
  if 0xFFFF < val then element32 (UInt32.ofNat val)
  else if 0xFF < val then element16 (UInt16.ofNat val)
  else element8 (UInt8.ofNat val)

theorem bytes_numericSegment (val : ℕ) : (numericSegment val).bytes = numericBytes val := by
  have hbyte : ∀ k < 4, byteOf (val % 2 ^ 32) k = byteOf val k := by
    intro k hk
    refine UInt8.toNat_inj.mp ?_
    rw [byteOf_toNat, byteOf_toNat]
    interval_cases k <;> omega
  rw [numericSegment, numericBytes]
  split_ifs with hbig hword
  · rw [bytes, UInt32.toNat_ofNat', hbyte 0 (by omega), hbyte 1 (by omega), hbyte 2 (by omega),
      hbyte 3 (by omega)]
  · rw [bytes, UInt16.toNat_ofNat', Nat.mod_eq_of_lt (by omega)]
  · rw [bytes, byteOf, Nat.pow_zero, Nat.div_one]

theorem wf_numericSegment (val : ℕ) : (numericSegment val).Wf := by
  rw [numericSegment]
  split_ifs <;> trivial

/-! ## Dimensions -/

theorem length_skipWhitespace_le (name : Text) : (skipWhitespace name).length ≤ name.length :=
  (List.dropWhile_suffix _).length_le

theorem skipWhitespace_of_head {name : Text} (h : ∀ b ∈ name.head?, b ≠ 32) :
    skipWhitespace name = name := by
  cases name with
  | nil => rfl
  | cons b name =>
    have hb : (b == 32) = false := beq_eq_false_iff_ne.mpr (h b rfl)
    rw [skipWhitespace, List.dropWhile_cons, hb]
    rfl

/-- At most one index is written in a turn, and it takes its length of the name. -/
theorem parseDimension_spec (enc : List UInt8) (name : Text) :
    ∃ vals : List ℕ, (parseDimension enc name).2.1 = enc ++ vals.flatMap numericBytes ∧
      (vals.flatMap numericBytes).length ≤ 6 ∧
      (vals.flatMap numericBytes).length + 2 * (parseDimension enc name).2.2.length ≤
        2 * name.length := by
  have hskip := length_skipWhitespace_le name
  rw [parseDimension]
  cases hparse : parseNumericSegment enc (skipWhitespace name) with
  | none =>
    have hskip' := length_skipWhitespace_le (skipWhitespace name)
    refine ⟨[], (List.append_nil _).symm, Nat.zero_le _, ?_⟩
    show 0 + 2 * (skipWhitespace (skipWhitespace name)).length ≤ _
    omega
  | some parsed =>
    obtain ⟨val, d, henc, hd, hval, hlen⟩ := parseNumericSegment_eq_some hparse
    obtain ⟨hlong, hsix⟩ := length_numericBytes_le hd hval
    have hskip' := length_skipWhitespace_le parsed.2
    have hone : [val].flatMap numericBytes = numericBytes val := by
      rw [List.flatMap_cons, List.flatMap_nil, List.append_nil]
    refine ⟨[val], by rw [hone]; exact henc, by rw [hone]; exact hsix, ?_⟩
    rw [hone]
    show _ + 2 * (skipWhitespace parsed.2).length ≤ _
    omega

theorem parseDimensions_spec (n : ℕ) (enc : List UInt8) (name : Text) :
    ∃ vals : List ℕ, (parseDimensions n enc name).1 = enc ++ vals.flatMap numericBytes ∧
      (vals.flatMap numericBytes).length ≤ 6 * (n + 1) ∧
      (vals.flatMap numericBytes).length + 2 * (parseDimensions n enc name).2.length ≤
        2 * name.length := by
  induction n generalizing enc name with
  | zero => exact parseDimension_spec enc name
  | succ n ih =>
    obtain ⟨vals, henc, hsix, hlen⟩ := parseDimension_spec enc name
    rw [parseDimensions]
    split_ifs with hcomma
    · obtain ⟨vals', henc', hsix', hlen'⟩ :=
        ih (parseDimension enc name).2.1 (parseDimension enc name).2.2.tail
      have htail := List.length_tail (l := (parseDimension enc name).2.2)
      refine ⟨vals ++ vals', ?_, ?_, ?_⟩
      · rw [henc', henc, List.flatMap_append, List.append_assoc]
      · rw [List.flatMap_append, List.length_append]
        omega
      · rw [List.flatMap_append, List.length_append]
        omega
    · exact ⟨vals, henc, by omega, hlen⟩

/-- The indices between the brackets, each after the first one with its comma. -/
def dimensionsText (index : ℕ) (more : List ℕ) : Text :=
  printNat index ++ more.flatMap fun i => 44 :: printNat i

theorem parseDimension_printNat (enc : List UInt8) {n : ℕ} (hn : (n : ℤ) ≤ longMax) {rest : Text}
    (hdigit : ∀ b ∈ rest.head?, isDigit b = false) (hspace : ∀ b ∈ rest.head?, b ≠ 32)
    (hnul : (0 : UInt8) ∉ rest) :
    parseDimension enc (printNat n ++ rest) = (true, enc ++ numericBytes n, rest) := by
  obtain ⟨d, hd, digits, hdigits⟩ := printNat_head n
  have hskip : skipWhitespace (printNat n ++ rest) = printNat n ++ rest := by
    refine skipWhitespace_of_head fun b hb => ?_
    rw [hdigits] at hb
    obtain rfl := Option.some.inj hb
    exact fun heq => absurd (digitByte_spec d hd).2.2.1 (by rw [heq]; decide)
  rw [parseDimension, hskip, parseNumericSegment_printNat enc hn hdigit hnul]
  show (true, _, skipWhitespace rest) = _
  rw [skipWhitespace_of_head hspace]

theorem nul_not_mem_printNat (n : ℕ) : (0 : UInt8) ∉ printNat n := fun hzero =>
  absurd (isDigit_of_mem_printNat n 0 hzero) (by decide)

theorem nul_not_mem_indices (more : List ℕ) : (0 : UInt8) ∉ more.flatMap fun i => 44 :: printNat i := by
  intro hzero
  obtain ⟨i, -, hi⟩ := List.mem_flatMap.mp hzero
  exact (List.mem_cons.mp hi).elim (by decide) (nul_not_mem_printNat i)

theorem parseDimensions_complete {n index : ℕ} {more : List ℕ} (hmore : more.length ≤ n)
    (hsmall : ∀ i ∈ index :: more, (i : ℤ) ≤ longMax) (enc : List UInt8) {rest : Text}
    (hnul : (0 : UInt8) ∉ rest) :
    parseDimensions n enc (dimensionsText index more ++ 93 :: rest) =
      (enc ++ (index :: more).flatMap numericBytes, 93 :: rest) := by
  have hbracket : (0 : UInt8) ∉ 93 :: rest := fun hzero =>
    (List.mem_cons.mp hzero).elim (by decide) hnul
  induction more generalizing n index enc with
  | nil =>
    have hturn : parseDimension enc (dimensionsText index [] ++ 93 :: rest) =
        (true, enc ++ numericBytes index, 93 :: rest) := by
      rw [dimensionsText, List.flatMap_nil, List.append_nil]
      refine parseDimension_printNat enc (hsmall index List.mem_cons_self) ?_ ?_ hbracket
      all_goals
        intro b hb
        rw [← Option.some.inj hb]
        decide
    rw [List.flatMap_cons, List.flatMap_nil, List.append_nil]
    cases n with
    | zero => rw [parseDimensions, hturn]
    | succ n =>
      rw [parseDimensions, hturn]
      exact if_neg fun h => absurd (Option.some.inj h.2) (by decide)
  | cons i more ih =>
    obtain ⟨n, rfl⟩ := Nat.exists_eq_succ_of_ne_zero (Nat.ne_zero_of_lt (Nat.lt_of_succ_le hmore))
    have hturn : parseDimension enc (dimensionsText index (i :: more) ++ 93 :: rest) =
        (true, enc ++ numericBytes index, 44 :: (dimensionsText i more ++ 93 :: rest)) := by
      rw [dimensionsText, List.append_assoc]
      have htail : ((i :: more).flatMap fun i => 44 :: printNat i) ++ 93 :: rest =
          44 :: (dimensionsText i more ++ 93 :: rest) := by
        rw [List.flatMap_cons, dimensionsText, List.append_assoc, List.cons_append, List.append_assoc]
      rw [← htail]
      refine parseDimension_printNat enc (hsmall index List.mem_cons_self) ?_ ?_ ?_
      · rw [htail]
        intro b hb
        rw [← Option.some.inj hb]
        decide
      · rw [htail]
        intro b hb
        rw [← Option.some.inj hb]
        decide
      · exact List.mem_append.not.mpr (not_or.mpr ⟨nul_not_mem_indices _, hbracket⟩)
    have hrest := ih (Nat.le_of_succ_le_succ hmore)
      (fun j hj => hsmall j (List.mem_cons_of_mem index hj)) (enc ++ numericBytes index)
    rw [parseDimensions, hturn, List.flatMap_cons, ← List.append_assoc, ← hrest]
    exact if_pos ⟨rfl, rfl⟩

/-! ## The loop over the segments -/

/-- A turn that goes on: a symbolic segment after a dot, or dimensions in brackets. -/
inductive Wrote (enc : List UInt8) : Text → List UInt8 → Text → Prop
  | symbol {name enc' rest} (h : parseSymbolicSegment enc name = some (enc', rest)) :
      Wrote enc (46 :: name) enc' rest
  | dimensions {name enc' rest} (h : parseDimensions 2 enc name = (enc', 93 :: rest)) :
      Wrote enc (91 :: name) enc' rest

theorem length_bitSegment_le {elemCount bit : ℤ} {name rest : Text}
    (h : parseBitSegment elemCount name = some (bit, rest)) : rest.length ≤ name.length := by
  obtain ⟨rest', hrest, h⟩ := Option.bind_eq_some_iff.mp h
  split_ifs at h with hrange helem
  obtain ⟨-, rfl⟩ := Prod.mk.inj (Option.some.inj h)
  obtain ⟨d, -, -, hlen⟩ := strtoll_takes hrest (by omega)
  omega

theorem wrote_of_encodeTurn {elemCount : ℤ} {enc : List UInt8} {name : Text}
    {next : List UInt8 × Text} (h : encodeTurn elemCount enc name = .inl next) :
    Wrote enc name next.1 next.2 := by
  unfold encodeTurn at h
  split at h
  · split at h
    · next parsed hparse => exact Sum.inl.inj h ▸ .symbol hparse
    · split at h <;> cases h
  · split at h
    · next hparse => exact Sum.inl.inj h ▸ .dimensions hparse
    · cases h
  · cases h

/-- The last turn writes nothing, or dimensions that are not closed. -/
theorem encodeTurn_ended {elemCount : ℤ} {enc : List UInt8} {name : Text}
    {ended : EncodedName × Text} (h : encodeTurn elemCount enc name = .inr ended) :
    ended.1.encodedName = enc ∧ ended.2.length ≤ name.length ∨
      ∃ n, name = 91 :: n ∧ parseDimensions 2 enc n = (ended.1.encodedName, ended.2) := by
  unfold encodeTurn at h
  split at h
  · split at h
    · cases h
    · split at h
      · next hbit =>
        rw [← Sum.inr.inj h]
        exact .inl ⟨rfl, (length_bitSegment_le hbit).trans (Nat.le_succ _)⟩
      · rw [← Sum.inr.inj h]
        exact .inl ⟨rfl, Nat.le_succ _⟩
  · next n =>
    split at h
    · cases h
    · next hparse =>
      rw [← Sum.inr.inj h]
      exact .inr ⟨n, rfl, hparse⟩
  · rw [← Sum.inr.inj h]
    exact .inl ⟨rfl, le_rfl⟩

/-- Room that a turn of the loop may need at most, beyond the buffer that it checks. -/
def maxWritten : ℕ := 277

theorem length_parseSymbolicSegment {enc enc' : List UInt8} {name rest : Text}
    (h : parseSymbolicSegment enc name = some (enc', rest)) (hroom : enc.length < maxTagName) :
    enc.length ≤ enc'.length ∧ enc'.length ≤ maxWritten ∧
      enc'.length + 2 * rest.length ≤ enc.length + 2 * (name.length + 1) ∧
      rest.length < name.length := by
  obtain ⟨s, padding, hne, rfl, rfl, hlen, hpad⟩ := parseSymbolicSegment_eq_some h
  have hpos := List.length_pos_of_ne_nil hne
  have hone : padding.length ≤ 1 := by
    rw [hpad]
    split_ifs <;> simp
  simp only [List.length_append, List.length_cons, maxTagName, maxWritten] at hroom hlen ⊢
  omega

theorem length_parseDimensions {enc : List UInt8} (name : Text) (hroom : enc.length < maxTagName) :
    enc.length ≤ (parseDimensions 2 enc name).1.length ∧
      (parseDimensions 2 enc name).1.length ≤ maxWritten ∧
      (parseDimensions 2 enc name).1.length + 2 * (parseDimensions 2 enc name).2.length ≤
        enc.length + 2 * name.length := by
  obtain ⟨vals, henc, hsix, hlen⟩ := parseDimensions_spec 2 enc name
  rw [henc, List.length_append]
  unfold maxTagName at hroom
  unfold maxWritten
  omega

theorem Wrote.length {enc enc' : List UInt8} {name rest : Text} (h : Wrote enc name enc' rest)
    (hroom : enc.length < maxTagName) : enc.length ≤ enc'.length ∧ enc'.length ≤ maxWritten ∧
      enc'.length + 2 * rest.length ≤ enc.length + 2 * name.length ∧ rest.length < name.length := by
  cases h with
  | symbol h =>
    obtain ⟨hle, hmax, hlen, hlt⟩ := length_parseSymbolicSegment h hroom
    exact ⟨hle, hmax, by rw [List.length_cons]; omega, by rw [List.length_cons]; omega⟩
  | @dimensions name enc' rest h =>
    obtain ⟨hle, hmax, hlen⟩ := length_parseDimensions name hroom
    rw [h] at hle hmax hlen
    rw [List.length_cons] at hlen ⊢
    dsimp only at hle hmax hlen
    exact ⟨hle, hmax, by omega, by omega⟩

/-- Nothing that was written is taken back, and nothing is written without a piece of the name. -/
theorem length_encodeSegments (elemCount : ℤ) (fuel : ℕ) {enc : List UInt8} (name : Text)
    (hmax : enc.length ≤ maxWritten) :
    let r := encodeSegments elemCount fuel enc name
    enc.length ≤ r.1.encodedName.length ∧ r.1.encodedName.length ≤ maxWritten ∧
      r.1.encodedName.length + 2 * r.2.length ≤ enc.length + 2 * name.length := by
  induction fuel generalizing enc name with
  | zero => exact ⟨le_rfl, hmax, le_rfl⟩
  | succ fuel ih =>
    rw [encodeSegments]
    split_ifs with hroom
    · cases hturn : encodeTurn elemCount enc name with
      | inl next =>
        obtain ⟨hle, hmax', hlen, -⟩ := (wrote_of_encodeTurn hturn).length hroom
        obtain ⟨hle', hmax'', hlen'⟩ := ih next.2 hmax'
        exact ⟨hle.trans hle', hmax'', hlen'.trans hlen⟩
      | inr ended =>
        rcases encodeTurn_ended hturn with ⟨henc, hlen⟩ | ⟨n, rfl, hdim⟩
        · dsimp only
          rw [henc]
          exact ⟨le_rfl, hmax, by omega⟩
        · obtain ⟨hle, hmax', hlen⟩ := length_parseDimensions n hroom
          rw [hdim] at hle hmax' hlen
          exact ⟨hle, hmax', hlen.trans (by rw [List.length_cons]; omega)⟩
    · exact ⟨le_rfl, hmax, le_rfl⟩

/-! ## What is accepted is a path -/

/-- The segments so far, a name first, after the byte for the count. -/
def IsPath (enc : List UInt8) : Prop :=
  ∃ (s : Text) (segs : List PathSegment), s ≠ [] ∧ (∀ seg ∈ symbol s :: segs, seg.Wf) ∧
    enc = 0 :: (symbol s :: segs).flatMap bytes

theorem IsPath.append {enc : List UInt8} (h : IsPath enc) {segs : List PathSegment}
    (hwf : ∀ seg ∈ segs, seg.Wf) : IsPath (enc ++ segs.flatMap bytes) := by
  obtain ⟨s, segs', hne, hwf', rfl⟩ := h
  refine ⟨s, segs' ++ segs, hne, fun seg hseg => ?_, ?_⟩
  · rw [← List.cons_append, List.mem_append] at hseg
    exact hseg.elim (hwf' seg) (hwf seg)
  · rw [← List.cons_append, List.cons_append, List.flatMap_append]

/-- A segment that leaves room in the buffer is as it should be. -/
theorem parseSymbolicSegment_sound {enc enc' : List UInt8} {name rest : Text}
    (h : parseSymbolicSegment enc name = some (enc', rest)) (hpos : 0 < enc.length)
    (hfits : enc'.length < maxTagName - 1) :
    ∃ s, s ≠ [] ∧ (symbol s).Wf ∧ enc' = enc ++ (symbol s).bytes := by
  obtain ⟨s, padding, hne, -, rfl, -, hpad⟩ := parseSymbolicSegment_eq_some h
  simp only [List.length_append, List.length_cons, maxTagName] at hfits
  refine ⟨s, hne, show s.length < 256 by omega, ?_⟩
  have hroom : enc.length + 2 + s.length < maxTagName := by
    unfold maxTagName
    omega
  rw [hpad, bytes, pad]
  simp only [hroom, and_true]

theorem flatMap_numericSegment (vals : List ℕ) :
    (vals.map numericSegment).flatMap bytes = vals.flatMap numericBytes := by
  rw [List.flatMap_map]
  exact congrArg (vals.flatMap ·) (funext bytes_numericSegment)

theorem parseDimensions_sound {n : ℕ} {enc enc' : List UInt8} {name rest : Text}
    (h : parseDimensions n enc name = (enc', rest)) (hpath : IsPath enc) : IsPath enc' := by
  obtain ⟨vals, henc, -⟩ := parseDimensions_spec n enc name
  rw [h] at henc
  obtain rfl : enc' = enc ++ vals.flatMap numericBytes := henc
  rw [← flatMap_numericSegment]
  refine hpath.append fun seg hseg => ?_
  obtain ⟨val, -, rfl⟩ := List.mem_map.mp hseg
  exact wf_numericSegment val

theorem IsPath.length_pos {enc : List UInt8} (h : IsPath enc) : 0 < enc.length := by
  obtain ⟨s, segs, -, -, rfl⟩ := h
  exact Nat.succ_pos _

theorem Wrote.sound {enc enc' : List UInt8} {name rest : Text} (h : Wrote enc name enc' rest)
    (hpath : IsPath enc) (hfits : enc'.length < maxTagName - 1) : IsPath enc' := by
  cases h with
  | symbol h =>
    obtain ⟨s, -, hwf, rfl⟩ := parseSymbolicSegment_sound h hpath.length_pos hfits
    have happend : IsPath (enc ++ [PathSegment.symbol s].flatMap bytes) :=
      hpath.append fun seg hseg => List.mem_singleton.mp hseg ▸ hwf
    rwa [List.flatMap_cons, List.flatMap_nil, List.append_nil] at happend
  | dimensions h => exact parseDimensions_sound h hpath

theorem encodeSegments_sound (elemCount : ℤ) (fuel : ℕ) {enc : List UInt8} (name : Text)
    (hpath : IsPath enc)
    (hfits : (encodeSegments elemCount fuel enc name).1.encodedName.length < maxTagName - 1) :
    IsPath (encodeSegments elemCount fuel enc name).1.encodedName := by
  induction fuel generalizing enc name with
  | zero => exact hpath
  | succ fuel ih =>
    rw [encodeSegments] at hfits ⊢
    split_ifs at hfits ⊢ with hroom
    · cases hturn : encodeTurn elemCount enc name with
      | inl next =>
        rw [hturn] at hfits
        have hwrote := wrote_of_encodeTurn hturn
        obtain ⟨-, hmax, -⟩ := hwrote.length hroom
        obtain ⟨hle, -⟩ := length_encodeSegments elemCount fuel next.2 hmax
        exact ih next.2 (hwrote.sound hpath (hle.trans_lt hfits)) hfits
      | inr ended =>
        rcases encodeTurn_ended hturn with ⟨henc, -⟩ | ⟨n, rfl, hdim⟩
        · exact henc ▸ hpath
        · exact parseDimensions_sound hdim hpath
    · exact hpath

theorem even_bytes {seg : PathSegment} (h : seg.Wf) : 2 ∣ seg.bytes.length := by
  cases seg with
  | symbol name =>
    rw [bytes, pad]
    split_ifs with hodd
    · simp only [List.length_cons, List.length_append, List.length_nil]
      omega
    · simp only [List.length_cons, List.length_append, List.length_nil]
      omega
  | element8 | element16 | element32 => simp [bytes]

theorem even_flatMap {segs : List PathSegment} (h : ∀ seg ∈ segs, seg.Wf) :
    2 ∣ (segs.flatMap bytes).length := by
  induction segs with
  | nil => exact dvd_zero 2
  | cons seg segs ih =>
    rw [List.flatMap_cons, List.length_append]
    exact dvd_add (even_bytes (h seg List.mem_cons_self)) (ih fun seg' hseg => h seg' (.tail _ hseg))

theorem readPath_flatMap {segs : List PathSegment} (h : ∀ seg ∈ segs, seg.Wf) :
    readPath (segs.flatMap bytes) = some segs :=
  readAll_eq_some fun seg hseg => reads (h seg hseg)

/-- How `cip_encode_tag_name` comes to its end when it accepts a name. -/
theorem cipEncodeTagName_ok {elemCount : ℤ} {name : Text}
    (hok : (cipEncodeTagName elemCount name).rc = plctagStatusOk) :
    ∃ enc rest, parseSymbolicSegment [0] name = some (enc, rest) ∧
      let r := encodeSegments elemCount rest.length enc rest
      (cipEncodeTagName elemCount name).encodedName =
        r.1.encodedName.set 0 (UInt8.ofNat ((r.1.encodedName.length - 1) / 2)) := by
  have hbad : plctagErrBadParam ≠ plctagStatusOk := by decide
  unfold cipEncodeTagName at hok ⊢
  cases hparse : parseSymbolicSegment [0] name with
  | none =>
    rw [hparse] at hok
    exact absurd hok hbad
  | some parsed =>
    rw [hparse] at hok
    refine ⟨parsed.1, parsed.2, rfl, ?_⟩
    dsimp only at hok ⊢
    split_ifs at hok ⊢ with hrc hrest
    · exact absurd hok hrc
    · exact absurd hok hbad
    · rfl

/-- A name that is accepted, and leaves room in the buffer, has become the path of its segments after
the number of words in it. -/
theorem accepted_name_is_path (elemCount : ℤ) (name : Text)
    (hok : (cipEncodeTagName elemCount name).rc = plctagStatusOk)
    (hfits : (cipEncodeTagName elemCount name).encodedName.length < maxTagName - 1) :
    ∃ (words : ℕ) (path : List UInt8) (s : Text) (segs : List PathSegment),
      (cipEncodeTagName elemCount name).encodedName = UInt8.ofNat words :: path ∧
      path.length = 2 * words ∧ words < 256 ∧ s ≠ [] ∧ readPath path = some (symbol s :: segs) := by
  obtain ⟨enc, rest, hparse, hname⟩ := cipEncodeTagName_ok hok
  rw [hname, List.length_set] at hfits
  obtain ⟨-, hmax, -⟩ := length_parseSymbolicSegment hparse (by decide)
  obtain ⟨hle, -⟩ := length_encodeSegments elemCount rest.length rest hmax
  obtain ⟨s, hne, hwf, henc⟩ :=
    parseSymbolicSegment_sound hparse Nat.one_pos (hle.trans_lt hfits)
  have hfirst : IsPath enc :=
    ⟨s, [], hne, fun seg hseg => List.mem_singleton.mp hseg ▸ hwf, by
      rw [henc, List.flatMap_cons, List.flatMap_nil, List.append_nil]; rfl⟩
  obtain ⟨s, segs, hne, hwf, henc⟩ := encodeSegments_sound elemCount rest.length rest hfirst hfits
  obtain ⟨words, hwords⟩ := even_flatMap hwf
  rw [henc, List.length_cons, maxTagName] at hfits
  refine ⟨words, _, s, segs, ?_, hwords, by omega, hne, readPath_flatMap hwf⟩
  rw [hname, henc, List.length_cons, hwords, List.set_cons_zero]
  congr 2
  omega

theorem accepted_name_is_path_spaced :
    ∃ (words : ℕ) (path : List UInt8) (s : Text) (segs : List PathSegment),
      (cipEncodeTagName 1 (text "Ab[ 1 ,+2 ]")).encodedName = UInt8.ofNat words :: path ∧
      path.length = 2 * words ∧ words < 256 ∧ s ≠ [] ∧ readPath path = some (symbol s :: segs) :=
  accepted_name_is_path 1 (text "Ab[ 1 ,+2 ]") (by decide +kernel) (by decide +kernel)

/-! ## The room that is needed -/

theorem length_encodedName (elemCount : ℤ) (name : Text) :
    (cipEncodeTagName elemCount name).encodedName.length ≤ maxWritten ∧
      (cipEncodeTagName elemCount name).encodedName.length ≤ 2 * name.length + 3 := by
  unfold cipEncodeTagName
  cases hparse : parseSymbolicSegment [0] name with
  | none => exact ⟨show 1 ≤ maxWritten by decide, show 1 ≤ _ by omega⟩
  | some parsed =>
    obtain ⟨-, hmax, hlen, -⟩ := length_parseSymbolicSegment hparse (by decide)
    obtain ⟨-, hmax', hlen'⟩ := length_encodeSegments elemCount parsed.2.length parsed.2 hmax
    rw [List.length_singleton] at hlen
    dsimp only
    split_ifs
    · exact ⟨hmax', by omega⟩
    · exact ⟨hmax', by dsimp only; omega⟩
    · rw [List.length_set]
      exact ⟨hmax', by omega⟩

/-- `encoded_name` has 260 bytes. A name of up to 128 characters stays inside, whether it is accepted
or not, and no name writes more than 17 bytes past the end; but there are names that are accepted and
do. -/
theorem encodedName_overrun :
    (∀ elemCount name, (cipEncodeTagName elemCount name).encodedName.length ≤ maxTagName + 17 ∧
      (name.length ≤ 128 → (cipEncodeTagName elemCount name).encodedName.length ≤ maxTagName)) ∧
    ∃ name, (0 : UInt8) ∉ name ∧ (cipEncodeTagName 1 name).rc = plctagStatusOk ∧
      maxTagName < (cipEncodeTagName 1 name).encodedName.length := by
  constructor
  · intro elemCount name
    obtain ⟨hmax, hlen⟩ := length_encodedName elemCount name
    unfold maxWritten at hmax
    unfold maxTagName
    exact ⟨by omega, fun hname => by omega⟩
  · exact ⟨97 :: ((List.replicate 63 (text ".a")).flatten ++ text "[256]"), by decide +kernel,
      by decide +kernel, by decide +kernel⟩

/-! ## The grammar of the source -/

/-- One to three indices. A larger one is taken as well, but not encoded whole. -/
structure Dimensions where
  index : ℕ
  more : List ℕ
  few : more.length ≤ 2
  small : ∀ i ∈ index :: more, i < 2 ^ 32

theorem Dimensions.le_longMax (d : Dimensions) : ∀ i ∈ d.index :: d.more, (i : ℤ) ≤ longMax := by
  intro i hi
  have hsmall := d.small i hi
  unfold longMax
  omega

/-- `tag_seg`. -/
inductive TagSeg where
  | symbol (s : { s : Text // IsSymbol s })
  | array (d : Dimensions)

structure TagName where
  base : { s : Text // IsSymbol s }
  segs : List TagSeg
  bit : Option (Fin 65536)

namespace TagSeg

def text : TagSeg → Text
  | symbol s => 46 :: s.val
  | array d => 91 :: (dimensionsText d.index d.more ++ [93])

def path : TagSeg → List PathSegment
  | symbol s => [PathSegment.symbol s.val]
  | array d => (d.index :: d.more).map numericSegment

end TagSeg

namespace TagName

def bitText (bit : Option (Fin 65536)) : Text := bit.elim [] fun b => 46 :: printNat b

def text (t : TagName) : Text := t.base.val ++ (t.segs.flatMap TagSeg.text ++ bitText t.bit)

def path (t : TagName) : List PathSegment :=
  PathSegment.symbol t.base.val :: t.segs.flatMap TagSeg.path

end TagName

theorem nul_not_mem_symbol {s : Text} (h : IsSymbol s) : (0 : UInt8) ∉ s := by
  obtain ⟨hne, hstart, hchars⟩ := h
  obtain ⟨c, cs, rfl⟩ := List.exists_cons_of_ne_nil hne
  intro hzero
  rcases List.mem_cons.mp hzero with rfl | hzero
  · exact absurd (hstart 0 rfl) (by decide)
  · exact absurd (hchars 0 hzero) (by decide)

theorem nul_not_mem_tagSeg (seg : TagSeg) : (0 : UInt8) ∉ seg.text := by
  cases seg with
  | symbol s =>
    exact fun hzero => (List.mem_cons.mp hzero).elim (by decide) (nul_not_mem_symbol s.property)
  | array d =>
    intro hzero
    rw [TagSeg.text, List.mem_cons, List.mem_append, dimensionsText, List.mem_append] at hzero
    rcases hzero with hzero | (hzero | hzero) | hzero
    · exact absurd hzero (by decide)
    · exact nul_not_mem_printNat _ hzero
    · exact nul_not_mem_indices _ hzero
    · exact absurd hzero (by decide)

/-- What follows a segment begins with a dot or a bracket. -/
theorem head_segs (segs : List TagSeg) (bit : Option (Fin 65536)) :
    ∀ b ∈ (segs.flatMap TagSeg.text ++ TagName.bitText bit).head?, b = 46 ∨ b = 91 := by
  intro b hb
  cases segs with
  | nil =>
    cases bit with
    | none => exact absurd hb (by simp [TagName.bitText])
    | some bit => exact .inl (Option.some.inj hb).symm
  | cons seg segs =>
    cases seg with
    | symbol s => exact .inl (Option.some.inj hb).symm
    | array d => exact .inr (Option.some.inj hb).symm

theorem nul_not_mem_segs (segs : List TagSeg) (bit : Option (Fin 65536)) :
    (0 : UInt8) ∉ segs.flatMap TagSeg.text ++ TagName.bitText bit := by
  rw [List.mem_append]
  refine not_or.mpr ⟨fun hzero => ?_, fun hzero => ?_⟩
  · obtain ⟨seg, -, hseg⟩ := List.mem_flatMap.mp hzero
    exact nul_not_mem_tagSeg seg hseg
  · cases bit with
    | none => exact absurd hzero List.not_mem_nil
    | some bit => exact (List.mem_cons.mp hzero).elim (by decide) (nul_not_mem_printNat _)

theorem isSymbolChar_of_head {rest : Text} (h : ∀ b ∈ rest.head?, b = 46 ∨ b = 91) :
    ∀ b ∈ rest.head?, isSymbolChar b = false := by
  intro b hb
  rcases h b hb with rfl | rfl <;> rfl

theorem encodeTurn_seg (elemCount : ℤ) (seg : TagSeg) {enc rest : List UInt8}
    (hrest : ∀ b ∈ rest.head?, b = 46 ∨ b = 91) (hnul : (0 : UInt8) ∉ rest)
    (hfits : (enc ++ seg.path.flatMap bytes).length < maxTagName) :
    encodeTurn elemCount enc (seg.text ++ rest) = .inl (enc ++ seg.path.flatMap bytes, rest) := by
  cases seg with
  | symbol s =>
    rw [TagSeg.path, List.flatMap_cons, List.flatMap_nil, List.append_nil] at hfits ⊢
    have hparse := parseSymbolicSegment_complete s.property (isSymbolChar_of_head hrest) hfits
    show (match parseSymbolicSegment enc (s.val ++ rest) with
      | some parsed => Sum.inl parsed
      | none => _) = _
    rw [hparse]
  | array d =>
    have htext : (TagSeg.array d).text ++ rest = 91 :: (dimensionsText d.index d.more ++ 93 :: rest) := by
      rw [TagSeg.text, List.cons_append, List.append_assoc]
      rfl
    rw [htext, TagSeg.path, flatMap_numericSegment]
    show (match parseDimensions 2 enc (dimensionsText d.index d.more ++ 93 :: rest) with
      | (enc, 93 :: name) => Sum.inl (enc, name)
      | (enc, name) => _) = _
    rw [parseDimensions_complete d.few d.le_longMax enc hnul]
    rfl

theorem encodeTurn_bit (elemCount : ℤ) (bit : Fin 65536) (enc : List UInt8) :
    encodeTurn elemCount enc (46 :: printNat bit) = .inr
      (if elemCount = 1 then (⟨plctagStatusOk, enc, some bit⟩, [])
        else (⟨plctagErrBadParam, enc, none⟩, printNat bit)) := by
  have hbit := bit.isLt
  have hlong : ((bit : ℕ) : ℤ) ≤ longMax := by
    have hmax : longMax = 2 ^ 63 - 1 := rfl
    omega
  obtain ⟨d, hd, digits, hdigits⟩ := printNat_head bit
  have hsymbol : parseSymbolicSegment enc (printNat bit) = none := by
    have hstart : isSymbolStart (digitByte d) = false := by
      interval_cases d <;> rfl
    rw [hdigits, parseSymbolicSegment, hstart]
    rfl
  have hstrto : strtoll (printNat bit ++ []) = ⟨((bit : ℕ) : ℤ), false, some []⟩ :=
    strtoll_printNat_append hlong (by simp) (by simp)
  rw [List.append_nil] at hstrto
  have hparse : parseBitSegment elemCount (printNat bit) =
      if elemCount = 1 then some ((bit : ℤ), []) else none := by
    rw [parseBitSegment, hstrto, Option.bind_some]
    dsimp only
    rw [if_neg (by omega), ite_not]
  show (match parseSymbolicSegment enc (printNat bit) with
    | some parsed => Sum.inl parsed
    | none => match parseBitSegment elemCount (printNat bit) with
      | some (bit, name) => _
      | none => _) = _
  rw [hsymbol, hparse]
  split_ifs <;> rfl

theorem length_tagSeg_pos (seg : TagSeg) : 0 < seg.text.length := by
  cases seg <;> exact Nat.succ_pos _

/-- The loop, on the rest of a name. -/
theorem encodeSegments_segs (elemCount : ℤ) (segs : List TagSeg) (bit : Option (Fin 65536)) {fuel : ℕ}
    {enc : List UInt8}
    (hfuel : (segs.flatMap TagSeg.text ++ TagName.bitText bit).length ≤ fuel)
    (hfits : (enc ++ (segs.flatMap TagSeg.path).flatMap bytes).length < maxTagName) :
    encodeSegments elemCount fuel enc (segs.flatMap TagSeg.text ++ TagName.bitText bit) =
      let written := enc ++ (segs.flatMap TagSeg.path).flatMap bytes
      bit.elim (⟨plctagStatusOk, written, none⟩, []) fun b =>
        if elemCount = 1 then (⟨plctagStatusOk, written, some b⟩, [])
        else (⟨plctagErrBadParam, written, none⟩, printNat b) := by
  induction segs generalizing fuel enc with
  | nil =>
    simp only [List.flatMap_nil, List.append_nil, List.nil_append] at hfuel hfits ⊢
    cases bit with
    | none =>
      cases fuel with
      | zero => rfl
      | succ fuel =>
        rw [encodeSegments, if_pos hfits]
        rfl
    | some b =>
      have hbit : TagName.bitText (some b) = 46 :: printNat b := rfl
      rw [hbit, List.length_cons] at hfuel
      obtain ⟨fuel, rfl⟩ := Nat.exists_eq_succ_of_ne_zero (Nat.ne_zero_of_lt (Nat.lt_of_succ_le hfuel))
      rw [hbit, encodeSegments, if_pos hfits, encodeTurn_bit]
      rfl
  | cons seg segs ih =>
    have hpos := length_tagSeg_pos seg
    have htext : (seg :: segs).flatMap TagSeg.text ++ TagName.bitText bit =
        seg.text ++ (segs.flatMap TagSeg.text ++ TagName.bitText bit) := by
      rw [List.flatMap_cons, List.append_assoc]
    have hpath : enc ++ ((seg :: segs).flatMap TagSeg.path).flatMap bytes =
        (enc ++ seg.path.flatMap bytes) ++ (segs.flatMap TagSeg.path).flatMap bytes := by
      rw [List.flatMap_cons, List.flatMap_append, List.append_assoc]
    rw [htext, List.length_append] at hfuel
    rw [hpath] at hfits
    obtain ⟨fuel, rfl⟩ := Nat.exists_eq_succ_of_ne_zero (show fuel ≠ 0 by omega)
    have hrest := ih (Nat.le_of_lt_succ (Nat.lt_of_lt_of_le (Nat.lt_add_of_pos_left hpos) hfuel)) hfits
    rw [List.length_append] at hfits
    have hseg := Nat.lt_of_le_of_lt (Nat.le_add_right _ _) hfits
    have henc : enc.length < maxTagName := by
      rw [List.length_append] at hseg
      omega
    rw [htext, hpath, encodeSegments, if_pos henc,
      encodeTurn_seg elemCount seg (head_segs segs bit) (nul_not_mem_segs segs bit) hseg]
    exact hrest

theorem cipEncodeTagName_text (elemCount : ℤ) (t : TagName)
    (hfits : (t.path.flatMap bytes).length < maxTagName - 2) :
    cipEncodeTagName elemCount t.text = if t.bit = none ∨ elemCount = 1 then
        ⟨plctagStatusOk, UInt8.ofNat ((t.path.flatMap bytes).length / 2) :: t.path.flatMap bytes,
          t.bit.map fun b => (b : ℤ)⟩
      else ⟨plctagErrBadParam, 0 :: t.path.flatMap bytes, none⟩ := by
  have hwritten : [0] ++ (symbol t.base.val).bytes ++ (t.segs.flatMap TagSeg.path).flatMap bytes =
      0 :: t.path.flatMap bytes := by
    rw [TagName.path, List.flatMap_cons, List.append_assoc]
    rfl
  have hall : ([0] ++ (symbol t.base.val).bytes ++
      (t.segs.flatMap TagSeg.path).flatMap bytes).length < maxTagName := by
    rw [hwritten, List.length_cons]
    omega
  have hbase : ([0] ++ (symbol t.base.val).bytes).length < maxTagName := by
    rw [List.length_append] at hall
    omega
  have hparse := parseSymbolicSegment_complete t.base.property
    (isSymbolChar_of_head (head_segs t.segs t.bit)) hbase
  have hloop := encodeSegments_segs elemCount t.segs t.bit le_rfl hall
  rw [hwritten] at hloop
  unfold cipEncodeTagName
  rw [TagName.text, hparse]
  dsimp only
  rw [hloop]
  cases hbit : t.bit with
  | none => simp
  | some b => by_cases helem : elemCount = 1 <;> simp [helem]

end Plctagt.Tag
