import Plctagt.Tag.StringRoundTrip

/-! # The strings `readStringTag` comes to, and where it stops

The reader walks the buffer by the length of each string. The count word it takes this from is data
of the PLC, is read without a look at the end of the buffer, and is sign-extended. `StringStart` are
the offsets the walk comes to when all goes well; what the walk relies on at each of them is `Sound`:
the count word lies in the buffer, is not negative, and one more fits an `int`.
-/
namespace Plctagt.Tag
open Effects Bytes Decimal
set_option autoImplicit false

/-! ## The definitions of the PLCs -/

def logixTagByteOrder : TagByteOrder where
  strIsDefined := true
  strIsCounted := true
  strIsFixedLength := true
  strIsZeroTerminated := false
  strIsByteSwapped := false
  strCountWordBytes := 4
  strMaxCapacity := 82
  strTotalLength := 88
  strPadBytes := 2
  int16Order := .little 2
  int32Order := .little 4
  int64Order := .little 8
  float32Order := .little 4
  float64Order := .little 8

def slcTagByteOrder : TagByteOrder where
  strIsDefined := true
  strIsCounted := true
  strIsFixedLength := true
  strIsZeroTerminated := false
  strIsByteSwapped := true
  strCountWordBytes := 2
  strMaxCapacity := 82
  strTotalLength := 84
  strPadBytes := 0
  int16Order := .little 2
  int32Order := .little 4
  int64Order := .little 8
  float32Order := .little 4
  float64Order := .little 8

/-- As for the SLC, but for the words of a float. -/
def plc5TagByteOrder : TagByteOrder :=
  { slcTagByteOrder with float32Order := ⟨![2, 3, 0, 1], by decide⟩ }

def omronNjnxTagByteOrder : TagByteOrder where
  strIsDefined := true
  strIsCounted := true
  strIsFixedLength := false
  strIsZeroTerminated := true
  strIsByteSwapped := false
  strCountWordBytes := 2
  strMaxCapacity := 0
  strTotalLength := 0
  strPadBytes := 0
  int16Order := .little 2
  int32Order := .little 4
  int64Order := .little 8
  float32Order := .little 4
  float64Order := .little 8

def stringDefinitions : List TagByteOrder :=
  [logixTagByteOrder, plc5TagByteOrder, slcTagByteOrder, omronNjnxTagByteOrder]

/-- What the walk needs to know of a definition. -/
structure Counted (b : TagByteOrder) : Prop where
  defined : b.strIsDefined = true
  counted : b.strIsCounted = true
  countWord : b.strCountWordBytes = 2 ∨ b.strCountWordBytes = 4

theorem counted_of_mem {b : TagByteOrder} (h : b ∈ stringDefinitions) : Counted b := by
  simp only [stringDefinitions, List.mem_cons, List.not_mem_nil, or_false] at h
  rcases h with rfl | rfl | rfl | rfl
  · exact ⟨rfl, rfl, .inr rfl⟩
  · exact ⟨rfl, rfl, .inl rfl⟩
  · exact ⟨rfl, rfl, .inl rfl⟩
  · exact ⟨rfl, rfl, .inl rfl⟩

theorem omronNjnx_mem : omronNjnxTagByteOrder ∈ stringDefinitions := by
  simp [stringDefinitions]

/-! ## Where strings begin -/

section Starts
variable (b : TagByteOrder) (data : List UInt8)

/-- The count word at `offset`, sign-extended. -/
def signedCount (offset : ℕ) : ℤ :=
  if b.strCountWordBytes = 2 then BitVec.toInt (BitVec.ofNat 16 (load data offset b.int16Order))
  else BitVec.toInt (BitVec.ofNat 32 (load data offset b.int32Order))

/-- The `n` characters of the string at `offset` are in the buffer. -/
def Whole (offset n : ℕ) : Prop :=
  ∀ i < n, b.charIndex i + offset + b.strCountWordBytes < data.length

/-- What a string of `n` characters takes of the buffer. -/
def totalLength (n : ℕ) : ℕ :=
  b.strCountWordBytes + (if b.strIsFixedLength then b.strMaxCapacity else n) +
    (if b.strIsZeroTerminated then 1 else 0) + b.strPadBytes

theorem Counted.totalLength_pos {b : TagByteOrder} (hc : Counted b) (n : ℕ) :
    0 < totalLength b n := by
  have := hc.countWord
  unfold totalLength
  omega

/-- The count word at `offset` can be read, and is a length. -/
def Sound (offset : ℕ) : Prop :=
  offset + b.strCountWordBytes ≤ data.length ∧ 0 ≤ signedCount b data offset ∧
    signedCount b data offset < intMax

/-- The buffer starts with a string, and another one starts after each that is all there. -/
inductive StringStart : ℕ → Prop
  | first : StringStart 0
  | next (offset n : ℕ) (h : StringStart offset) (hsound : Sound b data offset)
      (hcount : signedCount b data offset = n) (hwhole : Whole b data offset n) :
      StringStart (offset + totalLength b n)

/-- Each character of the string is a byte of the buffer, at its place from some offset on. -/
def CopiedFrom (s : Text) : Prop :=
  ∃ offset, ∀ i c, s[i]? = some c → data[b.charIndex i + offset + b.strCountWordBytes]? = some c

variable {b data}

theorem CopiedFrom.of_prefix {s t : Text} (ht : CopiedFrom b data t) (h : s <+: t) :
    CopiedFrom b data s := by
  obtain ⟨offset, hchar⟩ := ht
  obtain ⟨rest, rfl⟩ := h
  refine ⟨offset, fun i c hi => hchar i c ?_⟩
  obtain ⟨hlt, -⟩ := List.getElem?_eq_some_iff.mp hi
  rw [List.getElem?_append_left hlt, hi]

theorem Whole.end_le {offset n : ℕ} (hw : Whole b data offset n)
    (hin : offset + b.strCountWordBytes ≤ data.length) :
    offset + b.strCountWordBytes + n ≤ data.length := by
  rcases Nat.eq_zero_or_pos n with rfl | hn
  · exact hin
  by_cases hsw : b.strIsByteSwapped = true
  · -- the last place is the last character's or, in a pair, the one before it
    have hlast := hw (n - 1) (by omega)
    simp only [TagByteOrder.charIndex, hsw, if_true] at hlast
    by_cases hn1 : n = 1
    · subst hn1
      simp only [Nat.sub_self, Nat.zero_mod, if_true] at hlast
      omega
    · have hprev := hw (n - 2) (by omega)
      simp only [TagByteOrder.charIndex, hsw, if_true] at hprev
      split_ifs at hlast hprev <;> omega
  · have hlast := hw (n - 1) (by omega)
    simp only [TagByteOrder.charIndex, hsw, Bool.false_eq_true, if_false] at hlast
    omega

end Starts

/-! ## What the accessors do at an offset -/

theorem cstr_append_nul (s : Text) : cstr (s ++ [0]) <+: s := by
  have hnul : [(0 : UInt8)].takeWhile (fun b => decide (b ≠ 0)) = [] := by decide
  rw [cstr, List.takeWhile_append, hnul, List.append_nil]
  split_ifs
  · exact List.prefix_refl s
  · exact List.takeWhile_prefix _

theorem copyOut_out (b : TagByteOrder) (data : List UInt8) (offset n k : ℕ)
    (hoffset : offset < 2 ^ 32)
    (hout : ∃ i, k ≤ i ∧ i < k + n ∧ data.length ≤ b.charIndex i + offset + b.strCountWordBytes) :
    (copyOut b data offset n k).1 = plctagErrOutOfBounds := by
  induction n generalizing k with
  | zero =>
    obtain ⟨i, hlo, hhi, -⟩ := hout
    omega
  | succ n ih =>
    rw [copyOut, toUnsigned_natCast offset hoffset]
    cases hc : data[b.charIndex k + offset + b.strCountWordBytes]? with
    | none => rfl
    | some c =>
      obtain ⟨i, hlo, hhi, hi⟩ := hout
      have hne : k ≠ i := by
        rintro rfl
        have hnone := List.getElem?_eq_none_iff.mpr hi
        rw [hc] at hnone
        cases hnone
      exact ih (k + 1) ⟨i, by omega, by omega, hi⟩

section Get
variable {p : PlcTag} {data : List UInt8} {offset : ℕ} (hc : Counted p.byteOrder)
  (hd : p.data = some data)
include hc hd

theorem getStringLengthUnsafe_counted :
    getStringLengthUnsafe p offset =
      if offset + p.byteOrder.strCountWordBytes ≤ data.length then
        some (signedCount p.byteOrder data offset)
      else none := by
  simp only [getStringLengthUnsafe, hc.counted, if_true, hd, Option.getD_some]
  rcases hc.countWord with h2 | h4
  · simp only [h2, wordUnsafe, signedCount, if_true]
    by_cases hin : offset + 2 ≤ data.length
    · rw [if_pos (by omega), if_pos hin, Option.map_some, Int.toNat_natCast]
    · rw [if_neg (by omega), if_neg hin, Option.map_none]
  · have h42 : ¬ (4 : ℕ) = 2 := by decide
    simp only [h4, wordUnsafe, signedCount, h42, if_false]
    by_cases hin : offset + 4 ≤ data.length
    · rw [if_pos (by omega), if_pos hin, Option.map_some, Int.toNat_natCast]
    · rw [if_neg (by omega), if_neg hin, Option.map_none]

theorem plcTagGetStringLength_counted (hbit : p.isBit = false) :
    plcTagGetStringLength p offset =
      if offset + p.byteOrder.strCountWordBytes ≤ data.length then
        some (signedCount p.byteOrder data offset)
      else none := by
  rw [plcTagGetStringLength, stringRefusal_none hc.defined hd hbit,
    getStringLengthUnsafe_counted hc hd]

theorem plcTagGetStringTotalLength_counted (hbit : p.isBit = false) {n : ℕ}
    (hin : offset + p.byteOrder.strCountWordBytes ≤ data.length)
    (hn : signedCount p.byteOrder data offset = n) :
    plcTagGetStringTotalLength p offset = some (totalLength p.byteOrder n : ℤ) := by
  simp only [plcTagGetStringTotalLength, stringRefusal_none hc.defined hd hbit,
    getStringTotalLengthUnsafe, getStringLengthUnsafe_counted hc hd, if_pos hin, hn, totalLength]
  split_ifs <;> simp only [Option.map_some, Option.some.injEq] <;> push_cast <;> ring

theorem plcTagGetString_counted (hbit : p.isBit = false)
    (hin : offset + p.byteOrder.strCountWordBytes ≤ data.length) (bufferLength : ℤ)
    (hbuffer : signedCount p.byteOrder data offset ≤ bufferLength) :
    plcTagGetString p offset bufferLength =
      some (if offset + p.byteOrder.strCountWordBytes + signedCount p.byteOrder data offset ≤
          data.length then
        let r := copyOut p.byteOrder data offset
          (min (signedCount p.byteOrder data offset).toNat data.length) 0
        (r.1, cleared bufferLength r.2)
      else (plctagErrOutOfBounds, cleared bufferLength [])) := by
  have hsize : p.size = data.length := PlcTag.size_eq hd
  have hmax : (if bufferLength < signedCount p.byteOrder data offset then bufferLength
      else signedCount p.byteOrder data offset) = signedCount p.byteOrder data offset :=
    if_neg (not_lt.mpr hbuffer)
  simp only [plcTagGetString, stringRefusal_none hc.defined hd hbit,
    getStringLengthUnsafe_counted hc hd, if_pos hin, Option.map_some, hmax, hsize, hd,
    Option.getD_some]

/-- A count word that is negative: nothing is copied, and nothing was cleared before. -/
theorem plcTagGetString_negative (hbit : p.isBit = false)
    (hin : offset + p.byteOrder.strCountWordBytes ≤ data.length)
    (hneg : signedCount p.byteOrder data offset < 0) :
    plcTagGetString p offset (signedCount p.byteOrder data offset + 1) =
      some (plctagStatusOk, []) := by
  have hzero : min (signedCount p.byteOrder data offset).toNat data.length = 0 := by omega
  have hcap : (signedCount p.byteOrder data offset + 1).toNat = 0 := by omega
  rw [plcTagGetString_counted hc hd hbit hin _ (by omega), if_pos (by omega), hzero]
  simp [copyOut, cleared, hcap]

theorem plcTagGetString_whole (hbit : p.isBit = false) (hlen : data.length < 2 ^ 31) {n : ℕ}
    (hin : offset + p.byteOrder.strCountWordBytes ≤ data.length)
    (hn : signedCount p.byteOrder data offset = n) (hw : Whole p.byteOrder data offset n) :
    ∃ s, plcTagGetString p offset (n + 1) = some (plctagStatusOk, s ++ [0]) ∧
      CopiedFrom p.byteOrder data s := by
  have hend := hw.end_le hin
  obtain ⟨s, hs, hchar⟩ : ∃ s : Text, s.length = n ∧ ∀ i (hi : i < s.length),
      data[p.byteOrder.charIndex i + offset + p.byteOrder.strCountWordBytes]? =
        some (s.get ⟨i, hi⟩) := by
    refine ⟨List.ofFn fun i : Fin n => data.get ⟨p.byteOrder.charIndex i + offset +
      p.byteOrder.strCountWordBytes, hw i i.isLt⟩, List.length_ofFn, fun i hi => ?_⟩
    rw [List.getElem?_eq_getElem (hw i (by simpa using hi))]
    simp
  have hcopy := copyOut_eq p.byteOrder data offset s (by omega) hchar n 0 (by omega)
  have hmin : min ((n : ℤ)).toNat data.length = n := by omega
  refine ⟨s, ?_, offset, fun i c hi => ?_⟩
  · rw [plcTagGetString_counted hc hd hbit hin _ (by omega), hn, if_pos (by omega), hmin, hcopy]
    have hrest : ((n : ℤ) + 1).toNat - s.length = 1 := by omega
    simp only [List.drop_zero, cleared, hrest]
    rfl
  · obtain ⟨hlt, rfl⟩ := List.getElem?_eq_some_iff.mp hi
    exact hchar i hlt

theorem plcTagGetString_not_whole (hbit : p.isBit = false) (hlen : data.length < 2 ^ 31) {n : ℕ}
    (hin : offset + p.byteOrder.strCountWordBytes ≤ data.length)
    (hn : signedCount p.byteOrder data offset = n) (hw : ¬ Whole p.byteOrder data offset n) :
    ∃ s, plcTagGetString p offset (n + 1) = some (plctagErrOutOfBounds, s) := by
  rw [plcTagGetString_counted hc hd hbit hin _ (by omega), hn]
  by_cases hend : (offset : ℤ) + p.byteOrder.strCountWordBytes + n ≤ data.length
  · have hmin : min ((n : ℤ)).toNat data.length = n := by omega
    have hout := copyOut_out p.byteOrder data offset n 0 (by omega) (by
      by_contra hall
      refine hw fun i hi => ?_
      by_contra hi'
      exact hall ⟨i, by omega, by omega, by omega⟩)
    rw [if_pos hend, hmin]
    exact ⟨_, congrArg (fun rc => some (rc, _)) hout⟩
  · rw [if_neg hend]
    exact ⟨_, rfl⟩

end Get

/-! ## One turn of the reader -/

/-- A turn that goes on has moved its offset forward. -/
def Advances : Event Call.Reply → Prop
  | ⟨.getStringTotalLength _ _, total⟩ => ∃ n, total = some n ∧ 0 < n
  | _ => True

/-- The program ends with a status, its offsets only grow, and what it adds to `prior` are strings
out of the buffer. -/
def Fine (b : TagByteOrder) (data : List UInt8) (w : World) (prior : List Text)
    (prog : Program (ℤ × Text × List Text)) : Prop :=
  ∃ rc es strs, (eval World.serve prog w).1 = .ok (rc, es, prior ++ strs) ∧
    (∀ ev ∈ trace World.serve prog w, Advances ev) ∧ ∀ s ∈ strs, CopiedFrom b data s

section Turn
variable {w : World} {tag : ℤ} {name : Text} {p : PlcTag} {d : Device} {data : List UInt8}
  (h : w.Connected tag name p d) (hc : Counted p.byteOrder) (hd : p.data = some data)
  (hbit : p.isBit = false) (hlen : data.length < 2 ^ 31) (hmalloc : ∀ n, w.malloc n = true)
  (es : Text) (turns offset : ℕ) (strNum : ℤ) (prior : List Text)

include h hd in
theorem fine_end (hout : data.length ≤ offset) :
    Fine p.byteOrder data w prior (readStrings es tag (turns + 1) strNum offset prior) := by
  have hsize : (p.size : ℤ) = data.length := by rw [PlcTag.size_eq hd]
  have hend : ¬ (offset : ℤ) < data.length := by omega
  refine ⟨0, es, [], ?_, ?_, fun s hs => absurd hs List.not_mem_nil⟩
  · simp only [readStrings, eval_perform_bind, World.serve, World.look_connected h, hsize, hend,
      if_false, eval_pure, List.append_nil]
  · simp only [readStrings, trace_perform_bind, World.serve, World.look_connected h, hsize, hend,
      if_false, trace_pure, List.mem_singleton, forall_eq]
    trivial

include h hc hd hbit hmalloc in
theorem not_ok_of_not_sound (hin : offset < data.length)
    (hbad : ¬ Sound p.byteOrder data offset) (r : ℤ × Text × List Text) :
    (eval World.serve (readStrings es tag (turns + 1) strNum offset prior) w).1 ≠ .ok r := by
  have hsize : (p.size : ℤ) = data.length := by rw [PlcTag.size_eq hd]
  have hlt : (offset : ℤ) < data.length := by omega
  simp only [readStrings, eval_perform_bind, World.serve, World.look_connected h, hsize, hlt,
    if_true, bind_assoc, plcTagGetStringLength_counted hc hd hbit]
  by_cases hread : offset + p.byteOrder.strCountWordBytes ≤ data.length
  · rw [if_pos hread]
    simp only [replied, pure_bind]
    by_cases hmax : intMax < signedCount p.byteOrder data offset + 1
    · simp [hmax]
    · have hneg : signedCount p.byteOrder data offset < 0 := by
        by_contra hnonneg
        exact hbad ⟨hread, by omega, by omega⟩
      simp [hmax, World.serve, World.look_connected h, hmalloc,
        plcTagGetString_negative hc hd hbit hread hneg]
  · rw [if_neg hread]
    simp [replied, eval_bind]

include h hd hmalloc in
/-- A string that is refused ends the walk with the status of the refusal. -/
theorem fine_of_failed (hin : offset < data.length) {length rc : ℤ} {str : Text}
    (hlength : plcTagGetStringLength p offset = some length) (hint : ¬ intMax < length + 1)
    (hstr : plcTagGetString p offset (length + 1) = some (rc, str)) (hrc : ¬ rc = plctagStatusOk) :
    Fine p.byteOrder data w prior (readStrings es tag (turns + 1) strNum offset prior) := by
  have hsize : (p.size : ℤ) = data.length := by rw [PlcTag.size_eq hd]
  have hlt : (offset : ℤ) < data.length := by omega
  refine ⟨rc, text "Unable to get string " ++ printInt strNum ++ text " of tag, got error " ++
    plcTagDecodeError rc ++ text "!", [], ?_, ?_, fun s hs => absurd hs List.not_mem_nil⟩
  · simp only [readStrings, eval_perform_bind, World.serve, World.look_connected h, hsize, hlt,
      if_true, bind_assoc, hlength, replied, pure_bind, hint, if_false, hmalloc, Bool.true_eq_false,
      hstr, ne_eq, hrc, not_false_eq_true, eval_pure, List.append_nil]
  · simp only [readStrings, trace_perform_bind, World.serve, World.look_connected h, hsize, hlt,
      if_true, bind_assoc, hlength, replied, pure_bind, hint, if_false, hmalloc, Bool.true_eq_false,
      hstr, ne_eq, hrc, not_false_eq_true, trace_pure, List.forall_mem_cons]
    simp [Advances]

include h hc hd hbit hlen hmalloc in
theorem fine_cut (hin : offset < data.length) (hsound : Sound p.byteOrder data offset) {n : ℕ}
    (hn : signedCount p.byteOrder data offset = n) (hw : ¬ Whole p.byteOrder data offset n) :
    Fine p.byteOrder data w prior (readStrings es tag (turns + 1) strNum offset prior) := by
  obtain ⟨hread, -, hmax⟩ := hsound
  obtain ⟨str, hstr⟩ := plcTagGetString_not_whole hc hd hbit hlen hread hn hw
  have hlength : plcTagGetStringLength p offset = some (n : ℤ) := by
    rw [plcTagGetStringLength_counted hc hd hbit, if_pos hread, hn]
  exact fine_of_failed h hd hmalloc es turns offset strNum prior hin hlength (by omega) hstr
    (by decide)

include h hc hd hbit hlen hmalloc in
/-- A string that is all there is added, and the walk goes on after it. -/
theorem turn_whole (hin : offset < data.length) (hsound : Sound p.byteOrder data offset) {n : ℕ}
    (hn : signedCount p.byteOrder data offset = n) (hw : Whole p.byteOrder data offset n) :
    ∃ s evs, CopiedFrom p.byteOrder data s ∧ (∀ ev ∈ evs, Advances ev) ∧
      eval World.serve (readStrings es tag (turns + 1) strNum offset prior) w =
        eval World.serve (readStrings es tag turns (strNum + 1)
          (offset + totalLength p.byteOrder n : ℕ) (prior ++ [s])) w ∧
      trace World.serve (readStrings es tag (turns + 1) strNum offset prior) w =
        evs ++ trace World.serve (readStrings es tag turns (strNum + 1)
          (offset + totalLength p.byteOrder n : ℕ) (prior ++ [s])) w := by
  obtain ⟨hread, -, hmax⟩ := hsound
  have hsize : (p.size : ℤ) = data.length := by rw [PlcTag.size_eq hd]
  have hlt : (offset : ℤ) < data.length := by omega
  have hint : ¬ intMax < (n : ℤ) + 1 := by omega
  obtain ⟨s, hstr, hcopied⟩ := plcTagGetString_whole hc hd hbit hlen hread hn hw
  have hzero : (0 : UInt8) ∈ s ++ [0] := by simp
  have hlength : plcTagGetStringLength p offset = some (n : ℤ) := by
    rw [plcTagGetStringLength_counted hc hd hbit, if_pos hread, hn]
  have htotal := plcTagGetStringTotalLength_counted hc hd hbit hread hn
  have hpos := hc.totalLength_pos n
  refine ⟨cstr (s ++ [0]), [⟨.getSize tag, data.length⟩, ⟨.getStringLength tag offset, some n⟩,
    ⟨.malloc (toUnsigned (n + 1)), true⟩,
    ⟨.getString tag offset (n + 1), some (plctagStatusOk, s ++ [0])⟩,
    ⟨.getStringTotalLength tag offset, some (totalLength p.byteOrder n : ℤ)⟩], ?_, ?_, ?_, ?_⟩
  · exact hcopied.of_prefix (cstr_append_nul s)
  · simp [Advances, hpos]
  · simp only [readStrings, eval_perform_bind, World.serve, World.look_connected h, hsize, hlt,
      if_true, bind_assoc, hlength, replied, pure_bind, hint, if_false, hmalloc, Bool.true_eq_false,
      hstr, ne_eq, not_true_eq_false, hzero, htotal, Nat.cast_add]
  · simp only [readStrings, trace_perform_bind, World.serve, World.look_connected h, hsize, hlt,
      if_true, bind_assoc, hlength, replied, pure_bind, hint, if_false, hmalloc, Bool.true_eq_false,
      hstr, ne_eq, not_true_eq_false, hzero, htotal, Nat.cast_add, List.cons_append,
      List.nil_append]

end Turn

/-! ## The walk -/

section Walk
variable {w : World} {tag : ℤ} {name : Text} {p : PlcTag} {d : Device} {data : List UInt8}
  (h : w.Connected tag name p d) (hc : Counted p.byteOrder) (hd : p.data = some data)
  (hbit : p.isBit = false) (hlen : data.length < 2 ^ 31) (hmalloc : ∀ n, w.malloc n = true)
  (es : Text)
include h hc hd hbit hlen hmalloc

theorem fine_of_whole {offset n : ℕ} (hin : offset < data.length)
    (hsound : Sound p.byteOrder data offset) (hn : signedCount p.byteOrder data offset = n)
    (hw : Whole p.byteOrder data offset n) {turns : ℕ}
    (hnext : ∀ strNum prior, Fine p.byteOrder data w prior
      (readStrings es tag turns strNum (offset + totalLength p.byteOrder n : ℕ) prior))
    (strNum : ℤ) (prior : List Text) :
    Fine p.byteOrder data w prior (readStrings es tag (turns + 1) strNum offset prior) := by
  obtain ⟨s, evs, hcopied, hevs, heval, htrace⟩ :=
    turn_whole h hc hd hbit hlen hmalloc es turns offset strNum prior hin hsound hn hw
  obtain ⟨rc, es', strs, hok, hadv, hstrs⟩ := hnext (strNum + 1) (prior ++ [s])
  refine ⟨rc, es', s :: strs, ?_, ?_, List.forall_mem_cons.mpr ⟨hcopied, hstrs⟩⟩
  · rw [heval, hok, List.append_assoc, List.singleton_append]
  · rw [htrace]
    exact List.forall_mem_append.mpr ⟨hevs, hadv⟩

/-- The induction is on what is left of the buffer, of which each turn takes a part. -/
theorem exists_fine
    (hsound : ∀ o, StringStart p.byteOrder data o → o < data.length → Sound p.byteOrder data o)
    {offset : ℕ} (hstart : StringStart p.byteOrder data offset) :
    ∃ turns, ∀ strNum prior,
      Fine p.byteOrder data w prior (readStrings es tag turns strNum offset prior) := by
  induction hleft : data.length - offset using Nat.strong_induction_on generalizing offset with
  | _ left ih =>
    by_cases hin : offset < data.length
    · have hs := hsound offset hstart hin
      obtain ⟨n, hn⟩ := Int.eq_ofNat_of_zero_le hs.2.1
      by_cases hw : Whole p.byteOrder data offset n
      · have hpos := hc.totalLength_pos n
        obtain ⟨turns, hnext⟩ := ih (data.length - (offset + totalLength p.byteOrder n)) (by omega)
          (hstart.next offset n hs hn hw) rfl
        exact ⟨turns + 1, fine_of_whole h hc hd hbit hlen hmalloc es hin hs hn hw hnext⟩
      · exact ⟨1, fun strNum prior =>
          fine_cut h hc hd hbit hlen hmalloc es 0 offset strNum prior hin hs hn hw⟩
    · exact ⟨1, fun strNum prior => fine_end h hd es 0 offset strNum prior (not_lt.mp hin)⟩

/-- A reader that ends well from the start of the buffer does so from every offset it comes to. -/
theorem ok_of_stringStart {offset : ℕ} (hstart : StringStart p.byteOrder data offset)
    (hfirst : ∃ turns strNum prior r,
      (eval World.serve (readStrings es tag turns strNum (0 : ℕ) prior) w).1 = .ok r) :
    ∃ turns strNum prior r,
      (eval World.serve (readStrings es tag turns strNum (offset : ℕ) prior) w).1 = .ok r := by
  induction hstart with
  | first => exact hfirst
  | next offset n _ hsound hn hw ih =>
    obtain ⟨turns, strNum, prior, r, hok⟩ := ih
    have hin : offset < data.length := by
      have := hsound.1
      have := hc.countWord
      omega
    cases turns with
    | zero => simp [readStrings] at hok
    | succ turns =>
      obtain ⟨s, -, -, -, heval, -⟩ :=
        turn_whole h hc hd hbit hlen hmalloc es turns offset strNum prior hin hsound hn hw
      exact ⟨turns, strNum + 1, prior ++ [s], r, heval ▸ hok⟩

theorem sound_of_ok {offset : ℕ} (hstart : StringStart p.byteOrder data offset)
    (hin : offset < data.length)
    (hfirst : ∃ turns strNum prior r,
      (eval World.serve (readStrings es tag turns strNum (0 : ℕ) prior) w).1 = .ok r) :
    Sound p.byteOrder data offset := by
  by_contra hbad
  obtain ⟨turns, strNum, prior, r, hok⟩ :=
    ok_of_stringStart h hc hd hbit hlen hmalloc es hstart hfirst
  cases turns with
  | zero => simp [readStrings] at hok
  | succ turns =>
    exact not_ok_of_not_sound h hc hd hbit hmalloc es turns offset strNum prior hin hbad r hok

end Walk

section Reader
variable {w : World} {tag : ℤ} {name : Text} {p : PlcTag} {d : Device}
  (h : w.Connected tag name p d) (turns : ℕ) (es : Text) (prior : List Text) (timeOutMs : ℤ)
include h

/-- Once the tag was read and has its sizes, the walk is all there is. -/
theorem readStringTag_walk (hread : d.readStatus = plctagStatusOk) (hsize : d.elemSize ≠ 0)
    (hcount : d.elemCount ≠ 0) :
    eval World.serve (readStringTag turns es tag prior timeOutMs) w =
      eval World.serve (readStrings es tag turns 1 (0 : ℕ) prior)
        (w.setData tag name p d.memory) ∧
    ∃ evs, (∀ ev ∈ evs, Advances ev) ∧
      trace World.serve (readStringTag turns es tag prior timeOutMs) w =
        evs ++ trace World.serve (readStrings es tag turns 1 (0 : ℕ) prior)
          (w.setData tag name p d.memory) := by
  have hc := h.setData d.memory
  constructor
  · simp only [readStringTag, tagGetSizes, eval_perform_bind, bind_assoc, World.serve,
      World.read_connected h hread, World.getIntAttribute_connected hc, hsize, hcount, ne_eq,
      not_true_eq_false, if_false, pure_bind, Nat.cast_zero]
  · refine ⟨[⟨.read tag timeOutMs, plctagStatusOk⟩, ⟨.getIntAttribute tag .elemSize 0, d.elemSize⟩,
      ⟨.getIntAttribute tag .elemCount 0, d.elemCount⟩], ?_, ?_⟩
    · simp [Advances]
    · simp only [readStringTag, tagGetSizes, trace_perform_bind, bind_assoc, World.serve,
        World.read_connected h hread, World.getIntAttribute_connected hc, hsize, hcount, ne_eq,
        not_true_eq_false, if_false, pure_bind, Nat.cast_zero, List.cons_append, List.nil_append]

/-- Without a read that succeeds and both sizes, there is no walk. -/
theorem fine_of_refused
    (hno : d.readStatus ≠ plctagStatusOk ∨ d.elemSize = 0 ∨ d.elemCount = 0) :
    Fine p.byteOrder d.memory w prior (readStringTag turns es tag prior timeOutMs) := by
  have hc := h.setData d.memory
  by_cases hread : d.readStatus = plctagStatusOk
  · by_cases hsize : d.elemSize = 0
    · refine ⟨-1001, text ("ERROR: elem_size is 0. Can also signify invalid/unssupported/" ++
        "nonexistent tagname.\n"), [], ?_, ?_, fun s hs => absurd hs List.not_mem_nil⟩
      · simp only [readStringTag, tagGetSizes, eval_perform_bind, bind_assoc, World.serve,
          World.read_connected h hread, World.getIntAttribute_connected hc, hsize, ne_eq,
          not_true_eq_false, if_false, if_true, pure_bind, List.append_nil]
        rfl
      · simp [readStringTag, tagGetSizes, World.serve, World.read_connected h hread,
          World.getIntAttribute_connected hc, hsize, Advances]
    · have hcount : d.elemCount = 0 := by tauto
      refine ⟨-1002, text "ERROR: elem_count is 0.\n", [], ?_, ?_,
        fun s hs => absurd hs List.not_mem_nil⟩
      · simp only [readStringTag, tagGetSizes, eval_perform_bind, bind_assoc, World.serve,
          World.read_connected h hread, World.getIntAttribute_connected hc, hsize, hcount, ne_eq,
          not_true_eq_false, if_false, if_true, pure_bind, List.append_nil]
        rfl
      · simp [readStringTag, tagGetSizes, World.serve, World.read_connected h hread,
          World.getIntAttribute_connected hc, hsize, hcount, Advances]
  · have hstatus : w.read tag = (d.readStatus, w) := by
      simp [World.read, h.session, h.device, hread]
    refine ⟨d.readStatus, codeError "ERROR: Unable to read the data! Got error code" d.readStatus,
      [], ?_, ?_, fun s hs => absurd hs List.not_mem_nil⟩
    · simp only [readStringTag, eval_perform_bind, World.serve, hstatus, hread, ne_eq,
        not_false_eq_true, if_true, eval_pure, List.append_nil]
    · simp [readStringTag, World.serve, hstatus, hread, Advances]

/-- A tag that is a single bit has no strings, which the first turn finds out. -/
theorem fine_of_isBit (hdef : p.byteOrder.strIsDefined = true) (hbit : p.isBit = true)
    {data : List UInt8} (hd : p.data = some data) (hmalloc : ∀ n, w.malloc n = true)
    (strNum : ℤ) :
    Fine p.byteOrder data w prior (readStrings es tag (turns + 1) strNum (0 : ℕ) prior) := by
  by_cases hin : 0 < data.length
  · have hrefusal : stringRefusal p = some plctagErrUnsupported := by
      simp [stringRefusal, hdef, hd, hbit]
    have hlength : plcTagGetStringLength p (0 : ℕ) = some plctagErrUnsupported := by
      rw [plcTagGetStringLength, hrefusal]
    have hstr : plcTagGetString p (0 : ℕ) (plctagErrUnsupported + 1) =
        some (plctagErrUnsupported, []) := by
      rw [plcTagGetString, hrefusal]
    exact fine_of_failed h hd hmalloc es turns 0 strNum prior hin hlength (by decide) hstr
      (by decide)
  · exact fine_end h hd es turns 0 strNum prior (not_lt.mp hin)

end Reader

/-- For every string definition of a PLC the UI offers and every content of the tag: the reader ends,
each turn that goes on moves the offset forward, and every string it adds is copied out of the
buffer, if and only if at every offset where a string begins the count word lies in the buffer and
is from 0 to `INT_MAX - 1` (or the walk is never begun). -/
theorem readStringTag_fine_iff {w : World} {tag : ℤ} {name : Text} {p : PlcTag} {d : Device}
    (h : w.Connected tag name p d) (hb : p.byteOrder ∈ stringDefinitions)
    (hlen : d.memory.length < 2 ^ 31) (hmalloc : ∀ n, w.malloc n = true) (es : Text)
    (prior : List Text) (timeOutMs : ℤ) :
    (∃ turns, Fine p.byteOrder d.memory w prior
      (readStringTag turns es tag prior timeOutMs)) ↔
    (d.readStatus = plctagStatusOk → d.elemSize ≠ 0 → d.elemCount ≠ 0 → p.isBit = false →
      ∀ offset, StringStart p.byteOrder d.memory offset → offset < d.memory.length →
        Sound p.byteOrder d.memory offset) := by
  have hcounted := counted_of_mem hb
  have hc := h.setData d.memory
  constructor
  · rintro ⟨turns, rc, es', strs, hok, -, -⟩ hread hsize hcount hbit offset hstart hin
    rw [(readStringTag_walk h turns es prior timeOutMs hread hsize hcount).1] at hok
    exact sound_of_ok hc hcounted rfl hbit hlen hmalloc es hstart hin ⟨turns, 1, prior, _, hok⟩
  · intro hsound
    by_cases hno : d.readStatus ≠ plctagStatusOk ∨ d.elemSize = 0 ∨ d.elemCount = 0
    · exact ⟨0, fine_of_refused h 0 es prior timeOutMs hno⟩
    · simp only [not_or, ne_eq, not_not] at hno
      obtain ⟨hread, hsize, hcount⟩ := hno
      obtain ⟨turns, rc, es', strs, hok, hadv, hstrs⟩ : ∃ turns, Fine p.byteOrder d.memory
          (w.setData tag name p d.memory) prior (readStrings es tag turns 1 (0 : ℕ) prior) := by
        by_cases hbit : p.isBit = false
        · obtain ⟨turns, hfine⟩ := exists_fine hc hcounted rfl hbit hlen hmalloc es
            (hsound hread hsize hcount hbit) .first
          exact ⟨turns, hfine 1 prior⟩
        · have hbit' : p.isBit = true := by simpa using hbit
          exact ⟨1, fine_of_isBit hc 0 es prior hcounted.defined hbit' rfl hmalloc 1⟩
      obtain ⟨heval, evs, hevs, htrace⟩ :=
        readStringTag_walk h turns es prior timeOutMs hread hsize hcount
      refine ⟨turns, rc, es', strs, by rw [heval, hok], ?_, hstrs⟩
      rw [htrace]
      exact List.forall_mem_append.mpr ⟨hevs, hadv⟩

/-- A string tag of an Omron PLC that holds `memory`. -/
def omronString (memory : List UInt8) : PlcTag × Device :=
  ({ data := none, isBit := false, bit := 0, allowFieldResize := false
     byteOrder := omronNjnxTagByteOrder },
    { memory := memory, elemSize := 5, elemCount := 1, readStatus := 0, writeStatus := 0 })

theorem readStringTag_fine_two :
    ∃ turns, Fine omronNjnxTagByteOrder [2, 0, 65, 66, 0]
      (World.single 4 [] (omronString [2, 0, 65, 66, 0]).1 (omronString [2, 0, 65, 66, 0]).2) []
      (readStringTag turns [] 4 [] 5000) := by
  have hcount : signedCount omronNjnxTagByteOrder [2, 0, 65, 66, 0] 0 = 2 := by decide
  have hstart : ∀ offset, StringStart omronNjnxTagByteOrder [2, 0, 65, 66, 0] offset →
      offset = 0 ∨ 5 ≤ offset := by
    intro offset h
    induction h with
    | first => exact .inl rfl
    | next offset n _ _ hn _ ih =>
      rcases ih with rfl | hpast
      · obtain rfl : n = 2 := by omega
        exact .inr (by decide)
      · exact .inr (by omega)
  refine (readStringTag_fine_iff World.single_connected omronNjnx_mem (by decide) (fun _ => rfl)
    [] [] 5000).mpr fun _ _ _ _ offset h hin => ?_
  rcases hstart offset h with rfl | hpast
  · show Sound omronNjnxTagByteOrder [2, 0, 65, 66, 0] 0
    rw [Sound, hcount]
    decide
  · exact absurd hin (not_lt.mpr hpast)

/-- A count word of -1: the buffer of 0 bytes is copied from, though nothing was put there. -/
theorem readStringTag_negative :
    omronNjnxTagByteOrder ∈ stringDefinitions ∧
    ¬ ∃ turns, Fine omronNjnxTagByteOrder [255, 255, 65, 66, 0]
      (World.single 4 [] (omronString [255, 255, 65, 66, 0]).1
        (omronString [255, 255, 65, 66, 0]).2) []
      (readStringTag turns [] 4 [] 5000) := by
  refine ⟨omronNjnx_mem, ?_⟩
  rintro ⟨turns, rc, es, strs, hok, -, -⟩
  have h : (World.single 4 [] (omronString [255, 255, 65, 66, 0]).1
      (omronString [255, 255, 65, 66, 0]).2).Connected 4 [] (omronString [255, 255, 65, 66, 0]).1
        (omronString [255, 255, 65, 66, 0]).2 := World.single_connected
  rw [(readStringTag_walk h turns [] [] 5000 rfl (by decide) (by decide)).1] at hok
  have hsound : Sound omronNjnxTagByteOrder [255, 255, 65, 66, 0] 0 :=
    sound_of_ok (h.setData [255, 255, 65, 66, 0]) (counted_of_mem omronNjnx_mem) rfl rfl
      (by decide) (fun _ => rfl) [] .first (by decide) ⟨turns, 1, [], _, hok⟩
  have hcount : signedCount omronNjnxTagByteOrder [255, 255, 65, 66, 0] 0 = -1 := by decide
  rw [Sound, hcount] at hsound
  exact absurd hsound.2.1 (by decide)

end Plctagt.Tag
