import Plctagt.Tag.NumericRoundTrip

/-! # The bytes an element of a numeric tag takes

The loops of `plctags.h` give `i * elem_size` to the accessors. For a number it is a byte offset, and
nothing compares `elem_size` with the width of `T`: a wider `T` takes in the elements that follow, and
the last value is the sentinel. For a `bool` the accessor counts bits, so from the second element on
it is at a byte before the element.
-/
namespace Plctagt.Tag
open Effects Bytes Decimal
set_option autoImplicit false

variable {w : World} {tag : ℤ} {name : Text} {p : PlcTag} {d : Device}

/-! ## Numbers -/

/-- `v` is the `T` in bytes that all belong to element `i`. -/
def Inside (b : TagByteOrder) (t : NumType) (elemSize : ℕ) (memory : List UInt8) (i : ℕ)
    (v : t.Word) : Prop :=
  ∃ k, i * elemSize ≤ k ∧ k + t.bytes ≤ (i + 1) * elemSize ∧
    v = BitVec.ofNat _ (load memory k (t.order b))

theorem getElem?_seenElems (b : TagByteOrder) (t : ElemType) (elemSize : ℕ) (data : List UInt8)
    (n i : ℕ) : (seenElems b t elemSize data 0 n)[i]? =
      if i < n then some (t.seen b data (i * elemSize)) else none := by
  rw [seenElems, List.getElem?_map]
  split_ifs with hi
  · rw [List.getElem?_range' hi]
    simp
  · rw [List.getElem?_eq_none (by simpa using hi)]
    rfl

/-- An element that is as wide as `T` holds what is read at its offset. -/
theorem inside_seen {b : TagByteOrder} {t : NumType} {elemSize elemCount : ℕ}
    {memory : List UInt8} (hlen : memory.length = elemSize * elemCount) (hle : t.bytes ≤ elemSize)
    {i : ℕ} (hi : i < elemCount) :
    Inside b t elemSize memory i ((ElemType.num t).seen b memory (i * elemSize)) := by
  have hend : (i + 1) * elemSize ≤ memory.length := by
    rw [hlen, Nat.mul_comm elemSize]
    exact Nat.mul_le_mul_right _ hi
  have hnext : (i + 1) * elemSize = i * elemSize + elemSize := Nat.succ_mul i elemSize
  have hfit : (ElemType.num t).Fits memory.length (i * elemSize) := by
    show i * elemSize + t.bytes ≤ memory.length
    omega
  exact ⟨i * elemSize, le_refl _, by omega, if_pos hfit⟩

/-- A read that returns 0 had a device that answered, and elements to read. -/
theorem eval_readNumericTag_ok {t : ElemType} {elemSize elemCount : ℕ}
    (h : w.Connected tag name p d) (hes : 1 ≤ elemSize) (hsize : d.elemSize = elemSize)
    (hcount : d.elemCount = elemCount) {es es' : Text} {prior values : List t.Val} {timeOutMs : ℤ}
    (hr : (eval World.serve (readNumericTag t es tag prior timeOutMs) w).1 =
      .ok (0, es', values)) : d.readStatus = plctagStatusOk ∧ 1 ≤ elemCount := by
  by_cases hread : d.readStatus = plctagStatusOk
  · refine ⟨hread, Nat.one_le_iff_ne_zero.mpr fun hzero => ?_⟩
    have hc := h.setData d.memory
    have hsizes : eval World.serve (tagGetSizes es tag) (w.setData tag name p d.memory) =
        (.ok (-1002, 0, 0, text "ERROR: elem_count is 0.\n"), w.setData tag name p d.memory) := by
      have hne : d.elemSize ≠ 0 := by omega
      have hz : d.elemCount = 0 := by omega
      simp only [tagGetSizes, eval_perform_bind, World.serve, World.getIntAttribute_connected hc,
        hne, hz, if_false, if_true, eval_pure]
    simp only [readNumericTag, eval_perform_bind, World.serve, World.read_connected h hread, ne_eq,
      not_true_eq_false, if_false] at hr
    rw [eval_bind_ok _ _ hsizes] at hr
    simp at hr
  · have hstatus : w.read tag = (d.readStatus, w) := by
      simp [World.read, h.session, h.device, hread]
    simp only [readNumericTag, eval_perform_bind, World.serve, hstatus, ne_eq, hread,
      not_false_eq_true, if_true, eval_pure, Except.ok.injEq, Prod.mk.injEq, false_and] at hr

/-- For every numeric `T` and every tag whose buffer is its elements: a read that returns 0 has
appended one value for each element, decoded from the element's own bytes, if and only if `T` is no
wider than an element (or there is no such read). -/
theorem readNumericTag_inside_iff (t : NumType) (elemSize elemCount : ℕ)
    (h : w.Connected tag name p d) (hb : p.isBit = false) (hes : 1 ≤ elemSize)
    (hlen : d.memory.length = elemSize * elemCount) (hsize : d.elemSize = elemSize)
    (hcount : d.elemCount = elemCount) (es : Text) (prior : List t.Word) (timeOutMs : ℤ) :
    (∀ es' values,
      (eval World.serve (readNumericTag (.num t) es tag prior timeOutMs) w).1 =
        .ok (0, es', values) →
      ∃ vs, values = prior ++ vs ∧ vs.length = elemCount ∧
        ∀ i v, vs[i]? = some v → Inside p.byteOrder t elemSize d.memory i v) ↔
    (d.readStatus = plctagStatusOk → elemCount ≠ 0 → t.bytes ≤ elemSize) := by
  constructor
  · intro hall hread hec
    have hrun := eval_readNumericTag (.num t) elemSize elemCount h hb hes (by omega) hsize hcount
      hread es prior timeOutMs
    obtain ⟨vs, -, hvs, hin⟩ := hall es _ (congrArg Prod.fst hrun)
    obtain ⟨k, -, hend, -⟩ := hin 0 _ (List.getElem?_eq_getElem (by omega))
    omega
  · intro hwide es' values hr
    obtain ⟨hread, hec⟩ := eval_readNumericTag_ok h hes hsize hcount hr
    have hle := hwide hread (by omega)
    have hrun := eval_readNumericTag (.num t) elemSize elemCount h hb hes hec hsize hcount hread es
      prior timeOutMs
    simp only [hrun, Except.ok.injEq, Prod.mk.injEq] at hr
    obtain ⟨-, -, rfl⟩ := hr
    refine ⟨seenElems p.byteOrder (.num t) elemSize d.memory 0 elemCount, rfl, ?_, ?_⟩
    · rw [seenElems, List.length_map, List.length_range']
    · intro i v hv
      rw [getElem?_seenElems] at hv
      split_ifs at hv with hi
      obtain rfl := Option.some.inj hv
      exact inside_seen hlen hle hi

/-- Four bytes as elements of `elemSize` bytes. -/
def fourBytes (elemSize elemCount : ℤ) : PlcTag × Device :=
  ({ data := none
     isBit := false
     bit := 0
     allowFieldResize := false
     byteOrder :=
       { strIsDefined := false, strIsCounted := false, strIsFixedLength := false
         strIsZeroTerminated := false, strIsByteSwapped := false, strCountWordBytes := 0
         strMaxCapacity := 0, strTotalLength := 0, strPadBytes := 0
         int16Order := .little 2, int32Order := .little 4, int64Order := .little 8
         float32Order := .little 4, float64Order := .little 8 } },
    { memory := [1, 0, 2, 0], elemSize := elemSize, elemCount := elemCount
      readStatus := 0, writeStatus := 0 })

theorem readNumericTag_inside_int16 :
    let w := World.single 2 [] (fourBytes 2 2).1 (fourBytes 2 2).2
    (eval World.serve (readNumericTag (.num .int16) [] 2 [] 5000) w).1 = .ok (0, [], [1, 2]) ∧
    ∃ vs : List (BitVec 16), [1, 2] = [] ++ vs ∧ vs.length = 2 ∧ ∀ i v, vs[i]? = some v →
      Inside (fourBytes 2 2).1.byteOrder .int16 2 [1, 0, 2, 0] i v := by
  intro w
  have h : w.Connected 2 [] (fourBytes 2 2).1 (fourBytes 2 2).2 := World.single_connected
  have hseen : seenElems (fourBytes 2 2).1.byteOrder (.num .int16) 2 [1, 0, 2, 0] 0 2 =
      ([1, 2] : List (ElemType.num .int16).Val) := by decide
  have hrun : (eval World.serve (readNumericTag (.num .int16) [] 2 [] 5000) w).1 =
      .ok (0, [], [1, 2]) := by
    rw [eval_readNumericTag (.num .int16) 2 2 h rfl (by decide) (by decide) rfl rfl rfl]
    exact congrArg (fun vs => Except.ok (0, [], [] ++ vs)) hseen
  exact ⟨hrun, (readNumericTag_inside_iff .int16 2 2 h rfl (by decide) rfl rfl rfl [] [] 5000).mpr
    (fun _ _ => by decide) [] [1, 2] hrun⟩

/-- Two elements of two bytes, read as `int32_t`: the first value takes in both, and the second is
the sentinel. -/
theorem readNumericTag_int32_wide :
    let w := World.single 2 [] (fourBytes 2 2).1 (fourBytes 2 2).2
    (eval World.serve (readNumericTag (.num .int32) [] 2 [] 5000) w).1 =
      .ok (0, [], [0x20001, NumType.sentinel .int32]) ∧
    ¬ ∃ vs : List (BitVec 32), [0x20001, NumType.sentinel .int32] = [] ++ vs ∧ vs.length = 2 ∧
      ∀ i v, vs[i]? = some v →
        Inside (fourBytes 2 2).1.byteOrder .int32 2 [1, 0, 2, 0] i v := by
  intro w
  have h : w.Connected 2 [] (fourBytes 2 2).1 (fourBytes 2 2).2 := World.single_connected
  have hseen : seenElems (fourBytes 2 2).1.byteOrder (.num .int32) 2 [1, 0, 2, 0] 0 2 =
      ([0x20001, NumType.sentinel .int32] : List (ElemType.num .int32).Val) := by decide
  refine ⟨?_, ?_⟩
  · rw [eval_readNumericTag (.num .int32) 2 2 h rfl (by decide) (by decide) rfl rfl rfl]
    exact congrArg (fun vs => Except.ok (0, [], [] ++ vs)) hseen
  rintro ⟨vs, rfl, -, hin⟩
  obtain ⟨k, -, hend, -⟩ := hin 0 _ rfl
  have hbytes : NumType.int32.bytes = 4 := rfl
  omega

/-! ## Bits -/

/-- The buffer behind the handle. -/
def World.buffer (w : World) (tag : ℤ) : List UInt8 :=
  ((w.sessions tag).bind fun s => s.2.data).getD []

theorem World.buffer_connected {data : List UInt8} (h : w.Connected tag name p d)
    (hd : p.data = some data) : w.buffer tag = data := by
  simp [World.buffer, h.session, hd]

/-- The buffer after the first `n` turns of the write loop. -/
def bufferAfter (w : World) (tag : ℤ) (elemSize : ℕ) (values : List Bool) (n : ℕ) : List UInt8 :=
  (eval World.serve (writeElems .bool tag elemSize values n 0) w).2.buffer tag

def InElement (elemSize i bit : ℕ) : Prop := i * elemSize ≤ bit / 8 ∧ bit / 8 < (i + 1) * elemSize

/-- Whatever is written, turn `i` changes bits of element `i` only. -/
def WritesInside (w : World) (tag : ℤ) (elemSize elemCount : ℕ) : Prop :=
  ∀ values : List Bool, values.length = elemCount → ∀ i < elemCount, ∀ bit,
    bitAt (bufferAfter w tag elemSize values (i + 1)) bit ≠
      bitAt (bufferAfter w tag elemSize values i) bit → InElement elemSize i bit

/-- The values a read appends when the device holds `memory`. -/
def valuesRead (w : World) (tag : ℤ) (name : Text) (d : Device) (prior : List Bool)
    (memory : List UInt8) : List Bool :=
  match (eval World.serve (readNumericTag .bool [] tag prior dataTimeout)
    (w.setDevice name { d with memory := memory })).1 with
  | .ok (_, _, values) => values.drop prior.length
  | .error _ => []

/-- Two memories that agree on element `i` are read alike there. -/
def ReadsInside (w : World) (tag : ℤ) (name : Text) (d : Device) (elemSize elemCount size : ℕ) :
    Prop :=
  ∀ (prior : List Bool) (memory memory' : List UInt8),
    memory.length = size → memory'.length = size → ∀ i < elemCount,
    (∀ k, i * elemSize ≤ k → k < (i + 1) * elemSize → memory.getD k 0 = memory'.getD k 0) →
    (valuesRead w tag name d prior memory)[i]? = (valuesRead w tag name d prior memory')[i]?

section Bits
variable {data : List UInt8}

theorem putElems_of_out (b : TagByteOrder) (elemSize : ℕ) (data : List UInt8) (i : ℕ)
    (vs : List Bool) (hout : data.length ≤ i * elemSize / 8) :
    putElems b .bool elemSize data i vs = data := by
  induction vs generalizing i with
  | nil => rfl
  | cons v vs ih =>
    have hput : ElemType.put b .bool data (i * elemSize) v = data := List.set_eq_of_length_le hout
    rw [putElems, hput, ih]
    have : i * elemSize ≤ (i + 1) * elemSize := Nat.mul_le_mul_right _ (Nat.le_succ i)
    omega

/-- A setter that refuses a bit stops the loop, and no later bit would have fitted. -/
theorem eval_writeElems_bool (elemSize : ℕ) (values : List Bool) (n i : ℕ)
    (h : w.Connected tag name p d) (hd : p.data = some data) (hb : p.isBit = false)
    (hlen : i + n ≤ values.length) :
    (eval World.serve (writeElems .bool tag elemSize values n i) w).2 =
      w.setData tag name p (putElems p.byteOrder .bool elemSize data i ((values.drop i).take n)) := by
  induction n generalizing i w p data with
  | zero =>
    rw [List.take_zero, putElems, World.setData, ← hd, World.setSession_self h]
    rfl
  | succ n ih =>
    have hi : i < values.length := by omega
    have hdrop : values.drop i = values[i] :: values.drop (i + 1) := List.drop_eq_getElem_cons hi
    have e : (i : ℤ) * elemSize = ((i * elemSize : ℕ) : ℤ) := by push_cast; rfl
    have helem := eval_writeElem .bool h hd hb (i * elemSize) values[i]
    rw [writeElems, List.getElem?_eq_getElem hi, e, hdrop, List.take_succ_cons]
    by_cases hfit : ElemType.bool.Fits data.length (i * elemSize)
    · rw [if_pos hfit] at helem
      simp only
      rw [eval_bind_ok _ _ helem, if_neg (by simp), ih (i + 1) (h.setData _) rfl hb (by omega)]
      simp only [World.setData, World.setSession_setSession, putElems]
    · rw [if_neg hfit] at helem
      have hout : ¬ i * elemSize / 8 < data.length := hfit
      simp only
      rw [eval_bind_ok _ _ helem, if_pos (by decide),
        putElems_of_out p.byteOrder elemSize data i _ (by omega), World.setData, ← hd,
        World.setSession_self h]
      rfl

theorem putElems_append (b : TagByteOrder) (t : ElemType) (elemSize : ℕ) (data : List UInt8) (i : ℕ)
    (vs : List t.Val) (v : t.Val) :
    putElems b t elemSize data i (vs ++ [v]) =
      t.put b (putElems b t elemSize data i vs) ((i + vs.length) * elemSize) v := by
  induction vs generalizing data i with
  | nil => rfl
  | cons u vs ih =>
    rw [List.cons_append, putElems, ih, putElems, List.length_cons]
    have e : i + 1 + vs.length = i + (vs.length + 1) := by omega
    rw [e]

theorem bufferAfter_eq (elemSize : ℕ) (values : List Bool) (n : ℕ) (h : w.Connected tag name p d)
    (hd : p.data = some data) (hb : p.isBit = false) (hlen : n ≤ values.length) :
    bufferAfter w tag elemSize values n =
      putElems p.byteOrder .bool elemSize data 0 (values.take n) := by
  rw [bufferAfter, eval_writeElems_bool elemSize values n 0 h hd hb (by omega), List.drop_zero]
  exact World.buffer_connected (h.setData _) rfl

theorem bufferAfter_succ (elemSize : ℕ) (values : List Bool) (i : ℕ) (h : w.Connected tag name p d)
    (hd : p.data = some data) (hb : p.isBit = false) (hi : i < values.length) :
    bufferAfter w tag elemSize values (i + 1) =
      setBit (bufferAfter w tag elemSize values i) (i * elemSize) values[i] := by
  rw [bufferAfter_eq elemSize values (i + 1) h hd hb hi,
    bufferAfter_eq elemSize values i h hd hb hi.le, List.take_succ_eq_append_getElem hi,
    putElems_append, List.length_take_of_le hi.le, Nat.zero_add]
  rfl

/-- Turn `i` can only change bit `i * elem_size` of the buffer, where the buffer has it. -/
theorem eq_of_bufferAfter_ne (elemSize : ℕ) (values : List Bool) (i : ℕ)
    (h : w.Connected tag name p d) (hd : p.data = some data) (hb : p.isBit = false)
    (hi : i < values.length) {bit : ℕ}
    (hne : bitAt (bufferAfter w tag elemSize values (i + 1)) bit ≠
      bitAt (bufferAfter w tag elemSize values i) bit) :
    bit = i * elemSize ∧ bit / 8 < data.length := by
  rw [bufferAfter_succ elemSize values i h hd hb hi] at hne
  have hbit : bit = i * elemSize := by
    by_contra hother
    exact hne (bitAt_setBit_ne _ _ _ _ hother)
  refine ⟨hbit, not_le.mp fun hout => hne ?_⟩
  have hlen : (bufferAfter w tag elemSize values i).length = data.length := by
    rw [bufferAfter_eq elemSize values i h hd hb hi.le, putElems_length]
  rw [setBit, List.set_eq_of_length_le (by rw [hlen, ← hbit]; exact hout)]

theorem inElement_iff {elemSize i : ℕ} (hes : 1 ≤ elemSize) :
    InElement elemSize i (i * elemSize) ↔ i = 0 := by
  rw [InElement]
  constructor
  · rintro ⟨hlo, -⟩
    by_contra hi
    have : 1 ≤ i * elemSize := Nat.mul_pos (Nat.pos_of_ne_zero hi) hes
    omega
  · rintro rfl
    omega

theorem writesInside_iff (elemSize elemCount : ℕ) (h : w.Connected tag name p d)
    (hd : p.data = some data) (hb : p.isBit = false) (hes : 1 ≤ elemSize) (hec : 1 ≤ elemCount) :
    WritesInside w tag elemSize elemCount ↔ elemCount = 1 ∨ data.length ≤ elemSize / 8 := by
  constructor
  · intro hall
    by_contra hcond
    rw [not_or, not_le] at hcond
    -- the second element is written over with the other value of its bit
    obtain ⟨flipped, hlen, hflipped⟩ : ∃ values : List Bool, values.length = elemCount ∧
        ∀ (i : ℕ) (hi : i < values.length), values[i] = !bitAt data elemSize :=
      ⟨.replicate elemCount _, List.length_replicate, fun _ _ => List.getElem_replicate _⟩
    have hafter : bitAt (bufferAfter w tag elemSize flipped 1) elemSize = bitAt data elemSize := by
      by_contra hne
      have hstart := bufferAfter_eq elemSize flipped 0 h hd hb (Nat.zero_le _)
      rw [List.take_zero, putElems] at hstart
      rw [← hstart] at hne
      have hbit := (eq_of_bufferAfter_ne elemSize flipped 0 h hd hb (by omega) hne).1
      omega
    have hwritten : bitAt (bufferAfter w tag elemSize flipped 2) elemSize =
        !bitAt data elemSize := by
      rw [bufferAfter_succ elemSize flipped 1 h hd hb (by omega), Nat.one_mul, hflipped]
      refine bitAt_setBit_self _ _ _ ?_
      rw [bufferAfter_eq elemSize flipped 1 h hd hb (by omega), putElems_length]
      exact hcond.2
    have hin := hall flipped hlen 1 (by omega) elemSize (by
      rw [hafter, hwritten]
      exact Bool.not_ne_self _)
    rw [← Nat.one_mul elemSize] at hin
    exact absurd ((inElement_iff hes).mp (by simpa using hin)) one_ne_zero
  · intro hcond values hlen i hi bit hne
    obtain ⟨rfl, hfit⟩ := eq_of_bufferAfter_ne elemSize values i h hd hb (by omega) hne
    have hi : i = 0 := by
      rcases hcond with hone | hshort
      · omega
      · by_contra hi
        have : 1 * elemSize ≤ i * elemSize := Nat.mul_le_mul_right _ (Nat.pos_of_ne_zero hi)
        omega
    exact (inElement_iff hes).mpr hi

theorem valuesRead_eq (elemSize elemCount : ℕ) (h : w.Connected tag name p d)
    (hb : p.isBit = false) (hes : 1 ≤ elemSize) (hec : 1 ≤ elemCount)
    (hsize : d.elemSize = elemSize) (hcount : d.elemCount = elemCount) (prior : List Bool)
    (memory : List UInt8) :
    valuesRead w tag name d prior memory =
      if d.readStatus = plctagStatusOk then seenElems p.byteOrder .bool elemSize memory 0 elemCount
      else [] := by
  have hc := h.setDevice { d with memory := memory }
  by_cases hread : d.readStatus = plctagStatusOk
  · have hrun := eval_readNumericTag .bool elemSize elemCount hc hb hes hec hsize hcount hread []
      prior dataTimeout
    rw [valuesRead, hrun, if_pos hread]
    exact List.drop_left
  · have hstatus : (w.setDevice name { d with memory := memory }).read tag =
        (d.readStatus, w.setDevice name { d with memory := memory }) := by
      simp [World.read, hc.session, hc.device, hread]
    have hrun : (eval World.serve (readNumericTag .bool [] tag prior dataTimeout)
        (w.setDevice name { d with memory := memory })).1 = .ok (d.readStatus,
          codeError "ERROR: Unable to read the data! Got error code" d.readStatus, prior) := by
      simp only [readNumericTag, eval_perform_bind, World.serve, hstatus, ne_eq, hread,
        not_false_eq_true, if_true, eval_pure]
    rw [valuesRead, hrun, if_neg hread]
    exact List.drop_length

theorem readsInside_of_cond (elemSize elemCount size : ℕ) (h : w.Connected tag name p d)
    (hb : p.isBit = false) (hes : 1 ≤ elemSize) (hec : 1 ≤ elemCount)
    (hsize : d.elemSize = elemSize) (hcount : d.elemCount = elemCount)
    (hcond : elemCount = 1 ∨ size ≤ elemSize / 8) :
    ReadsInside w tag name d elemSize elemCount size := by
  intro prior memory memory' hm hm' i hi hagree
  rw [valuesRead_eq elemSize elemCount h hb hes hec hsize hcount,
    valuesRead_eq elemSize elemCount h hb hes hec hsize hcount]
  split_ifs
  · rw [getElem?_seenElems, getElem?_seenElems, if_pos hi, if_pos hi, ElemType.seen, ElemType.seen,
      hm, hm']
    by_cases hzero : i = 0
    · subst hzero
      have hbit : bitAt memory 0 = bitAt memory' 0 := by
        rw [bitAt, bitAt, hagree 0 (by omega) (by omega)]
      rw [Nat.zero_mul, ElemType.get, ElemType.get, hbit]
    · have hstep : 1 * elemSize ≤ i * elemSize := Nat.mul_le_mul_right _ (Nat.pos_of_ne_zero hzero)
      have hout : ¬ ElemType.bool.Fits size (i * elemSize) := by
        show ¬ i * elemSize / 8 < size
        omega
      rw [if_neg hout, if_neg hout]
  · rfl

/-- What a write leaves in the buffer is what its turns leave there. -/
theorem buffer_writeNumericTag (elemSize elemCount : ℕ) (h : w.Connected tag name p d)
    (hd : p.data = some data) (hb : p.isBit = false) (hes : 1 ≤ elemSize) (hec : 1 ≤ elemCount)
    (hsize : d.elemSize = elemSize) (hcount : d.elemCount = elemCount) (es : Text)
    (values : List Bool) (hlen : values.length = elemCount) (timeOutMs : ℤ) :
    (eval World.serve (writeNumericTag .bool es tag values timeOutMs) w).2.buffer tag =
      bufferAfter w tag elemSize values elemCount := by
  have hloop := eval_writeElems_bool elemSize values elemCount 0 h hd hb (by omega)
  rw [writeNumericTag, eval_bind_ok _ _ (eval_tagGetSizes h (by omega) (by omega) es)]
  simp only [ne_eq, not_true_eq_false, if_false, hsize, hcount, Int.toNat_natCast, bufferAfter]
  rcases hw : eval World.serve (writeElems .bool tag elemSize values elemCount 0) w with ⟨o, w₁⟩
  rw [hw] at hloop
  obtain rfl : w₁ = w.setData tag name p _ := hloop
  cases o with
  | error e => rw [eval_bind_error _ _ hw]
  | ok rc =>
    rw [eval_bind_ok _ _ hw]
    by_cases hrc : rc = plctagStatusOk
    · -- sending the buffer leaves it as it is
      simp only [hrc, not_true_eq_false, if_false, eval_perform_bind, World.serve,
        World.write_connected (h.setData _)]
      split_ifs <;> rfl
    · simp only [hrc, not_false_eq_true, if_true, eval_pure]

/-- For every tag that is no single bit and `bool`: each turn of the write loop keeps to the bits of
its element, and each value that is read depends on its element only, if and only if there is one
element (or the buffer ends before bit `elem_size`, and the setter refuses the others). -/
theorem bool_elements_iff (elemSize elemCount : ℕ) (h : w.Connected tag name p d)
    (hd : p.data = some data) (hb : p.isBit = false) (hes : 1 ≤ elemSize) (hec : 1 ≤ elemCount)
    (hsize : d.elemSize = elemSize) (hcount : d.elemCount = elemCount) :
    (∀ es values timeOutMs, values.length = elemCount →
      (eval World.serve (writeNumericTag .bool es tag values timeOutMs) w).2.buffer tag =
        bufferAfter w tag elemSize values elemCount) ∧
    (WritesInside w tag elemSize elemCount ∧
        ReadsInside w tag name d elemSize elemCount data.length ↔
      elemCount = 1 ∨ data.length ≤ elemSize / 8) := by
  have hwrites := writesInside_iff elemSize elemCount h hd hb hes hec
  refine ⟨fun es values timeOutMs hlen => ?_, fun hall => hwrites.mp hall.1, fun hcond => ?_⟩
  · exact buffer_writeNumericTag elemSize elemCount h hd hb hes hec hsize hcount es values hlen _
  · exact ⟨hwrites.mpr hcond,
      readsInside_of_cond elemSize elemCount _ h hb hes hec hsize hcount hcond⟩

end Bits

theorem bool_elements_single :
    let p := { (fourBytes 4 1).1 with data := some [1, 0, 2, 0] }
    let w := World.single 3 [] p (fourBytes 4 1).2
    WritesInside w 3 4 1 ∧ ReadsInside w 3 [] (fourBytes 4 1).2 4 1 4 := by
  intro p w
  have h : w.Connected 3 [] p (fourBytes 4 1).2 := World.single_connected
  exact (bool_elements_iff 4 1 h rfl rfl (by decide) (by decide) rfl rfl).2.mpr (.inl rfl)

/-- Two elements of two bytes: the second turn sets bit 2, which is in the first byte. -/
theorem bool_elements_pair :
    let p := { (fourBytes 2 2).1 with data := some [1, 0, 2, 0] }
    let w := World.single 3 [] p (fourBytes 2 2).2
    bufferAfter w 3 2 [true, true] 1 = [1, 0, 2, 0] ∧
    bufferAfter w 3 2 [true, true] 2 = [5, 0, 2, 0] ∧
    ¬ (WritesInside w 3 2 2 ∧ ReadsInside w 3 [] (fourBytes 2 2).2 2 2 4) := by
  intro p w
  have h : w.Connected 3 [] p (fourBytes 2 2).2 := World.single_connected
  refine ⟨?_, ?_, fun hall => ?_⟩
  · rw [bufferAfter_eq 2 [true, true] 1 h rfl rfl (by decide)]
    decide
  · rw [bufferAfter_eq 2 [true, true] 2 h rfl rfl (by decide)]
    decide
  · exact absurd ((writesInside_iff 2 2 h rfl rfl (by decide) (by decide)).mp hall.1) (by decide)

end Plctagt.Tag
