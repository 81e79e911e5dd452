import Plctagt.Tag.Numeric

/-! # What a successful numeric write leaves for a read

Nothing compares `elem_size` with the width of `T`. The stores of consecutive elements may overlap,
but then the last one runs past the buffer and its status ends the write; so a write that returns 0
has stored its values apart from each other, and reading the same buffer gives them back.

`ElemType.put`/`get` are the store and load of one element, `putElems` those of the whole loop.
-/
namespace Plctagt.Tag
open Effects Bytes Decimal
set_option autoImplicit false

/-! ## One element -/

namespace ElemType

/-- An element at this offset lies inside a buffer of this size. A `bool` is addressed by bits. -/
def Fits : ElemType → (size offset : ℕ) → Prop
  | .num t, size, offset => offset + t.bytes ≤ size
  | .bool, size, offset => offset / 8 < size

instance (t : ElemType) (size offset : ℕ) : Decidable (t.Fits size offset) := by
  cases t
  · exact inferInstanceAs (Decidable (_ ≤ _))
  · exact inferInstanceAs (Decidable (_ < _))

def put (b : TagByteOrder) : (t : ElemType) → List UInt8 → ℕ → t.Val → List UInt8
  | .num t, data, offset, val => store data offset (t.order b) val.toNat
  | .bool, data, offset, val => Bytes.setBit data offset val

def get (b : TagByteOrder) : (t : ElemType) → List UInt8 → ℕ → t.Val
  | .num t, data, offset => BitVec.ofNat _ (load data offset (t.order b))
  | .bool, data, offset => bitAt data offset

/-- What comes back for an offset that is out of bounds: the status code is a true `bool`. -/
def outOfBounds : (t : ElemType) → t.Val
  | .num t => t.sentinel
  | .bool => true

/-- What `readElem` returns for any offset. -/
def seen (b : TagByteOrder) (t : ElemType) (data : List UInt8) (offset : ℕ) : t.Val :=
  if t.Fits data.length offset then t.get b data offset else t.outOfBounds

/-- The cells of the element at `i` end before those of the element at `j` begin. -/
def Before : ElemType → (i j : ℕ) → Prop
  | .num t, i, j => i + t.bytes ≤ j
  | .bool, i, j => i < j

variable (b : TagByteOrder) (t : ElemType) (data : List UInt8) (offset : ℕ)

@[simp] theorem put_length (val : t.Val) : (put b t data offset val).length = data.length := by
  cases t
  · exact store_length _ _ _ _
  · exact setBit_length _ _ _

theorem get_put_self (val : t.Val) (h : t.Fits data.length offset) :
    get b t (put b t data offset val) offset = val := by
  cases t with
  | num t =>
    simp only [get, put]
    rw [load_store _ _ _ _ h]
    apply BitVec.eq_of_toNat_eq
    have e : 256 ^ t.bytes = 2 ^ (8 * t.bytes) := by
      rw [pow_mul]
      rfl
    rw [BitVec.toNat_ofNat, e, Nat.mod_mod, Nat.mod_eq_of_lt val.isLt]
  | bool => exact bitAt_setBit_self _ _ _ h

theorem get_put_apart (offset' : ℕ) (val : t.Val)
    (h : t.Before offset offset' ∨ t.Before offset' offset) :
    get b t (put b t data offset val) offset' = get b t data offset' := by
  cases t with
  | num t =>
    simp only [get, put]
    rw [load_store_disjoint _ _ _ _ _ _ h.symm]
  | bool =>
    refine bitAt_setBit_ne _ _ _ _ ?_
    rcases h with h | h
    · exact Nat.ne_of_gt h
    · exact Nat.ne_of_lt h

end ElemType

/-! ## The elements of a buffer -/

section Elems
variable (b : TagByteOrder) (t : ElemType) (elemSize : ℕ)

/-- The stores of the write loop, from element `i` on. -/
def putElems (data : List UInt8) : ℕ → List t.Val → List UInt8
  | _, [] => data
  | i, v :: vs => putElems (t.put b data (i * elemSize) v) (i + 1) vs

/-- The loads of the read loop: `n` elements from element `i` on. -/
def getElems (data : List UInt8) (i n : ℕ) : List t.Val :=
  (List.range' i n).map fun j => t.get b data (j * elemSize)

/-- What the read loop sees, whether it is in bounds or not. -/
def seenElems (data : List UInt8) (i n : ℕ) : List t.Val :=
  (List.range' i n).map fun j => t.seen b data (j * elemSize)

theorem seenElems_of_fits (data : List UInt8) (i n : ℕ)
    (hfit : ∀ j, i ≤ j → j < i + n → t.Fits data.length (j * elemSize)) :
    seenElems b t elemSize data i n = getElems b t elemSize data i n := by
  refine List.map_congr_left fun j hj => ?_
  rw [List.mem_range'_1] at hj
  exact if_pos (hfit j hj.1 hj.2)

@[simp] theorem putElems_length (data : List UInt8) (i : ℕ) (vs : List t.Val) :
    (putElems b t elemSize data i vs).length = data.length := by
  induction vs generalizing data i with
  | nil => rfl
  | cons v vs ih => rw [putElems, ih, ElemType.put_length]

theorem get_putElems_before (data : List UInt8) (i j : ℕ) (vs : List t.Val) (hji : j < i)
    (hap : ∀ j k, j < k → t.Before (j * elemSize) (k * elemSize)) :
    t.get b (putElems b t elemSize data i vs) (j * elemSize) = t.get b data (j * elemSize) := by
  induction vs generalizing data i with
  | nil => rfl
  | cons v vs ih =>
    rw [putElems, ih _ _ (Nat.lt_succ_of_lt hji)]
    exact t.get_put_apart b data _ _ v (.inr (hap j i hji))

theorem getElems_putElems (data : List UInt8) (i : ℕ) (vs : List t.Val)
    (hfit : ∀ j, i ≤ j → j < i + vs.length → t.Fits data.length (j * elemSize))
    (hap : ∀ j k, j < k → t.Before (j * elemSize) (k * elemSize)) :
    getElems b t elemSize (putElems b t elemSize data i vs) i vs.length = vs := by
  induction vs generalizing data i with
  | nil => rfl
  | cons v vs ih =>
    have hhead : t.get b (putElems b t elemSize data i (v :: vs)) (i * elemSize) = v := by
      rw [putElems, get_putElems_before b t elemSize _ _ _ _ (Nat.lt_succ_self i) hap]
      exact t.get_put_self b data _ v (hfit i le_rfl (by rw [List.length_cons]; omega))
    have htail := ih (t.put b data (i * elemSize) v) (i + 1) (fun j h1 h2 => by
      rw [ElemType.put_length]
      exact hfit j (by omega) (by rw [List.length_cons]; omega))
    rw [getElems, List.length_cons, List.range'_succ, List.map_cons, hhead]
    exact congrArg (v :: ·) htail

end Elems

/-! ## The loops against a connected tag -/

section World
variable {w : World} {tag : ℤ} {name : Text} {p : PlcTag} {d : Device} {data : List UInt8}

theorem eval_readElem (t : ElemType) (h : w.Connected tag name p d) (hd : p.data = some data)
    (hb : p.isBit = false) (offset : ℕ) :
    eval World.serve (readElem t tag offset) w = (.ok (t.seen p.byteOrder data offset), w) := by
  cases t with
  | num t =>
    show (Except.ok (World.look w tag _ _).1, (World.look w tag _ _).2) = _
    rw [World.look_connected h, plcTagGet_eq p t offset hb, getWord_data p data t offset hd hb]
    by_cases hfit : (ElemType.num t).Fits data.length offset
    · have hin : offset + t.bytes ≤ data.length := hfit
      rw [if_pos (by omega), ElemType.seen, if_pos hfit]
      rfl
    · have hout : ¬ offset + t.bytes ≤ data.length := hfit
      rw [if_neg (by omega), ElemType.seen, if_neg hfit]
      rfl
  | bool =>
    simp only [readElem, eval_perform_bind, World.serve, eval_pure]
    simp only [World.look_connected h, plcTagGetBit_data p data offset hd hb]
    by_cases hfit : ElemType.bool.Fits data.length offset
    · have hin : offset / 8 < data.length := hfit
      have hstatus : ∀ x : Bool, decide ((x.toNat : ℤ) ≠ 0) = x := by decide
      rw [if_pos (by omega), ElemType.seen, if_pos hfit, hstatus]
      rfl
    · have hout : ¬ offset / 8 < data.length := hfit
      rw [if_neg (by omega), ElemType.seen, if_neg hfit]
      rfl

theorem eval_writeElem (t : ElemType) (h : w.Connected tag name p d) (hd : p.data = some data)
    (hb : p.isBit = false) (offset : ℕ) (val : t.Val) :
    eval World.serve (writeElem t tag offset val) w =
      if t.Fits data.length offset then
        (.ok plctagStatusOk, w.setData tag name p (t.put p.byteOrder data offset val))
      else (.ok plctagErrOutOfBounds, w) := by
  cases t with
  | num t =>
    show (Except.ok (World.modify w tag _ _).1, (World.modify w tag _ _).2) = _
    rw [World.modify_connected h, plcTagSet_eq p data t offset val hd hb,
      setWord_data p data t offset val hd hb]
    by_cases hfit : (ElemType.num t).Fits data.length offset
    · have hin : (0 : ℤ) ≤ offset ∧ (offset : ℤ) + t.bytes ≤ data.length := by
        have : offset + t.bytes ≤ data.length := hfit
        omega
      rw [if_pos hin, if_pos hfit]
      rfl
    · have hout : ¬ ((0 : ℤ) ≤ offset ∧ (offset : ℤ) + t.bytes ≤ data.length) := by
        have : ¬ offset + t.bytes ≤ data.length := hfit
        omega
      rw [if_neg hout, if_neg hfit, World.setSession_self h]
  | bool =>
    show (Except.ok (World.modify w tag _ _).1, (World.modify w tag _ _).2) = _
    rw [World.modify_connected h, plcTagSetBit_data p data offset val hd hb]
    by_cases hfit : ElemType.bool.Fits data.length offset
    · have hin : (0 : ℤ) ≤ offset ∧ (offset : ℤ) / 8 < data.length := by
        have : offset / 8 < data.length := hfit
        omega
      rw [if_pos hin, if_pos hfit]
      rfl
    · have hout : ¬ ((0 : ℤ) ≤ offset ∧ (offset : ℤ) / 8 < data.length) := by
        have : ¬ offset / 8 < data.length := hfit
        omega
      rw [if_neg hout, if_neg hfit, World.setSession_self h]

theorem eval_readElems (t : ElemType) (elemSize : ℕ) (h : w.Connected tag name p d)
    (hd : p.data = some data) (hb : p.isBit = false) (n i : ℕ) (values : List t.Val) :
    eval World.serve (readElems t tag elemSize n i values) w =
      (.ok (values ++ seenElems p.byteOrder t elemSize data i n), w) := by
  induction n generalizing i values with
  | zero => simp [readElems, seenElems]
  | succ n ih =>
    have e : (i : ℤ) * elemSize = ((i * elemSize : ℕ) : ℤ) := by push_cast; rfl
    rw [readElems, e, eval_bind_ok _ _ (eval_readElem t h hd hb (i * elemSize)), ih]
    simp only [seenElems, List.range'_succ, List.map_cons, List.append_assoc, List.singleton_append]

theorem eval_writeElems (t : ElemType) (elemSize : ℕ) (values : List t.Val) (n i : ℕ)
    (h : w.Connected tag name p d) (hd : p.data = some data) (hb : p.isBit = false) {w' : World}
    (hw : eval World.serve (writeElems t tag elemSize values n i) w = (.ok plctagStatusOk, w')) :
    ((values.drop i).take n).length = n ∧
    (∀ j, i ≤ j → j < i + n → t.Fits data.length (j * elemSize)) ∧
    w' = w.setData tag name p
      (putElems p.byteOrder t elemSize data i ((values.drop i).take n)) := by
  induction n generalizing i w p data with
  | zero =>
    refine ⟨by simp, fun j h1 h2 => absurd h2 (by omega), ?_⟩
    have hw' : w = w' := congrArg Prod.snd hw
    rw [← hw', List.take_zero, putElems, World.setData, ← hd, World.setSession_self h]
  | succ n ih =>
    rw [writeElems] at hw
    cases hv : values[i]? with
    | none => simp [hv] at hw
    | some v =>
      simp only [hv] at hw
      obtain ⟨hi, hvi⟩ := List.getElem?_eq_some_iff.mp hv
      have hdrop : values.drop i = v :: values.drop (i + 1) := by
        rw [List.drop_eq_getElem_cons hi, hvi]
      have e : (i : ℤ) * elemSize = ((i * elemSize : ℕ) : ℤ) := by push_cast; rfl
      have helem := eval_writeElem t h hd hb (i * elemSize) v
      by_cases hfit : t.Fits data.length (i * elemSize)
      · rw [if_pos hfit] at helem
        rw [e, eval_bind_ok _ _ helem, if_neg (by simp)] at hw
        obtain ⟨hlen, hfits, rfl⟩ := ih (i + 1)
          (h.setSession { p with data := some (t.put p.byteOrder data (i * elemSize) v) }) rfl hb hw
        simp only [ElemType.put_length] at hfits
        rw [hdrop, List.take_succ_cons]
        refine ⟨by rw [List.length_cons, hlen], fun j h1 h2 => ?_, ?_⟩
        · rcases Nat.eq_or_lt_of_le h1 with rfl | h1
          · exact hfit
          · exact hfits j h1 (by omega)
        · simp only [World.setData, World.setSession_setSession, putElems]
      · -- the store was refused, so the loop did not end well
        rw [if_neg hfit] at helem
        rw [e, eval_bind_ok _ _ helem, if_pos (by decide)] at hw
        exact absurd (congrArg Prod.fst hw) (by simp)

end World

/-! ## The round trip -/

/-- Elements that all fit, and the last of which ends with the buffer at the latest, do not
overlap. -/
theorem before_of_fits (t : ElemType) (elemSize elemCount : ℕ) (hes : 1 ≤ elemSize)
    (hec : 1 ≤ elemCount)
    (hfit : t.Fits (elemSize * elemCount) ((elemCount - 1) * elemSize)) (j k : ℕ) (hjk : j < k) :
    t.Before (j * elemSize) (k * elemSize) := by
  have hstep : j * elemSize + elemSize ≤ k * elemSize := by
    rw [← Nat.succ_mul]
    exact Nat.mul_le_mul_right _ hjk
  cases t with
  | num t =>
    have hlast : (elemCount - 1) * elemSize + t.bytes ≤ elemSize * elemCount := hfit
    have hsplit : elemSize * elemCount = (elemCount - 1) * elemSize + elemSize := by
      rw [← Nat.succ_mul, Nat.succ_eq_add_one, Nat.sub_add_cancel hec, Nat.mul_comm]
    show j * elemSize + t.bytes ≤ k * elemSize
    omega
  | bool =>
    show j * elemSize < k * elemSize
    omega

section RoundTrip
variable {w : World} {tag : ℤ} {name : Text} {p : PlcTag} {d : Device} {data : List UInt8}

theorem eval_tagGetSizes (h : w.Connected tag name p d) (hes : d.elemSize ≠ 0)
    (hec : d.elemCount ≠ 0) (es : Text) :
    eval World.serve (tagGetSizes es tag) w = (.ok (0, d.elemSize, d.elemCount, es), w) := by
  simp only [tagGetSizes, eval_perform_bind, World.serve, World.getIntAttribute_connected h, hes,
    hec, if_false, eval_pure]

theorem eval_writeNumericTag_ok (t : ElemType) (elemSize elemCount : ℕ)
    (h : w.Connected tag name p d) (hd : p.data = some data) (hb : p.isBit = false)
    (hes : 1 ≤ elemSize) (hec : 1 ≤ elemCount)
    (hsize : d.elemSize = elemSize) (hcount : d.elemCount = elemCount)
    (values : List t.Val) (es es' : Text) (timeOutMs : ℤ) (w' : World)
    (hwrite : eval World.serve (writeNumericTag t es tag values timeOutMs) w
      = (.ok (0, es'), w')) :
    (values.take elemCount).length = elemCount ∧
    (∀ j < elemCount, t.Fits data.length (j * elemSize)) ∧
    w'.Connected tag name
      { p with data := some (putElems p.byteOrder t elemSize data 0 (values.take elemCount)) }
      { d with memory := putElems p.byteOrder t elemSize data 0 (values.take elemCount) } := by
  rw [writeNumericTag,
    eval_bind_ok _ _ (eval_tagGetSizes h (by omega) (by omega) es)] at hwrite
  simp only [ne_eq, not_true_eq_false, if_false, hsize, hcount, Int.toNat_natCast] at hwrite
  rcases hloop : eval World.serve (writeElems t tag elemSize values elemCount 0) w with ⟨o, w₁⟩
  cases o with
  | error e =>
    rw [eval_bind_error _ _ hloop] at hwrite
    exact absurd (congrArg Prod.fst hwrite) (by simp)
  | ok rc =>
    rw [eval_bind_ok _ _ hloop] at hwrite
    by_cases hrc : rc = plctagStatusOk
    · subst hrc
      obtain ⟨htake, hfits, rfl⟩ := eval_writeElems t elemSize values elemCount 0 h hd hb hloop
      rw [List.drop_zero] at hwrite htake
      set stored := putElems p.byteOrder t elemSize data 0 (values.take elemCount)
      have hc := h.setData stored
      simp only [not_true_eq_false, if_false, eval_perform_bind, World.serve,
        World.write_connected hc] at hwrite
      by_cases hws : d.writeStatus = plctagStatusOk
      · rw [if_pos hws] at hwrite
        simp only [not_true_eq_false, if_false, eval_pure, Option.getD_some] at hwrite
        obtain rfl := congrArg Prod.snd hwrite
        refine ⟨htake, fun j hj => hfits j (Nat.zero_le j) (by omega), ?_⟩
        exact hc.setDevice { d with memory := stored }
      · simp only [hws, if_false, not_false_eq_true, if_true, eval_pure] at hwrite
        exact absurd (congrArg Prod.fst hwrite) (by simp [hws])
    · rw [if_pos hrc, eval_pure] at hwrite
      exact absurd (congrArg Prod.fst hwrite) (by simp [hrc])

theorem eval_readNumericTag (t : ElemType) (elemSize elemCount : ℕ)
    (h : w.Connected tag name p d) (hb : p.isBit = false)
    (hes : 1 ≤ elemSize) (hec : 1 ≤ elemCount)
    (hsize : d.elemSize = elemSize) (hcount : d.elemCount = elemCount)
    (hread : d.readStatus = plctagStatusOk) (es : Text) (prior : List t.Val) (timeOutMs : ℤ) :
    eval World.serve (readNumericTag t es tag prior timeOutMs) w =
      (.ok (0, es, prior ++ seenElems p.byteOrder t elemSize d.memory 0 elemCount),
        w.setData tag name p d.memory) := by
  have hc := h.setData d.memory
  simp only [readNumericTag, eval_perform_bind, World.serve, World.read_connected h hread, ne_eq,
    not_true_eq_false, if_false]
  rw [eval_bind_ok _ _ (eval_tagGetSizes hc (by omega) (by omega) es)]
  simp only [not_true_eq_false, if_false, hsize, hcount, Int.toNat_natCast]
  rw [eval_bind_ok _ _ (eval_readElems t elemSize hc rfl hb elemCount 0 prior), eval_pure]

/-- `T` may be any numeric type or `bool`; byte orders are any permutations; `elem_size` is any
positive number. A write that returns 0 is read back as the values that were written. -/
theorem readNumericTag_writeNumericTag (t : ElemType) (elemSize elemCount : ℕ)
    (h : w.Connected tag name p d) (hd : p.data = some data) (hb : p.isBit = false)
    (hlen : data.length = elemSize * elemCount) (hes : 1 ≤ elemSize) (hec : 1 ≤ elemCount)
    (hsize : d.elemSize = elemSize) (hcount : d.elemCount = elemCount)
    (hread : d.readStatus = plctagStatusOk) (values : List t.Val) (es es' rs : Text)
    (timeOutMs timeOutMs' : ℤ) (prior : List t.Val) (w' : World)
    (hwrite : eval World.serve (writeNumericTag t es tag values timeOutMs) w
      = (.ok (0, es'), w')) :
    (eval World.serve (readNumericTag t rs tag prior timeOutMs') w').1
      = .ok (0, rs, prior ++ values.take elemCount) := by
  obtain ⟨htake, hfits, hc⟩ := eval_writeNumericTag_ok t elemSize elemCount h hd hb hes hec hsize
    hcount values es es' timeOutMs w' hwrite
  have hap := before_of_fits t elemSize elemCount hes hec (by
    rw [← hlen]
    exact hfits (elemCount - 1) (by omega))
  have hget := getElems_putElems p.byteOrder t elemSize data 0 (values.take elemCount)
    (fun j _ hj => hfits j (by omega)) hap
  rw [htake] at hget
  have hseen := seenElems_of_fits p.byteOrder t elemSize
    (putElems p.byteOrder t elemSize data 0 (values.take elemCount)) 0 elemCount
    (fun j _ hj => by rw [putElems_length]; exact hfits j (by omega))
  rw [eval_readNumericTag t elemSize elemCount hc hb hes hec hsize hcount hread]
  simp only [hseen, hget]

end RoundTrip

def wideElements : PlcTag × Device :=
  ({ data := some (List.replicate 12 0xAA)
     isBit := false
     bit := 0
     allowFieldResize := false
     byteOrder :=
       { strIsDefined := false, strIsCounted := false, strIsFixedLength := false
         strIsZeroTerminated := false, strIsByteSwapped := false, strCountWordBytes := 0
         strMaxCapacity := 0, strTotalLength := 0, strPadBytes := 0
         int16Order := .big 2, int32Order := .big 4, int64Order := .big 8
         float32Order := .big 4, float64Order := .big 8 } },
    { memory := [], elemSize := 6, elemCount := 2, readStatus := 0, writeStatus := 0 })

theorem readNumericTag_writeNumericTag_wide :
    let w := World.single 1 [] wideElements.1 wideElements.2
    let w' := (eval World.serve (writeNumericTag (.num .int32) [] 1 [70000, -2] 5000) w).2
    (eval World.serve (readNumericTag (.num .int32) [] 1 [] 5000) w').1
      = .ok (0, [], [70000, -2]) := by
  intro w w'
  have h : w.Connected 1 [] wideElements.1 wideElements.2 := World.single_connected
  have hwrite : (eval World.serve (writeNumericTag (.num .int32) [] 1 [70000, -2] 5000) w).1
      = .ok (0, []) := rfl
  exact readNumericTag_writeNumericTag (.num .int32) 6 2 h rfl rfl rfl (by decide) (by decide)
    rfl rfl rfl [70000, -2] [] [] [] 5000 5000 [] w' (Prod.ext hwrite rfl)

end Plctagt.Tag
