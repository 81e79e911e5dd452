import Plctagt.Listing.Records

/-! # The payload of a listing tag

A controller sends its tags as records, one after the other. `get_tag_list` reads from such a
payload the records it can allocate memory for, up to the first it cannot.
-/
namespace Plctagt.Listing
open Bytes Decimal Tag
set_option autoImplicit false

/-- A well-formed record. -/
structure Record where
  instanceId : UInt32
  type : UInt16
  elementLength : UInt16
  dims : Fin 3 → UInt32
  name : Text
  name_length : name.length ≤ 32767
  name_nul : (0 : UInt8) ∉ name

namespace Record

/-- The fixed part: what comes before the name. -/
def header (r : Record) : List UInt8 :=
  littleEndian 4 r.instanceId.toNat ++ littleEndian 2 r.type.toNat ++
    littleEndian 2 r.elementLength.toNat ++ littleEndian 4 (r.dims 0).toNat ++
    littleEndian 4 (r.dims 1).toNat ++ littleEndian 4 (r.dims 2).toNat

def encode (r : Record) : List UInt8 :=
  r.header ++ littleEndian 2 r.name.length ++ r.name

theorem header_length (r : Record) : r.header.length = 20 := by
  simp [header]

theorem encode_length (r : Record) : r.encode.length = 22 + r.name.length := by
  rw [encode, List.length_append, List.length_append, header_length, littleEndian_length]

def node (parent : Option Text) (r : Record) : TagNode where
  name := some r.name
  parent := parent
  instanceId := UInt16.ofNat r.instanceId.toNat
  type := r.type
  elemSize := r.elementLength
  elemCount := dimProduct ((r.type &&& tagDimMask) >>> 13) fun i => UInt16.ofNat (r.dims i).toNat
  numDimensions := (r.type &&& tagDimMask) >>> 13
  dimensions := fun i => UInt16.ofNat (r.dims i).toNat

end Record

structure Holds (tag : PlcTag) (records : List Record) : Prop where
  data : tag.data = some (records.flatMap Record.encode)
  isBit : tag.isBit = false
  byteOrder : tag.byteOrder = listingTagLogixByteOrder
  nonempty : records ≠ []
  size : (records.flatMap Record.encode).length < 2 ^ 31

/-- Memory for the record at `offset`: its name, and its entry. -/
def Allocated (plc : Plc) (tagString : Text) (offset : ℕ) (r : Record) : Bool :=
  plc.calloc tagString (offset + 20 : ℕ) (r.name.length + 1) &&
    plc.calloc tagString (offset + r.encode.length : ℕ) 40

/-! ## Words of the payload -/

section Window
variable {tag : PlcTag} {p q : List UInt8} {v : ℕ} (hb : tag.isBit = false)
include hb

theorem getWord_window (t : NumType) (ht : t.order tag.byteOrder = Lanes.little t.bytes)
    (hd : tag.data = some (p ++ littleEndian t.bytes v ++ q)) :
    getWord t tag p.length = BitVec.ofNat _ v := by
  rw [getWord_data tag _ t p.length hd hb, if_pos ?_, ht, Int.toNat_natCast, load_littleEndian]
  · refine BitVec.eq_of_toNat_eq ?_
    rw [BitVec.toNat_ofNat, BitVec.toNat_ofNat, Nat.pow_mul]
    exact Nat.mod_mod _ _
  · simp only [List.length_append, littleEndian_length]
    omega

theorem getUint16_window (ho : tag.byteOrder.int16Order = Lanes.little 2)
    (hd : tag.data = some (p ++ littleEndian 2 v ++ q)) :
    getUint16 tag p.length = UInt16.ofNat v := by
  have h := getWord_window hb .uint16 ho hd
  rw [getUint16, plcTagGetUint16, h, BitVec.toNat_ofNat]
  refine UInt16.toNat_inj.mp ?_
  rw [UInt16.toNat_ofNat', UInt16.toNat_ofNat']
  exact Nat.mod_mod _ _

theorem getUint32Low_window (ho : tag.byteOrder.int32Order = Lanes.little 4)
    (hd : tag.data = some (p ++ littleEndian 4 v ++ q)) :
    getUint32Low tag p.length = UInt16.ofNat v := by
  have h := getWord_window hb .uint32 ho hd
  rw [getUint32Low, plcTagGetUint32, h, BitVec.toNat_ofNat]
  refine UInt16.toNat_inj.mp ?_
  rw [UInt16.toNat_ofNat', UInt16.toNat_ofNat']
  exact Nat.mod_mod_of_dvd _ (by decide)

end Window

/-! ## One record -/

section Record
variable {plc : Plc} {tagString : Text} {p q : List UInt8} {r : Record}
  (hb : (plc.tag tagString).isBit = false)
  (ho : (plc.tag tagString).byteOrder = listingTagLogixByteOrder)
  (hd : (plc.tag tagString).data = some (p ++ r.encode ++ q))
  (hsize : (p ++ r.encode ++ q).length < 2 ^ 31)
include hb ho hd

theorem getString_refusal : stringRefusal (plc.tag tagString) = none := by
  refine stringRefusal_none ?_ hd hb
  rw [ho]
  rfl

omit hb in
theorem getStringLengthUnsafe_record :
    getStringLengthUnsafe (plc.tag tagString) (p.length + 20 : ℕ) = some (r.name.length : ℤ) := by
  have hlength := r.name_length
  have hdata : p ++ r.encode ++ q = (p ++ r.header) ++ littleEndian 2 r.name.length ++
      (r.name ++ q) := by
    simp only [Record.encode, List.append_assoc]
  have hoffset : p.length + 20 = (p ++ r.header).length := by
    rw [List.length_append, r.header_length]
  have hfits : (p ++ r.header).length + 2 ≤ (p ++ r.encode ++ q).length := by
    rw [hdata]
    simp only [List.length_append, littleEndian_length]
    omega
  have hword : wordUnsafe (p ++ r.encode ++ q) (p.length + 20 : ℕ) (Lanes.little 2) =
      some (BitVec.ofNat _ r.name.length) := by
    rw [wordUnsafe, hoffset, if_pos ⟨Int.natCast_nonneg _, by exact_mod_cast hfits⟩,
      Int.toNat_natCast, hdata, load_littleEndian, Nat.mod_eq_of_lt (by omega)]
  have hlen : getStringLengthUnsafe (plc.tag tagString) (p.length + 20 : ℕ) =
      (wordUnsafe (p ++ r.encode ++ q) (p.length + 20 : ℕ) (Lanes.little 2)).map BitVec.toInt := by
    unfold getStringLengthUnsafe
    rw [ho, hd]
    rfl
  rw [hlen, hword, Option.map_some, BitVec.toInt, BitVec.toNat_ofNat, Nat.mod_eq_of_lt (by omega),
    if_pos (by omega)]

theorem getStringLength_record : plcTagGetStringLength (plc.tag tagString) (p.length + 20 : ℕ) =
    some (r.name.length : ℤ) := by
  unfold plcTagGetStringLength
  rw [getString_refusal hb ho hd]
  exact getStringLengthUnsafe_record ho hd

theorem getStringTotalLength_record :
    plcTagGetStringTotalLength (plc.tag tagString) (p.length + 20 : ℕ) =
      some (r.name.length + 2 : ℤ) := by
  unfold plcTagGetStringTotalLength
  rw [getString_refusal hb ho hd]
  show getStringTotalLengthUnsafe (plc.tag tagString) (p.length + 20 : ℕ) = _
  unfold getStringTotalLengthUnsafe
  rw [getStringLengthUnsafe_record ho hd, ho]
  show some ((2 : ℤ) + r.name.length + 0 + 0) = _
  rw [Int.add_zero, Int.add_zero, Int.add_comm]

include hsize in
theorem getString_record : plcTagGetString (plc.tag tagString) (p.length + 20 : ℕ)
    (r.name.length + 1) = some (plctagStatusOk, r.name ++ [0]) := by
  have hlen : (p ++ r.encode ++ q).length = p.length + (22 + r.name.length) + q.length := by
    rw [List.length_append, List.length_append, r.encode_length]
  have hchars : ∀ i (hi : i < r.name.length),
      (p ++ r.encode ++ q)[listingTagLogixByteOrder.charIndex i + (p.length + 20) +
        listingTagLogixByteOrder.strCountWordBytes]? = some (r.name.get ⟨i, hi⟩) := by
    intro i hi
    have hdata : p ++ r.encode ++ q =
        (p ++ r.header ++ littleEndian 2 r.name.length) ++ (r.name ++ q) := by
      simp only [Record.encode, List.append_assoc]
    have hindex : listingTagLogixByteOrder.charIndex i + (p.length + 20) +
        listingTagLogixByteOrder.strCountWordBytes =
          (p ++ r.header ++ littleEndian 2 r.name.length).length + i := by
      rw [List.length_append, List.length_append, r.header_length, littleEndian_length]
      show i + (p.length + 20) + 2 = _
      omega
    rw [hindex, hdata, List.getElem?_append_right (Nat.le_add_right _ _), Nat.add_sub_cancel_left,
      List.getElem?_append_left hi, List.getElem?_eq_getElem hi]
    rfl
  have hcopy := copyOut_eq listingTagLogixByteOrder (p ++ r.encode ++ q) (p.length + 20) r.name
    (by omega) hchars r.name.length 0 (by omega)
  have hsize' : (plc.tag tagString).size = (p ++ r.encode ++ q).length := by
    rw [PlcTag.size_eq hd]
  have hmax : (if (r.name.length : ℤ) + 1 < r.name.length then (r.name.length : ℤ) + 1
      else r.name.length) = r.name.length := if_neg (by omega)
  have hmin : min r.name.length (p ++ r.encode ++ q).length = r.name.length := by omega
  unfold plcTagGetString
  rw [getString_refusal hb ho hd]
  simp only [getStringLengthUnsafe_record ho hd, Option.map_some, hmax, hsize', hd,
    Option.getD_some, Int.toNat_natCast, hmin, ho, hcopy]
  rw [if_pos]
  · have hpad : ((r.name.length : ℤ) + 1).toNat - r.name.length = 1 := by omega
    simp only [List.drop_zero, cleared, hpad]
    rfl
  · show ((p.length + 20 : ℕ) : ℤ) + (2 : ℕ) + r.name.length ≤ _
    omega

theorem header_words :
    getUint32Low (plc.tag tagString) p.length = UInt16.ofNat r.instanceId.toNat ∧
    getUint16 (plc.tag tagString) (p.length + 4) = r.type ∧
    getUint16 (plc.tag tagString) (p.length + 6) = r.elementLength ∧
    ∀ i : Fin 3, getUint32Low (plc.tag tagString) (p.length + 8 + 4 * i) =
      UInt16.ofNat (r.dims i).toNat := by
  have hrest : ∀ w v (before after : List UInt8),
      r.encode = before ++ littleEndian w v ++ after →
        (plc.tag tagString).data = some ((p ++ before) ++ littleEndian w v ++ (after ++ q)) := by
    intro w v before after h
    rw [hd, h]
    simp only [List.append_assoc]
  have h16 : ∀ (v : ℕ) (offset : ℤ) (before after : List UInt8),
      r.encode = before ++ littleEndian 2 v ++ after → (p.length : ℤ) + before.length = offset →
        getUint16 (plc.tag tagString) offset = UInt16.ofNat v := by
    intro v offset before after h ho'
    rw [← getUint16_window hb (by rw [ho]; rfl) (hrest 2 v before after h), List.length_append, ← ho']
    rfl
  have h32 : ∀ (v : ℕ) (offset : ℤ) (before after : List UInt8),
      r.encode = before ++ littleEndian 4 v ++ after → (p.length : ℤ) + before.length = offset →
        getUint32Low (plc.tag tagString) offset = UInt16.ofNat v := by
    intro v offset before after h ho'
    rw [← getUint32Low_window hb (by rw [ho]; rfl) (hrest 4 v before after h), List.length_append, ← ho']
    rfl
  set w₀ := littleEndian 4 r.instanceId.toNat with hw₀
  set w₁ := w₀ ++ littleEndian 2 r.type.toNat with hw₁
  set w₂ := w₁ ++ littleEndian 2 r.elementLength.toNat with hw₂
  set w₃ := w₂ ++ littleEndian 4 (r.dims 0).toNat with hw₃
  set w₄ := w₃ ++ littleEndian 4 (r.dims 1).toNat with hw₄
  have hlen : w₀.length = 4 ∧ w₁.length = 6 ∧ w₂.length = 8 ∧ w₃.length = 12 ∧ w₄.length = 16 := by
    simp only [hw₄, hw₃, hw₂, hw₁, hw₀, List.length_append, littleEndian_length, and_self]
  obtain ⟨hl₀, hl₁, hl₂, hl₃, hl₄⟩ := hlen
  -- each word has the earlier ones before it
  have h₅ : r.encode = w₄ ++ littleEndian 4 (r.dims 2).toNat ++
      (littleEndian 2 r.name.length ++ r.name) := List.append_assoc _ _ _
  have h₄ : r.encode = w₃ ++ littleEndian 4 (r.dims 1).toNat ++ _ :=
    h₅.trans (List.append_assoc w₄ _ _)
  have h₃ : r.encode = w₂ ++ littleEndian 4 (r.dims 0).toNat ++ _ :=
    h₄.trans (List.append_assoc w₃ _ _)
  have h₂ : r.encode = w₁ ++ littleEndian 2 r.elementLength.toNat ++ _ :=
    h₃.trans (List.append_assoc w₂ _ _)
  have h₁ : r.encode = w₀ ++ littleEndian 2 r.type.toNat ++ _ :=
    h₂.trans (List.append_assoc w₁ _ _)
  have h₀ : r.encode = [] ++ littleEndian 4 r.instanceId.toNat ++ _ :=
    h₁.trans (List.append_assoc w₀ _ _)
  refine ⟨h32 _ _ [] _ h₀ (Int.add_zero _), ?_, ?_, fun i => ?_⟩
  · rw [h16 _ _ w₀ _ h₁ (by rw [hl₀]; rfl)]
    exact UInt16.ofNat_toNat
  · rw [h16 _ _ w₁ _ h₂ (by rw [hl₁]; rfl)]
    exact UInt16.ofNat_toNat
  · fin_cases i
    · exact h32 _ _ w₂ _ h₃ (by rw [hl₂]; exact (Int.add_zero _).symm)
    · exact h32 _ _ w₃ _ h₄ (by rw [hl₃]; exact (Int.add_assoc _ 8 4).symm)
    · exact h32 _ _ w₄ _ h₅ (by rw [hl₄]; exact (Int.add_assoc _ 8 8).symm)

include hsize in
theorem processTagEntry_record (parent : Option Text) :
    processTagEntry plc tagString p.length parent =
      if Allocated plc tagString p.length r then
        .ok (plctagStatusOk, (p.length + r.encode.length : ℕ), some (r.node parent))
      else
        .ok (plctagErrNoMem,
          if plc.calloc tagString (p.length + 20 : ℕ) (r.name.length + 1) then
            ((p.length + r.encode.length : ℕ) : ℤ)
          else (p.length + 20 : ℕ), none) := by
  obtain ⟨hid, htype, hlength, hdims⟩ := header_words hb ho hd
  have hoffset : (p.length : ℤ) + 20 = (p.length + 20 : ℕ) := rfl
  have hend : ((p.length + 20 : ℕ) : ℤ) + (r.name.length + 2) = (p.length + r.encode.length : ℕ) := by
    rw [r.encode_length]
    push_cast
    omega
  have hname : (if (r.name.length : ℤ) + 1 = 0 then none else some (cstr (r.name ++ [0]))) =
      some r.name := by
    rw [if_neg (by omega), cstr, List.takeWhile_append_of_pos]
    · simp
    · intro b hb'
      exact decide_eq_true fun h => r.name_nul (h ▸ hb')
  unfold processTagEntry
  dsimp only
  rw [hid, htype, hlength, hoffset, getStringLength_record hb ho hd]
  simp only [hdims]
  show (if plc.calloc tagString (p.length + 20 : ℕ) (r.name.length + 1) = false then _ else _) = _
  unfold Allocated
  cases hcalloc : plc.calloc tagString (p.length + 20 : ℕ) (r.name.length + 1) with
  | false => rfl
  | true =>
    rw [if_neg Bool.true_eq_false_eq_False, getString_record hb ho hd hsize,
      getStringTotalLength_record hb ho hd]
    show (if plc.calloc tagString ((p.length + 20 : ℕ) + (r.name.length + 2)) 40 = false
      then _ else _) = _
    rw [hend, hname]
    cases hentry : plc.calloc tagString (p.length + r.encode.length : ℕ) 40 with
    | false => rfl
    | true => rfl

end Record

/-! ## The records of a payload -/

/-- The records from `offset` on that are read before memory runs out. -/
def kept (plc : Plc) (tagString : Text) : ℕ → List Record → List Record
  | _, [] => []
  | offset, r :: rs =>
    if Allocated plc tagString offset r then
      r :: kept plc tagString (offset + r.encode.length) rs
    else []

/-- Memory for all records from `offset` on. -/
def AllAllocated (plc : Plc) (tagString : Text) : ℕ → List Record → Prop
  | _, [] => True
  | offset, r :: rs =>
    Allocated plc tagString offset r ∧ AllAllocated plc tagString (offset + r.encode.length) rs

theorem kept_initial (plc : Plc) (tagString : Text) (offset : ℕ) (rs : List Record) :
    kept plc tagString offset rs <+: rs := by
  induction rs generalizing offset with
  | nil => exact List.nil_prefix
  | cons r rs ih =>
    unfold kept
    split_ifs
    · exact List.cons_prefix_cons.mpr ⟨rfl, ih _⟩
    · exact List.nil_prefix

theorem kept_eq_iff (plc : Plc) (tagString : Text) (offset : ℕ) (rs : List Record) :
    kept plc tagString offset rs = rs ↔ AllAllocated plc tagString offset rs := by
  induction rs generalizing offset with
  | nil => exact iff_of_true rfl trivial
  | cons r rs ih =>
    unfold kept AllAllocated
    by_cases h : Allocated plc tagString offset r = true
    · rw [if_pos h, and_iff_right h, List.cons_inj_right, ih]
    · rw [if_neg h]
      exact iff_of_false (List.cons_ne_nil _ _).symm fun h' => h h'.1

/-- The loop of `get_tag_list` links what is kept; a turn for each record is enough. -/
theorem tagEntries_records (plc : Plc) (tagString : Text) (parent : Option Text)
    (hb : (plc.tag tagString).isBit = false)
    (ho : (plc.tag tagString).byteOrder = listingTagLogixByteOrder) (data : List UInt8)
    (hd : (plc.tag tagString).data = some data) (hsize : data.length < 2 ^ 31)
    (turns : ℕ) (rs : List Record) (hrs : rs ≠ []) (p : List UInt8)
    (hdata : data = p ++ rs.flatMap Record.encode) (tagList : List TagNode) :
    tagEntries plc tagString parent data.length turns p.length tagList =
      .ok (((kept plc tagString p.length rs).map (Record.node parent)).reverse ++ tagList) ∨
    (turns < rs.length ∧
      tagEntries plc tagString parent data.length turns p.length tagList = .error .turns) := by
  induction rs generalizing turns p tagList with
  | nil => exact absurd rfl hrs
  | cons r rs ih =>
    cases turns with
    | zero => exact .inr ⟨Nat.succ_pos _, rfl⟩
    | succ turns =>
    have hdata' : data = p ++ r.encode ++ rs.flatMap Record.encode := by
      rw [hdata, List.flatMap_cons, List.append_assoc]
    have hentry := processTagEntry_record hb ho (hdata' ▸ hd) (hdata' ▸ hsize) parent
    have hp : p.length + r.encode.length = (p ++ r.encode).length := List.length_append.symm
    unfold tagEntries kept
    rw [hentry]
    by_cases halloc : Allocated plc tagString p.length r = true
    · rw [if_pos halloc, if_pos halloc, hp]
      show (if plctagStatusOk = plctagStatusOk ∧ ((p ++ r.encode).length : ℤ) < data.length then
          tagEntries plc tagString parent data.length turns (p ++ r.encode).length
            (r.node parent :: tagList) else pure (r.node parent :: tagList)) = _ ∨
        (_ ∧ (if plctagStatusOk = plctagStatusOk ∧ ((p ++ r.encode).length : ℤ) < data.length then
          tagEntries plc tagString parent data.length turns (p ++ r.encode).length
            (r.node parent :: tagList) else pure (r.node parent :: tagList)) = _)
      cases rs with
      | nil =>
        have hlen : data.length = (p ++ r.encode).length := by
          rw [hdata', List.flatMap_nil, List.append_nil]
        rw [if_neg (by rw [hlen]; exact fun h => absurd h.2 (Int.lt_irrefl _))]
        exact .inl rfl
      | cons r' rs =>
        have hlen : ((p ++ r.encode).length : ℤ) < data.length := by
          rw [hdata', List.flatMap_cons]
          simp only [List.length_append, r'.encode_length]
          push_cast
          omega
        rw [if_pos ⟨rfl, hlen⟩]
        rcases ih turns (List.cons_ne_nil _ _) (p ++ r.encode) hdata' (r.node parent :: tagList) with
          h | ⟨hlt, h⟩
        · refine .inl ?_
          rw [h]
          simp only [List.map_cons, List.reverse_cons, List.append_assoc, List.singleton_append]
        · exact .inr ⟨Nat.succ_lt_succ hlt, h⟩
    · rw [if_neg halloc, if_neg halloc]
      generalize (if plc.calloc tagString (p.length + 20 : ℕ) (r.name.length + 1) = true then
        ((p.length + r.encode.length : ℕ) : ℤ) else (p.length + 20 : ℕ)) = stop
      show (if plctagErrNoMem = plctagStatusOk ∧ stop < data.length then
        tagEntries plc tagString parent data.length turns stop ([] ++ tagList)
          else pure ([] ++ tagList)) = _ ∨ _
      rw [if_neg (fun h => absurd h.1 (by decide))]
      exact .inl rfl

theorem getTagList_records {plc : Plc} {turns : ℕ} {tagString : Text} {parent : Option Text}
    {rs : List Record} (h : Holds (plc.tag tagString) rs) {tagList tagList' : List TagNode}
    (hok : getTagList plc turns tagString parent tagList = .ok tagList') :
    tagList' = ((kept plc tagString 0 rs).map (Record.node parent)).reverse ++ tagList := by
  have hsize : (plc.tag tagString).size = (rs.flatMap Record.encode).length := by
    rw [PlcTag.size_eq h.data]
  unfold getTagList at hok
  split_ifs at hok with hread
  dsimp only at hok
  split_ifs at hok with hfour
  rw [hsize] at hok
  rcases tagEntries_records plc tagString parent h.isBit h.byteOrder _ h.data h.size turns rs
    h.nonempty [] rfl tagList with hentries | ⟨-, hentries⟩
  · exact Except.ok.inj (hok.symm.trans hentries)
  · exact nomatch hok.symm.trans hentries

end Plctagt.Listing
