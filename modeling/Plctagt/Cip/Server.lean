import Plctagt.Foundations.Pieces
import Plctagt.Tag.TagName

/-! # The simulated PLC

The part of `ab_server` that serves the tags, `cip.c`: a CIP request is taken apart, its path names a tag
and perhaps an element of it, and the tag's data are read or written from there on.
-/
namespace Plctagt.Cip
open Bytes Decimal Pieces Tag
set_option autoImplicit false

inductive PlcType where
  | controlLogix | micro800 | omron | plc5 | slc | microLogix
  deriving DecidableEq

/-- `tag_def_s`; `num_dimensions` is the number of `dimensions`. The simulator allocates the data that
the dimensions call for. -/
@[ext] structure TagDef where
  name : Text
  tagType : UInt16
  elemSize : ℕ
  dimensions : List ℕ
  data : List UInt8
  length_data : data.length = dimensions.prod * elemSize

/-- Of `plc_s` what the services that are modelled look at. -/
structure PlcS where
  plcType : PlcType
  tags : List TagDef

abbrev cipDone : UInt8 := 0x80

abbrev cipSrvReadNamedTag : UInt8 := 0x4C
abbrev cipSrvWriteNamedTag : UInt8 := 0x4D
abbrev cipSrvReadNamedTagFrag : UInt8 := 0x52
abbrev cipSrvWriteNamedTagFrag : UInt8 := 0x53

abbrev cipOk : UInt8 := 0
abbrev cipErrInvalidParam : UInt8 := 0x03
abbrev cipErrFrag : UInt8 := 0x06
abbrev cipErrUnsupported : UInt8 := 0x08
abbrev cipErrInsufficientData : UInt8 := 0x13
abbrev cipErrTooMuchData : UInt8 := 0x15
abbrev cipErrExtended : UInt8 := 0xFF

abbrev cipErrExTooLong : ℕ := 0x2105

/-! ## Slices

An output slice is the number of bytes in it and what was put there. -/

def sliceGetUint8 (s : List UInt8) (index : ℕ) : UInt8 := s.getD index 0xFF

def sliceGetUint16Le (s : List UInt8) (offset : ℕ) : ℕ :=
  if offset + 1 < s.length then load s offset (Lanes.little 2) else 0

def sliceGetUint32Le (s : List UInt8) (offset : ℕ) : ℕ :=
  if offset + 3 < s.length then load s offset (Lanes.little 4) else 0

def sliceFromSlice (s : List UInt8) (start len : ℕ) : List UInt8 := (s.drop start).take len

def makeCipError (output : ℕ) (cipCmd cipErr : UInt8) (extendedError : Option ℕ) : List UInt8 :=
  match extendedError with
  | some err => ([cipCmd ||| cipDone, 0, cipErr, 2] ++ littleEndian 2 err).take output
  | none => [cipCmd ||| cipDone, 0, cipErr, 0].take output

/-! ## Requests and paths -/

/-- `extract_cip_path`, not padded: the path and what follows it. -/
def extractCipPath (input : List UInt8) : Option (List UInt8 × List UInt8) :=
  if input.length < 1 then none
  else
    let pathLen := (sliceGetUint8 input 0).toNat
    if pathLen = 0 then none
    else if input.length < 1 + pathLen * 2 then none
    else some (sliceFromSlice input 1 (pathLen * 2), input.drop (1 + pathLen * 2))

/-- The service, its path and its payload. -/
def parseCipRequest (input : List UInt8) : Option (UInt8 × List UInt8 × List UInt8) :=
  if input.length < 4 then none
  else (extractCipPath (input.drop 1)).map (sliceGetUint8 input 0, ·)

def cipTagMaxIndexes : ℕ := 3

/-- The numeric segment at the front of a path. -/
def numericSegmentAt (path : List UInt8) : Option (ℕ × List UInt8) :=
  match sliceGetUint8 path 0 with
  | 0x28 => some ((sliceGetUint8 path 1).toNat, path.drop 2)
  | 0x29 => some (sliceGetUint16Le path 2, path.drop 4)
  | 0x2A => some (sliceGetUint32Le path 2, path.drop 6)
  | _ => none

/-- The loop over the numeric segments. The fourth index is refused, after it was written behind the
array. -/
def parseIndexes : ℕ → List UInt8 → List ℕ → Option (List ℕ)
  | _, [], indexes => some indexes
  | 0, _ :: _, _ => none
  | fuel + 1, b :: path, indexes =>
    match numericSegmentAt (b :: path) with
    | none => none
    | some (index, path) =>
      if cipTagMaxIndexes < indexes.length + 1 then none
      else parseIndexes fuel path (indexes ++ [index])

/-- `parse_tag_path`: the place of the tag on the list, the tag and the indexes. -/
def parseTagPath (tagPath : List UInt8) (plc : PlcS) : Option (ℕ × TagDef × List ℕ) :=
  if tagPath.length < 2 then none
  else if sliceGetUint8 tagPath 0 ≠ 0x91 then none
  else
    let nameLen := (sliceGetUint8 tagPath 1).toNat
    if tagPath.length < nameLen + 2 then none
    else
      let offset := if (2 + nameLen) % 2 ≠ 0 then 2 + nameLen + 1 else 2 + nameLen
      match plc.tags.findIdx? (fun tag => tag.name == sliceFromSlice tagPath 2 nameLen) with
      | none => none
      | some place =>
        match plc.tags[place]?, parseIndexes tagPath.length (tagPath.drop offset) [] with
        | some tag, some indexes =>
          if indexes.length ≠ 0 ∧ indexes.length ≠ tag.dimensions.length then none
          else some (place, tag, indexes)
        | _, _ => none

/-! ## Where the data of a request are -/

def linearOffset (dimensions : List ℕ) : List ℕ → Option ℕ
  | [] => some 0
  | [i] => some i
  | [i, j] => some (i * dimensions.getD 1 0 + j)
  | [i, j, k] =>
    some (i * dimensions.getD 1 0 * dimensions.getD 2 0 + j * dimensions.getD 2 0 + k)
  | _ => none

/-- Where the data of a request begin and where they end. -/
def calculateRequestStartAndEndOffsets (tag : TagDef) (indexes : List ℕ) (requestElementCount : ℕ) :
    Option (ℕ × ℕ) :=
  let totalElements := tag.dimensions.prod
  let tagSize := totalElements * tag.elemSize
  if ∃ p ∈ indexes.zip tag.dimensions, p.2 ≤ p.1 then none
  else
    match linearOffset tag.dimensions indexes with
    | none => none
    | some elementOffset =>
      let start := elementOffset * tag.elemSize
      let stop := start + requestElementCount * tag.elemSize
      if totalElements ≤ elementOffset then none
      else if tagSize < start then none
      else if tagSize < stop then none
      else some (start, stop)

/-! ## The services -/

def cipResponseHeader (cipService status : UInt8) : List UInt8 := [cipService ||| cipDone, 0, status, 0]

/-- No less than this is sent, so that no value of an atomic type is cut. -/
def minDataElementSize (tag : TagDef) : ℕ := if 8 < tag.elemSize then 8 else tag.elemSize

/-- What is read from `start` on when the data of the request end at `stop`. -/
def readFragment (cipService : UInt8) (tag : TagDef) (start stop output : ℕ) : List UInt8 :=
  let minSize := minDataElementSize tag
  if output < 4 + 2 + minSize then makeCipError output cipService cipErrFrag none
  else if output - (4 + 2) < minSize then
    makeCipError output cipService cipErrExtended (some cipErrExTooLong)
  else
    let copySize := min ((output - (4 + 2)) / minSize * minSize) (stop - start)
    let status := if start + copySize < stop then cipErrFrag else cipOk
    cipResponseHeader cipService status ++
      (littleEndian 2 tag.tagType.toNat ++ (tag.data.drop start).take copySize)

def handleReadRequest (cipService : UInt8) (path payload : List UInt8) (output : ℕ) (plc : PlcS) :
    List UInt8 :=
  let refuse := fun err => makeCipError output cipService err none
  if plc.plcType = .omron ∧ cipService ≠ cipSrvReadNamedTag then refuse cipErrUnsupported
  else if payload.length < (if cipService = cipSrvReadNamedTag then 2 else 6) then
    refuse cipErrInsufficientData
  else
    match parseTagPath path plc with
    | none => refuse cipErrInvalidParam
    | some (_, tag, indexes) =>
      let frag := if cipService = cipSrvReadNamedTagFrag then sliceGetUint32Le payload 2 else 0
      let parsed := if cipService = cipSrvReadNamedTagFrag then 6 else 2
      if parsed ≠ payload.length then refuse cipErrTooMuchData
      else
        match calculateRequestStartAndEndOffsets tag indexes (sliceGetUint16Le payload 0) with
        | none => refuse cipErrInvalidParam
        | some (start, stop) =>
          if stop < start + frag then refuse cipErrInvalidParam
          else readFragment cipService tag (start + frag) stop output

/-- `payload` written at `start`, when that is inside of the tag. -/
def TagDef.write (tag : TagDef) (start : ℕ) (payload : List UInt8) : TagDef :=
  if h : start + payload.length ≤ tag.data.length then
    { tag with data := put tag.data start payload, length_data := (length_put h).trans tag.length_data }
  else tag

def handleWriteRequest (cipService : UInt8) (path payload : List UInt8) (output : ℕ) (plc : PlcS) :
    PlcS × List UInt8 :=
  let refuse := fun err => (plc, makeCipError output cipService err none)
  if plc.plcType = .omron ∧ cipService ≠ cipSrvWriteNamedTag then refuse cipErrUnsupported
  else
    match parseTagPath path plc with
    | none => refuse cipErrInvalidParam
    | some (place, tag, indexes) =>
      if 0 < indexes.length ∧ indexes.length ≠ tag.dimensions.length then refuse cipErrInvalidParam
      else if payload.length < (if cipService = cipSrvWriteNamedTag then 5 else 9) then
        refuse cipErrInsufficientData
      else if sliceGetUint16Le payload 0 ≠ tag.tagType.toNat then refuse cipErrInvalidParam
      else
        let frag := if cipService = cipSrvWriteNamedTagFrag then sliceGetUint32Le payload 4 else 0
        let data := payload.drop (if cipService = cipSrvWriteNamedTagFrag then 8 else 4)
        match calculateRequestStartAndEndOffsets tag indexes (sliceGetUint16Le payload 2) with
        | none => refuse cipErrInvalidParam
        | some (start, stop) =>
          if stop < data.length + (start + frag) then refuse cipErrInvalidParam
          else ({ plc with tags := plc.tags.set place (tag.write (start + frag) data) },
            (cipResponseHeader cipService cipOk).take output)

/-- `cip_dispatch_request`. `others` serves what opens and closes connections and what runs PCCC
commands. -/
def cipDispatchRequest (others : PlcS → List UInt8 → ℕ → PlcS × List UInt8) (input : List UInt8)
    (output : ℕ) (plc : PlcS) : PlcS × List UInt8 :=
  match parseCipRequest input with
  | none =>
    let service := if input.length < 4 then 0 else sliceGetUint8 input 0
    (plc, makeCipError output service cipErrInvalidParam none)
  | some (service, path, payload) =>
    if service = 0x54 ∨ service = 0x5B ∨ service = 0x4E ∨ service = 0x4B then others plc input output
    else if service = cipSrvReadNamedTag ∨ service = cipSrvReadNamedTagFrag then
      (plc, handleReadRequest service path payload output plc)
    else if service = cipSrvWriteNamedTag ∨ service = cipSrvWriteNamedTagFrag then
      handleWriteRequest service path payload output plc
    else (plc, makeCipError output service cipErrUnsupported none)

/-! ## What the path of a name leads to -/

theorem sliceGetUint16Le_at {p : List UInt8} {n : ℕ} (hp : p.length = n) (v : ℕ) (q : List UInt8) :
    sliceGetUint16Le (p ++ littleEndian 2 v ++ q) n = v % 2 ^ 16 := by
  subst hp
  rw [sliceGetUint16Le, if_pos, load_littleEndian]
  · rfl
  · simp only [List.length_append, littleEndian_length]
    omega

theorem sliceGetUint32Le_at {p : List UInt8} {n : ℕ} (hp : p.length = n) (v : ℕ) (q : List UInt8) :
    sliceGetUint32Le (p ++ littleEndian 4 v ++ q) n = v % 2 ^ 32 := by
  subst hp
  rw [sliceGetUint32Le, if_pos, load_littleEndian]
  · rfl
  · simp only [List.length_append, littleEndian_length]
    omega

theorem numericSegmentAt_numericBytes {i : ℕ} (hi : i < 2 ^ 32) (rest : List UInt8) :
    numericSegmentAt (numericBytes i ++ rest) = some (i, rest) := by
  rw [numericBytes]
  split_ifs with hbig hword
  · have hvalue := sliceGetUint32Le_at (p := [0x2A, 0]) (n := 2) rfl i rest
    rw [Nat.mod_eq_of_lt hi] at hvalue
    show some (sliceGetUint32Le ([0x2A, 0] ++ littleEndian 4 i ++ rest) 2, rest) = _
    rw [hvalue]
  · have hvalue := sliceGetUint16Le_at (p := [0x29, 0]) (n := 2) rfl i rest
    rw [Nat.mod_eq_of_lt (by omega)] at hvalue
    show some (sliceGetUint16Le ([0x29, 0] ++ littleEndian 2 i ++ rest) 2, rest) = _
    rw [hvalue]
  · have hvalue : (byteOf i 0).toNat = i := by
      rw [byteOf_toNat]
      omega
    show some ((byteOf i 0).toNat, rest) = _
    rw [hvalue]

theorem parseIndexes_indices {indexes : List ℕ} (h : ∀ i ∈ indexes, i < 2 ^ 32) (before : List ℕ)
    {fuel : ℕ} (hfew : before.length + indexes.length ≤ cipTagMaxIndexes) (hfuel : indexes.length ≤ fuel) :
    parseIndexes fuel (indexes.flatMap numericBytes) before = some (before ++ indexes) := by
  induction indexes generalizing before fuel with
  | nil =>
    rw [List.flatMap_nil, List.append_nil]
    cases fuel <;> rfl
  | cons i indexes ih =>
    rw [List.length_cons] at hfew hfuel
    obtain ⟨fuel, rfl⟩ := Nat.exists_eq_succ_of_ne_zero (show fuel ≠ 0 by omega)
    have hsegment := numericSegmentAt_numericBytes (h i List.mem_cons_self) (indexes.flatMap numericBytes)
    have hrest := ih (fun j hj => h j (List.mem_cons_of_mem i hj)) (before ++ [i])
      (by rw [List.length_append, List.length_singleton]; omega) (Nat.le_of_succ_le_succ hfuel)
    obtain ⟨b, bs, hb⟩ : ∃ b bs, numericBytes i = b :: bs := by
      rw [numericBytes]
      split_ifs <;> exact ⟨_, _, rfl⟩
    rw [List.flatMap_cons]
    rw [hb, List.cons_append] at hsegment ⊢
    rw [parseIndexes, hsegment]
    dsimp only
    rw [if_neg (by omega), hrest, List.append_assoc]
    rfl

theorem length_le_indices (indexes : List ℕ) : indexes.length ≤ (indexes.flatMap numericBytes).length := by
  refine Codec.length_le_flatMap fun i _ => ?_
  rw [numericBytes]
  split_ifs <;> exact List.cons_ne_nil _ _

/-- The path of an element, or of the whole tag when there are no indexes. -/
def elementPath (name : Text) (indexes : List ℕ) : List UInt8 :=
  (PathSegment.symbol name).bytes ++ indexes.flatMap numericBytes

/-- A request for `count` elements from an element on is for the data of the tag at `place` from `start`
to `stop`. -/
structure Locates (plc : PlcS) (name : Text) (indexes : List ℕ) (count place : ℕ) (tag : TagDef)
    (start stop : ℕ) : Prop where
  first : plc.tags.findIdx? (fun tag => tag.name == name) = some place
  found : plc.tags[place]? = some tag
  short : name.length < 256
  few : indexes.length ≤ cipTagMaxIndexes
  small : ∀ i ∈ indexes, i < 2 ^ 32
  rank : indexes.length ≠ 0 → indexes.length = tag.dimensions.length
  range : calculateRequestStartAndEndOffsets tag indexes count = some (start, stop)

section Path
variable {plc : PlcS} {name : Text} {indexes : List ℕ} {count place start stop : ℕ} {tag : TagDef}

theorem Locates.parseTagPath (h : Locates plc name indexes count place tag start stop) :
    parseTagPath (elementPath name indexes) plc = some (place, tag, indexes) := by
  have hlen : (UInt8.ofNat name.length).toNat = name.length := UInt8.toNat_ofNat_of_lt' h.short
  have hpath : elementPath name indexes = 0x91 :: UInt8.ofNat name.length ::
      (name ++ (PathSegment.pad name ++ indexes.flatMap numericBytes)) := by
    rw [elementPath, PathSegment.bytes, List.cons_append, List.cons_append, List.append_assoc]
  have hrest : ∀ tail : List UInt8, (0x91 :: UInt8.ofNat name.length ::
      (name ++ (PathSegment.pad name ++ tail))).drop
        (if (2 + name.length) % 2 ≠ 0 then 2 + name.length + 1 else 2 + name.length) = tail := by
    intro tail
    have hpad : (PathSegment.pad name).length = if (2 + name.length) % 2 ≠ 0 then 1 else 0 := by
      rw [PathSegment.pad, Nat.add_mod_left]
      split_ifs <;> first | rfl | omega
    have hoffset : (if (2 + name.length) % 2 ≠ 0 then 2 + name.length + 1 else 2 + name.length) =
        name.length + (PathSegment.pad name).length + 2 := by
      rw [hpad]
      split_ifs <;> omega
    rw [hoffset, List.drop_succ_cons, List.drop_succ_cons, ← List.drop_drop, List.drop_left,
      List.drop_left]
  have hindexes := parseIndexes_indices h.small [] (by simpa using h.few)
    (Nat.le_trans (length_le_indices indexes)
      (show _ ≤ (elementPath name indexes).length by rw [elementPath, List.length_append]; omega))
  rw [hpath] at hindexes ⊢
  rw [Cip.parseTagPath, if_neg (by simp), if_neg (by simp [sliceGetUint8])]
  have hget : sliceGetUint8 (0x91 :: UInt8.ofNat name.length ::
      (name ++ (PathSegment.pad name ++ indexes.flatMap numericBytes))) 1 = UInt8.ofNat name.length := rfl
  have hslice : sliceFromSlice (0x91 :: UInt8.ofNat name.length ::
      (name ++ (PathSegment.pad name ++ indexes.flatMap numericBytes))) 2 name.length = name := by
    rw [sliceFromSlice, List.drop_succ_cons, List.drop_succ_cons, List.drop_zero, List.take_left]
  rw [hget, hlen]
  dsimp only
  rw [if_neg (by simp only [List.length_cons, List.length_append]; omega), hslice, h.first, hrest]
  dsimp only
  rw [h.found, hindexes]
  dsimp only
  rw [List.nil_append, if_neg (fun hrank => hrank.2 (h.rank hrank.1))]

theorem parseCipRequest_path {service : UInt8} {path : List UInt8} (payload : List UInt8)
    (heven : 2 ∣ path.length) (hpos : 0 < path.length) (hlt : path.length < 512) :
    parseCipRequest (service :: UInt8.ofNat (path.length / 2) :: (path ++ payload)) =
      some (service, path, payload) := by
  have hwords : (UInt8.ofNat (path.length / 2)).toNat = path.length / 2 :=
    UInt8.toNat_ofNat_of_lt' (show path.length / 2 < 256 by omega)
  have hdouble : path.length / 2 * 2 = path.length := Nat.div_mul_cancel heven
  have hget : sliceGetUint8 (UInt8.ofNat (path.length / 2) :: (path ++ payload)) 0 =
      UInt8.ofNat (path.length / 2) := rfl
  have hextract : extractCipPath (UInt8.ofNat (path.length / 2) :: (path ++ payload)) =
      some (path, payload) := by
    rw [extractCipPath, if_neg (by simp), hget, hwords]
    dsimp only
    rw [if_neg (by omega), if_neg (by simp only [List.length_cons, List.length_append]; omega), hdouble,
      sliceFromSlice, Nat.add_comm 1, List.drop_succ_cons, List.drop_succ_cons, List.drop_zero,
      List.take_left, List.drop_left]
  rw [parseCipRequest, if_neg, List.drop_succ_cons, List.drop_zero, hextract]
  · rfl
  · simp only [List.length_cons, List.length_append]
    omega

theorem elementPath_eq (name : Text) (indexes : List ℕ) : elementPath name indexes =
    (PathSegment.symbol name :: indexes.map numericSegment).flatMap PathSegment.bytes := by
  rw [elementPath, List.flatMap_cons, flatMap_numericSegment]

theorem even_elementPath (hname : name.length < 256) (indexes : List ℕ) :
    2 ∣ (elementPath name indexes).length := by
  rw [elementPath_eq]
  refine even_flatMap fun seg hseg => ?_
  rcases List.mem_cons.mp hseg with rfl | hseg
  · exact hname
  · obtain ⟨i, -, rfl⟩ := List.mem_map.mp hseg
    exact wf_numericSegment i

theorem length_indices_le (indexes : List ℕ) :
    (indexes.flatMap numericBytes).length ≤ 6 * indexes.length := by
  induction indexes with
  | nil => exact le_rfl
  | cons i indexes ih =>
    have hlen : (numericBytes i).length ≤ 6 := by
      rw [numericBytes]
      split_ifs <;> simp
    rw [List.flatMap_cons, List.length_append, List.length_cons]
    omega

theorem Locates.length_path (h : Locates plc name indexes count place tag start stop) :
    0 < (elementPath name indexes).length ∧ (elementPath name indexes).length < 512 := by
  have hindexes := length_indices_le indexes
  have hfew := h.few
  have hshort := h.short
  have hpad : (PathSegment.pad name).length ≤ 1 := by
    rw [PathSegment.pad]
    split_ifs <;> simp
  unfold cipTagMaxIndexes at hfew
  rw [elementPath, PathSegment.bytes]
  simp only [List.length_append, List.length_cons]
  omega

/-- A request as it is sent: the service, the path and its number of words, the payload. -/
def packet (service : UInt8) (path payload : List UInt8) : List UInt8 :=
  service :: UInt8.ofNat (path.length / 2) :: (path ++ payload)

theorem Locates.parseCipRequest (h : Locates plc name indexes count place tag start stop) (service : UInt8)
    (payload : List UInt8) : parseCipRequest (packet service (elementPath name indexes) payload) =
      some (service, elementPath name indexes, payload) :=
  parseCipRequest_path payload (even_elementPath h.short indexes) h.length_path.1 h.length_path.2

theorem length_of_range (h : calculateRequestStartAndEndOffsets tag indexes count = some (start, stop)) :
    stop = start + count * tag.elemSize ∧ stop ≤ tag.data.length := by
  rw [tag.length_data]
  unfold calculateRequestStartAndEndOffsets at h
  dsimp only at h
  split_ifs at h
  cases hlinear : linearOffset tag.dimensions indexes with
  | none =>
    rw [hlinear] at h
    exact absurd h (by simp)
  | some offset =>
    rw [hlinear] at h
    dsimp only at h
    split_ifs at h with _ _ hfits
    obtain ⟨rfl, rfl⟩ := Prod.mk.inj (Option.some.inj h)
    exact ⟨rfl, Nat.le_of_not_lt hfits⟩

end Path

/-! ## Serving a request -/

section Serve
variable {plc : PlcS} {name : Text} {indexes : List ℕ} {count place start stop output : ℕ} {tag : TagDef}
  {others : PlcS → List UInt8 → ℕ → PlcS × List UInt8}

/-- Something is sent in every reply, and the status says whether there is more. -/
theorem readFragment_piece (service : UInt8) (hsize : 0 < tag.elemSize)
    (hroom : 6 + minDataElementSize tag ≤ output) (hlt : start < stop) :
    ∃ n > 0, start + n ≤ stop ∧ readFragment service tag start stop output =
      cipResponseHeader service (if start + n < stop then cipErrFrag else cipOk) ++
        (littleEndian 2 tag.tagType.toNat ++ (tag.data.drop start).take n) := by
  have hmin : 0 < minDataElementSize tag := by
    rw [minDataElementSize]
    split_ifs <;> omega
  have hone : minDataElementSize tag ≤
      (output - (4 + 2)) / minDataElementSize tag * minDataElementSize tag := by
    have hdiv : 1 ≤ (output - (4 + 2)) / minDataElementSize tag :=
      (Nat.one_le_div_iff hmin).mpr (by omega)
    calc minDataElementSize tag = 1 * minDataElementSize tag := (Nat.one_mul _).symm
      _ ≤ _ := Nat.mul_le_mul_right _ hdiv
  refine ⟨min ((output - (4 + 2)) / minDataElementSize tag * minDataElementSize tag) (stop - start),
    lt_min (by omega) (by omega), by omega, ?_⟩
  rw [readFragment]
  dsimp only
  rw [if_neg (by omega), if_neg (by omega)]

theorem Locates.serve_read (h : Locates plc name indexes count place tag start stop)
    (hplc : plc.plcType ≠ .omron) (hcount : count < 2 ^ 16) {k : ℕ} (hk : start + k ≤ stop)
    (hsmall : k < 2 ^ 32) :
    cipDispatchRequest others (packet cipSrvReadNamedTagFrag (elementPath name indexes)
        (littleEndian 2 count ++ littleEndian 4 k)) output plc =
      (plc, readFragment cipSrvReadNamedTagFrag tag (start + k) stop output) := by
  have hcountAt : sliceGetUint16Le (littleEndian 2 count ++ littleEndian 4 k) 0 = count :=
    (sliceGetUint16Le_at (p := []) rfl count (littleEndian 4 k)).trans (Nat.mod_eq_of_lt hcount)
  have hkAt : sliceGetUint32Le (littleEndian 2 count ++ littleEndian 4 k) 2 = k := by
    have hat := sliceGetUint32Le_at (littleEndian_length 2 count) k []
    rwa [List.append_nil, Nat.mod_eq_of_lt hsmall] at hat
  rw [cipDispatchRequest, h.parseCipRequest]
  dsimp only
  rw [if_neg (by decide), if_pos (by decide), handleReadRequest]
  dsimp only
  rw [if_neg (fun homron => hplc homron.1), if_neg (by rw [if_neg (by decide)]; simp), h.parseTagPath]
  dsimp only
  rw [if_pos rfl, if_pos rfl, if_neg (by simp), hcountAt, h.range, hkAt]
  dsimp only
  rw [if_neg (by omega)]

/-- A write request names a part of the tag when it is one of several, and then it has another service. -/
def writePayload (tag : TagDef) (count : ℕ) (part : Option ℕ) (data : List UInt8) : List UInt8 :=
  littleEndian 2 tag.tagType.toNat ++
    (littleEndian 2 count ++ (part.elim [] (littleEndian 4 ·) ++ data))

def writeService (part : Option ℕ) : UInt8 :=
  if part.isSome then cipSrvWriteNamedTagFrag else cipSrvWriteNamedTag

theorem Locates.serve_write (h : Locates plc name indexes count place tag start stop)
    (hplc : plc.plcType ≠ .omron) (hcount : count < 2 ^ 16) {part : Option ℕ}
    (hsmall : ∀ k ∈ part, k < 2 ^ 32) {data : List UInt8} (hdata : data ≠ [])
    (hfits : start + part.getD 0 + data.length ≤ stop) :
    cipDispatchRequest others (packet (writeService part) (elementPath name indexes)
        (writePayload tag count part data)) output plc =
      ({ plc with tags := plc.tags.set place (tag.write (start + part.getD 0) data) },
        (cipResponseHeader (writeService part) cipOk).take output) := by
  have hpos := List.length_pos_of_ne_nil hdata
  have htype : sliceGetUint16Le (writePayload tag count part data) 0 = tag.tagType.toNat :=
    (sliceGetUint16Le_at (p := []) rfl tag.tagType.toNat _).trans (Nat.mod_eq_of_lt tag.tagType.toNat_lt)
  have hcountAt : sliceGetUint16Le (writePayload tag count part data) 2 = count := by
    have hat := sliceGetUint16Le_at (littleEndian_length 2 tag.tagType.toNat) count
      (part.elim [] (littleEndian 4 ·) ++ data)
    rwa [List.append_assoc, Nat.mod_eq_of_lt hcount] at hat
  have hpart : (if writeService part = cipSrvWriteNamedTagFrag then
      sliceGetUint32Le (writePayload tag count part data) 4 else 0) = part.getD 0 := by
    cases part with
    | none => rfl
    | some k =>
      have hfront : (littleEndian 2 tag.tagType.toNat ++ littleEndian 2 count).length = 4 := by simp
      have hat := sliceGetUint32Le_at hfront k data
      rw [List.append_assoc, List.append_assoc, Nat.mod_eq_of_lt (hsmall k rfl)] at hat
      exact hat
  have hrest : (writePayload tag count part data).drop
      (if writeService part = cipSrvWriteNamedTagFrag then 8 else 4) = data := by
    cases part with
    | none => rfl
    | some k => rfl
  have hlong : ¬ (writePayload tag count part data).length <
      (if writeService part = cipSrvWriteNamedTag then 5 else 9) := by
    cases part with
    | none =>
      have hfive : (if writeService none = cipSrvWriteNamedTag then 5 else 9) = 5 := rfl
      rw [hfive]
      simp only [writePayload, List.length_append, littleEndian_length, Option.elim_none, List.length_nil]
      omega
    | some k =>
      have hnine : (if writeService (some k) = cipSrvWriteNamedTag then 5 else 9) = 9 := rfl
      rw [hnine]
      simp only [writePayload, List.length_append, littleEndian_length, Option.elim_some]
      omega
  have hservice : writeService part = cipSrvWriteNamedTag ∨ writeService part = cipSrvWriteNamedTagFrag := by
    cases part with
    | none => exact .inl rfl
    | some k => exact .inr rfl
  rw [cipDispatchRequest, h.parseCipRequest]
  dsimp only
  rw [if_neg (by rcases hservice with hs | hs <;> rw [hs] <;> decide),
    if_neg (by rcases hservice with hs | hs <;> rw [hs] <;> decide), if_pos hservice, handleWriteRequest]
  dsimp only
  rw [if_neg (fun homron => hplc homron.1), h.parseTagPath]
  dsimp only
  rw [if_neg (fun hrank => hrank.2 (h.rank (Nat.ne_of_gt hrank.1))), if_neg hlong, htype,
    if_neg (fun hne => hne rfl), hcountAt, h.range, hpart, hrest]
  dsimp only
  rw [if_neg (by omega)]

@[simp] theorem TagDef.write_name (tag : TagDef) (start : ℕ) (data : List UInt8) :
    (tag.write start data).name = tag.name := by
  rw [TagDef.write]
  split_ifs <;> rfl

@[simp] theorem TagDef.write_tagType (tag : TagDef) (start : ℕ) (data : List UInt8) :
    (tag.write start data).tagType = tag.tagType := by
  rw [TagDef.write]
  split_ifs <;> rfl

@[simp] theorem TagDef.write_elemSize (tag : TagDef) (start : ℕ) (data : List UInt8) :
    (tag.write start data).elemSize = tag.elemSize := by
  rw [TagDef.write]
  split_ifs <;> rfl

@[simp] theorem TagDef.write_dimensions (tag : TagDef) (start : ℕ) (data : List UInt8) :
    (tag.write start data).dimensions = tag.dimensions := by
  rw [TagDef.write]
  split_ifs <;> rfl

theorem TagDef.write_data {tag : TagDef} {start : ℕ} {data : List UInt8}
    (h : start + data.length ≤ tag.data.length) : (tag.write start data).data = put tag.data start data := by
  rw [TagDef.write, dif_pos h]

theorem findIdx_set {α : Type} {l : List α} {p : α → Bool} {i : ℕ} {a b : α} (hi : l[i]? = some b)
    (hab : p a = p b) : (l.set i a).findIdx? p = l.findIdx? p := by
  have hmap : (l.set i a).map p = l.map p := by
    rw [List.map_set, hab]
    refine List.ext_getElem? fun j => ?_
    rw [List.getElem?_set]
    split_ifs with hj hlt
    · subst hj
      rw [List.getElem?_map, hi]
      rfl
    · subst hj
      rw [List.getElem?_eq_none (Nat.le_of_not_lt hlt)]
    · rfl
  have hfind : ∀ l : List α, l.findIdx? p = (l.map p).findIdx? id := fun l => by
    rw [List.findIdx?_map]
    rfl
  rw [hfind, hmap, ← hfind]

/-- A tag that was written is found where it was. -/
theorem Locates.write (h : Locates plc name indexes count place tag start stop) (p : ℕ)
    (data : List UInt8) :
    Locates { plc with tags := plc.tags.set place (tag.write p data) } name indexes count place
      (tag.write p data) start stop := by
  have hlt : place < plc.tags.length := (List.getElem?_eq_some_iff.mp h.found).1
  refine ⟨(findIdx_set h.found ?_).trans h.first, List.getElem?_set_self hlt, h.short, h.few, h.small,
    ?_, ?_⟩
  · rw [TagDef.write_name]
  · rw [TagDef.write_dimensions]
    exact h.rank
  · have hrange := h.range
    unfold calculateRequestStartAndEndOffsets at hrange ⊢
    rwa [TagDef.write_dimensions, TagDef.write_elemSize]

end Serve

end Plctagt.Cip
