import Plctagt.Foundations.Pieces
import Plctagt.Tag.Operations

/-! # A tag that is read and written in fragments

The connected half of `eip_cip.c`: what a read or a write of a tag asks for does not have to fit into one
packet, so the tag has an offset, a reply may bring only the next part, and the tickler goes on with the
next request until nothing is missing. A request and a reply are here the CIP packets inside of the EIP
packets: from behind the sequence number up to the end that `encap_length` gives.
-/
namespace Plctagt.Cip
open Bytes Pieces Tag
set_option autoImplicit false

abbrev plctagErrTooSmall : ℤ := -34
abbrev plctagErrBadData : ℤ := -4

/-- What a tag is told by its session and by others: the room for a CIP packet, the code of the library
for the bytes from the status of a reply on, and what `mem_realloc` leaves in new cells. -/
structure Session where
  available : ℕ
  decodeCipErrorCode : List UInt8 → ℤ
  fresh : ℕ → UInt8

/-- Of `ab_tag_t` what the functions here use. `size` is the number of cells of `data`, and `req` the
packet that was handed to the session and not yet given up. `wild` is not of the source: whether bytes
were copied to cells in front of the buffer. -/
structure AbTag where
  encodedName : List UInt8
  encodedTypeInfo : List UInt8
  elemCount : ℕ
  elemSize : ℕ
  data : List UInt8
  strPadToMultipleBytes : ℕ
  bit : Option ℕ
  offset : ℤ
  preWriteRead : Bool
  firstRead : Bool
  readInProgress : Bool
  writeInProgress : Bool
  readComplete : Bool
  writeComplete : Bool
  status : ℤ
  req : Option (List UInt8)
  wild : Bool
  deriving DecidableEq

namespace AbTag

def size (tag : AbTag) : ℕ := tag.data.length

/-- `ab_tag_abort_request_only`. -/
def abortRequestOnly (tag : AbTag) : AbTag :=
  { tag with req := none, readInProgress := false, writeInProgress := false }

/-- `ab_tag_abort_request`. -/
def abortRequest (tag : AbTag) : AbTag := { tag.abortRequestOnly with offset := 0 }

end AbTag

abbrev abEipCmdCipRead : UInt8 := 0x4C
abbrev abEipCmdCipWrite : UInt8 := 0x4D
abbrev abEipCmdCipRmw : UInt8 := 0x4E
abbrev abEipCmdCipReadFrag : UInt8 := 0x52
abbrev abEipCmdCipWriteFrag : UInt8 := 0x53
abbrev abEipCmdCipOk : UInt8 := 0x80

abbrev abCipStatusOk : UInt8 := 0
abbrev abCipStatusFrag : UInt8 := 0x06

/-! ## Requests -/

/-- An `int` as the four bytes of a `uint32_t`. -/
def le32 (v : ℤ) : List UInt8 := littleEndian 4 (v % 2 ^ 32).toNat

def readRequest (tag : AbTag) (byteOffset : ℤ) : List UInt8 :=
  abEipCmdCipReadFrag :: (tag.encodedName ++ (littleEndian 2 tag.elemCount ++ le32 byteOffset))

def buildReadRequestConnected (s : Session) (tag : AbTag) (byteOffset : ℤ) : ℤ × AbTag :=
  let request := readRequest tag byteOffset
  -- the sequence number is counted in
  if s.available < 2 + request.length then (plctagErrTooLarge, tag.abortRequest)
  else (plctagStatusOk, { tag with req := some request })

/-- All of a write request but the data, and eight bytes more. -/
def writeOverhead (tag : AbTag) : ℕ :=
  let overhead := 1 + tag.encodedName.length + tag.encodedTypeInfo.length + 2 + 4 + 8
  if overhead % 2 = 1 then overhead + 1 else overhead

/-- `none` is `PLCTAG_ERR_TOO_LARGE`. -/
def calculateWriteDataPerPacket (s : Session) (tag : AbTag) : Option ℕ :=
  if s.available ≤ writeOverhead tag then none
  else
    let dataPerPacket := s.available - writeOverhead tag
    let unit := if tag.elemSize < 8 then tag.elemSize else 8
    if dataPerPacket / unit < 1 then none else some (dataPerPacket / unit * unit)

/-- The two masks of a read-modify-write request for one bit. -/
def bitMasks (tag : AbTag) (bit : ℕ) : List UInt8 :=
  let mask : UInt8 := 1 <<< UInt8.ofNat (bit % 8)
  let set := tag.data.getD (bit / 8) 0 &&& mask ≠ 0
  (List.range tag.elemSize).map (fun i => if bit / 8 = i ∧ set then mask else 0) ++
    (List.range tag.elemSize).map (fun i => if bit / 8 = i ∧ ¬ set then ~~~ mask else 0xFF)

def buildWriteBitRequestConnected (s : Session) (tag : AbTag) (bit : ℕ) : ℤ × AbTag :=
  match calculateWriteDataPerPacket s tag with
  | none => (plctagErrTooLarge, tag)
  | some perPacket =>
    if perPacket < tag.size * 2 + 2 then (plctagErrTooSmall, tag)
    else
      let request := abEipCmdCipRmw :: (tag.encodedName ++ (littleEndian 2 tag.elemSize ++ bitMasks tag bit))
      -- the write is done after this one
      (plctagStatusOk, { tag with offset := tag.size, req := some request })

/-- The data of a request from `offset` on, with the zeros that follow. -/
def writeChunk (tag : AbTag) (perPacket : ℕ) : List UInt8 :=
  (tag.data.drop tag.offset.toNat).take perPacket

def padding (tag : AbTag) (writeSize : ℕ) : List UInt8 :=
  let unit := tag.strPadToMultipleBytes
  if (unit = 2 ∨ unit = 4) ∧ writeSize ≠ 0 ∧ writeSize % unit ≠ 0 then
    List.replicate (unit - writeSize % unit) 0
  else []

def writeRequest (tag : AbTag) (perPacket : ℕ) (byteOffset : ℤ) : List UInt8 :=
  let multipleRequests := perPacket < tag.size
  let chunk := writeChunk tag perPacket
  (if multipleRequests then abEipCmdCipWriteFrag else abEipCmdCipWrite) :: (tag.encodedName ++
    (tag.encodedTypeInfo ++ (littleEndian 2 tag.elemCount ++
      ((if multipleRequests then le32 byteOffset else []) ++ (chunk ++ padding tag chunk.length)))))

def buildWriteRequestConnected (s : Session) (tag : AbTag) (byteOffset : ℤ) : ℤ × AbTag :=
  match tag.bit with
  | some bit => buildWriteBitRequestConnected s tag bit
  | none =>
    match calculateWriteDataPerPacket s tag with
    | none => (plctagErrTooLarge, tag)
    | some perPacket =>
      if tag.encodedTypeInfo = [] then (plctagErrUnsupported, tag)
      else (plctagStatusOk, { tag with
        offset := tag.offset + (writeChunk tag perPacket).length,
        req := some (writeRequest tag perPacket byteOffset) })

/-! ## Starting -/

def tagReadStart (s : Session) (tag : AbTag) : ℤ × AbTag :=
  if tag.readInProgress || tag.writeInProgress then (plctagErrBusy, tag)
  else
    let built := buildReadRequestConnected s { tag with readInProgress := true } tag.offset
    if built.1 ≠ plctagStatusOk then (built.1, { built.2 with readInProgress := false })
    else (plctagStatusPending, built.2)

/-- The first read tells the type, so one that has not been done is done before the write. -/
def tagWriteStart (s : Session) (tag : AbTag) : ℤ × AbTag :=
  if tag.readInProgress || tag.writeInProgress then (plctagErrBusy, tag)
  else if tag.firstRead then tagReadStart s { tag with preWriteRead := true }
  else
    let built := buildWriteRequestConnected s { tag with writeInProgress := true } tag.offset
    if built.1 ≠ plctagStatusOk then (built.1, { built.2 with writeInProgress := false })
    else (plctagStatusPending, built.2)

/-! ## Replies -/

/-- `cip_lookup_encoded_type_size`; `none` is no match. -/
def cipLookupEncodedTypeSize (typeByte : UInt8) : Option ℕ :=
  if (0x04 ≤ typeByte ∧ typeByte ≤ 0x0B) ∨ (0xC0 ≤ typeByte ∧ typeByte ≤ 0xDE) then some 2
  else if typeByte = 0xA0 ∨ typeByte = 0xA1 then some 4
  else none

/-- The type that a reply begins with. The buffer of a reply is zero behind its end. -/
def replyTypeInfo (payload : List UInt8) : Option (List UInt8) :=
  (cipLookupEncodedTypeSize (payload.getD 0 0)).bind fun typeLength =>
    let typeLength := if typeLength = 0 then (payload.getD 1 0).toNat + 2 else typeLength
    if typeLength = 0 then none else some ((List.range typeLength).map (payload.getD · 0))

/-- A buffer that has `newSize` cells, with `mem_realloc` when it had fewer. -/
def reserve (s : Session) (data : List UInt8) (newSize : ℤ) : List UInt8 :=
  data ++ (List.range (newSize.toNat - data.length)).map fun i => s.fresh (data.length + i)

/-- The data of a reply, which come behind the type, into the buffer, with more memory when it needs it;
not when the buffer holds what is to be written. -/
def copyData (s : Session) (tag : AbTag) (payload : List UInt8) : AbTag :=
  let payloadSize : ℤ := payload.length - tag.encodedTypeInfo.length
  let newSize := payloadSize + tag.offset
  let data := reserve s tag.data newSize
  let copies := !tag.preWriteRead && decide (0 < payloadSize)
  { tag with
    elemSize := if tag.size < newSize then newSize.toNat / tag.elemCount else tag.elemSize
    data := if copies then put data tag.offset.toNat (payload.drop tag.encodedTypeInfo.length) else data
    wild := tag.wild || copies && decide (tag.offset < 0)
    offset := tag.offset + payloadSize }

/-- What `check_read_status_connected` makes of a reply, before it lets go of the request: the status,
whether there is more to come, and the tag. -/
def takeReadReply (s : Session) (tag : AbTag) (reply : List UInt8) : ℤ × Bool × AbTag :=
  let service := reply.getD 0 0
  let status := reply.getD 2 0
  if service ≠ abEipCmdCipReadFrag ||| abEipCmdCipOk ∧ service ≠ abEipCmdCipRead ||| abEipCmdCipOk then
    (plctagErrBadData, false, tag)
  else if status ≠ abCipStatusOk ∧ status ≠ abCipStatusFrag then
    (s.decodeCipErrorCode (reply.drop 2), false, tag)
  else
    let partialData := status == abCipStatusFrag
    let payload := reply.drop 4
    if payload = [] then (plctagStatusOk, partialData, tag)
    else if tag.encodedTypeInfo ≠ [] then (plctagStatusOk, partialData, copyData s tag payload)
    else
      match replyTypeInfo payload with
      | none => (plctagErrUnsupported, partialData, tag)
      | some typeInfo =>
        (plctagStatusOk, partialData, copyData s { tag with encodedTypeInfo := typeInfo } payload)

def checkReadStatusConnected (s : Session) (tag : AbTag) (reply : List UInt8) : ℤ × AbTag :=
  let taken := takeReadReply s tag reply
  let tag := taken.2.2.abortRequestOnly
  let next :=
    if taken.1 ≠ plctagStatusOk then (taken.1, tag)
    else if ¬ tag.preWriteRead ∧ taken.2.1 then tagReadStart s tag
    else if tag.preWriteRead then tagWriteStart s { tag with offset := 0, preWriteRead := false }
    else (plctagStatusOk, { tag with offset := 0 })
  if next.1 ≠ plctagStatusPending then (next.1, next.2.abortRequest) else next

def writeReplyStatus (s : Session) (reply : List UInt8) : ℤ :=
  let service := reply.getD 0 0
  let status := reply.getD 2 0
  if service ≠ abEipCmdCipWriteFrag ||| abEipCmdCipOk ∧ service ≠ abEipCmdCipWrite ||| abEipCmdCipOk ∧
      service ≠ abEipCmdCipRmw ||| abEipCmdCipOk then plctagErrBadData
  else if status ≠ abCipStatusOk ∧ status ≠ abCipStatusFrag then s.decodeCipErrorCode (reply.drop 2)
  else plctagStatusOk

def checkWriteStatusConnected (s : Session) (tag : AbTag) (reply : List UInt8) : ℤ × AbTag :=
  let rc := writeReplyStatus s reply
  let tag := tag.abortRequestOnly
  if rc = plctagStatusOk then
    if tag.offset < tag.size then tagWriteStart s tag else (plctagStatusOk, { tag with offset := 0 })
  else (rc, { tag with offset := 0 })

/-! ## The tickler -/

/-- What has become of a request: nothing yet, an error of the session or of the EIP header, or a
reply. -/
inductive Arrival where
  | pending
  | failed (rc : ℤ) (error : rc < 0)
  | reply (cip : List UInt8)

/-- `check_request_status`. -/
def checkRequestStatus (tag : AbTag) (arrival : Arrival) : ℤ × AbTag :=
  match tag.req with
  | none =>
    let tag := if tag.readInProgress || tag.writeInProgress then
      { tag with readInProgress := false, writeInProgress := false, offset := 0 } else tag
    (plctagStatusOk, { tag with status := plctagStatusOk })
  | some _ =>
    match arrival with
    | .pending => (plctagStatusPending, { tag with status := plctagStatusPending })
    | .failed rc _ => (rc, { tag.abortRequest with status := rc })
    | .reply _ => (plctagStatusOk, { tag with status := plctagStatusOk })

def tagTickler (s : Session) (tag : AbTag) (arrival : Arrival) : ℤ × AbTag :=
  let checked := checkRequestStatus tag arrival
  let tag := checked.2
  if checked.1 ≠ plctagStatusOk then checked
  else
    match arrival with
    | .reply cip =>
      if tag.readInProgress then
        let r := checkReadStatusConnected s tag cip
        let tag := { r.2 with status := r.1 }
        (r.1, if tag.readInProgress then tag else { tag with firstRead := false, readComplete := true })
      else if tag.writeInProgress then
        let r := checkWriteStatusConnected s tag cip
        let tag := { r.2 with status := r.1 }
        (r.1, if tag.writeInProgress then tag else { tag with writeComplete := true })
      else (tag.status, tag)
    | _ => (tag.status, tag)

/-! ## A read, reply by reply -/

@[simp] theorem length_le32 (v : ℤ) : (le32 v).length = 4 := littleEndian_length 4 _

theorem length_readRequest (tag : AbTag) (byteOffset : ℤ) :
    (readRequest tag byteOffset).length = tag.encodedName.length + 7 := by
  simp only [readRequest, List.length_cons, List.length_append, littleEndian_length, length_le32]

/-- A type that the library knows, as long as it says. -/
def KnownType (typeInfo : List UInt8) : Prop :=
  0 < typeInfo.length ∧ cipLookupEncodedTypeSize (typeInfo.getD 0 0) = some typeInfo.length

instance decidableKnownType (typeInfo : List UInt8) : Decidable (KnownType typeInfo) :=
  inferInstanceAs (Decidable (_ ∧ _))

theorem replyTypeInfo_append {typeInfo : List UInt8} (h : KnownType typeInfo) (rest : List UInt8) :
    replyTypeInfo (typeInfo ++ rest) = some typeInfo := by
  obtain ⟨hpos, hlookup⟩ := h
  have hget : ∀ i < typeInfo.length, (typeInfo ++ rest).getD i 0 = typeInfo.getD i 0 := fun i hi => by
    rw [List.getD_eq_getElem?_getD, List.getD_eq_getElem?_getD, List.getElem?_append_left hi]
  rw [replyTypeInfo, hget 0 hpos, hlookup, Option.bind_some, if_neg (Nat.ne_of_gt hpos)]
  dsimp only
  rw [if_neg (Nat.ne_of_gt hpos)]
  refine congrArg some (List.ext_getElem (by rw [List.length_map, List.length_range]) fun i hi₁ hi₂ => ?_)
  rw [List.getElem_map, List.getElem_range, hget i hi₂, List.getD_eq_getElem _ _ hi₂]

/-- What a reply to a fragmented read says: the type, and some of the data. -/
def fragmentReply (typeInfo data : List UInt8) (last : Bool) : List UInt8 :=
  [abEipCmdCipReadFrag ||| abEipCmdCipOk, 0, if last then abCipStatusOk else abCipStatusFrag, 0] ++
    (typeInfo ++ data)

section Read
variable {s : Session} {tag : AbTag} {typeInfo mem : List UInt8} {k n : ℕ}

/-- The buffer grows with what comes. -/
def grownElemSize (tag : AbTag) (k : ℕ) : ℕ := if tag.size < k then k / tag.elemCount else tag.elemSize

/-- The tag when `k` bytes of `mem` have come and the next ones are asked for. -/
def reading (tag : AbTag) (typeInfo mem : List UInt8) (k : ℕ) : AbTag :=
  { tag with
    encodedTypeInfo := if k = 0 then tag.encodedTypeInfo else typeInfo
    elemSize := grownElemSize tag k
    data := put tag.data 0 (mem.take k)
    offset := k
    readInProgress := true
    status := if k = 0 then tag.status else plctagStatusPending
    req := some (readRequest tag k) }

/-- The tag when all of `mem` has come. -/
def readDone (tag : AbTag) (typeInfo mem : List UInt8) : AbTag :=
  { tag with
    encodedTypeInfo := typeInfo
    elemSize := grownElemSize tag mem.length
    data := put tag.data 0 mem
    offset := 0
    readInProgress := false
    firstRead := false
    readComplete := true
    status := plctagStatusOk
    req := none }

/-- Nothing is under way. -/
structure AbTag.Idle (tag : AbTag) : Prop where
  read : tag.readInProgress = false
  write : tag.writeInProgress = false
  pre : tag.preWriteRead = false
  offset : tag.offset = 0

theorem buildReadRequestConnected_ok {t : AbTag} (hroom : t.encodedName.length + 9 ≤ s.available)
    (byteOffset : ℤ) : buildReadRequestConnected s t byteOffset =
      (plctagStatusOk, { t with req := some (readRequest t byteOffset) }) := by
  rw [buildReadRequestConnected, if_neg (by rw [length_readRequest]; omega)]

theorem tagReadStart_pending {t : AbTag} (hread : t.readInProgress = false)
    (hwrite : t.writeInProgress = false) (hroom : t.encodedName.length + 9 ≤ s.available) :
    tagReadStart s t = (plctagStatusPending,
      { t with readInProgress := true, req := some (readRequest t t.offset) }) := by
  have hbuilt := buildReadRequestConnected_ok (t := { t with readInProgress := true }) hroom t.offset
  rw [tagReadStart, if_neg (by rw [hread, hwrite]; simp), hbuilt]
  rfl

theorem tagReadStart_reading (h : tag.Idle) (hroom : tag.encodedName.length + 9 ≤ s.available)
    (typeInfo mem : List UInt8) :
    tagReadStart s tag = (plctagStatusPending, reading tag typeInfo mem 0) := by
  have hgrown : grownElemSize tag 0 = tag.elemSize := if_neg (Nat.not_lt_zero _)
  rw [tagReadStart_pending h.read h.write hroom, reading, hgrown, List.take_zero, put_nil, h.offset]
  simp

theorem length_put_take (tag : AbTag) (h : k ≤ mem.length) :
    (put tag.data 0 (mem.take k)).length = max tag.size k := by
  rw [put, List.take_zero, List.nil_append, List.length_append, List.length_drop,
    List.length_take_of_le h, Nat.zero_add]
  unfold AbTag.size
  omega

theorem put_reserve {data chunk : List UInt8} (hk : k ≤ data.length) (hlen : chunk.length = n) :
    put (reserve s data (n + k : ℤ)) k chunk = put data k chunk := by
  have hnew : ((n : ℤ) + k).toNat = k + n := by omega
  rw [reserve, hnew]
  by_cases hfits : k + n ≤ data.length
  · rw [Nat.sub_eq_zero_of_le hfits, List.range_zero, List.map_nil, List.append_nil]
  · refine put_extend hk ?_
    rw [List.length_map, List.length_range, hlen]
    omega

/-- The data of one reply. -/
theorem copyData_reading (hpre : tag.preWriteRead = false) (hn : 0 < n) (hk : k + n ≤ mem.length) :
    copyData s { reading tag typeInfo mem k with encodedTypeInfo := typeInfo, status := plctagStatusOk }
        (typeInfo ++ (mem.drop k).take n) =
      { reading tag typeInfo mem (k + n) with
        encodedTypeInfo := typeInfo, status := plctagStatusOk, req := some (readRequest tag k) } := by
  have hchunk : ((mem.drop k).take n).length = n := by
    rw [List.length_take, List.length_drop]
    omega
  have hold := length_put_take tag (show k ≤ mem.length by omega)
  have hpayload : ((typeInfo ++ (mem.drop k).take n).length : ℤ) - typeInfo.length = n := by
    rw [List.length_append, hchunk]
    push_cast
    omega
  have hput : put (put tag.data 0 (mem.take k)) k ((mem.drop k).take n) =
      put tag.data 0 (mem.take (k + n)) := by
    have happend := put_append (Nat.zero_le tag.data.length) (mem.take k) ((mem.drop k).take n)
    rwa [List.length_take_of_le (show k ≤ mem.length by omega), Nat.zero_add, take_append_take_drop]
      at happend
  have hsize : (if ((max tag.size k : ℕ) : ℤ) < n + k then ((n : ℤ) + k).toNat / tag.elemCount
      else grownElemSize tag k) = grownElemSize tag (k + n) := by
    have hnew : ((n : ℤ) + k).toNat = k + n := by omega
    unfold grownElemSize
    rw [hnew]
    split_ifs <;> first | rfl | omega
  have hcopies : (!tag.preWriteRead && decide (0 < (n : ℤ))) = true := by
    rw [hpre, decide_eq_true (by omega)]
    rfl
  have hwild : (tag.wild || true && decide ((k : ℤ) < 0)) = tag.wild := by
    rw [decide_eq_false (by omega), Bool.and_false, Bool.or_false]
  unfold copyData reading AbTag.size
  simp only [hpayload, hold, hsize, hcopies, hwild, List.drop_left, Int.toNat_natCast, if_true]
  rw [put_reserve (by omega) hchunk, hput]
  push_cast
  rfl

theorem withType_eq {t : AbTag} {info : List UInt8} (h : t.encodedTypeInfo = info) :
    { t with encodedTypeInfo := info } = t := by
  subst h
  rfl

theorem reading_encodedTypeInfo (htype : tag.encodedTypeInfo = [] ∨ tag.encodedTypeInfo = typeInfo) :
    (reading tag typeInfo mem k).encodedTypeInfo = [] ∨
      (reading tag typeInfo mem k).encodedTypeInfo = typeInfo := by
  unfold reading
  dsimp only
  split_ifs
  · exact htype
  · exact .inr rfl

theorem takeReadReply_fragment {t : AbTag} (hknown : KnownType typeInfo) (data : List UInt8) (last : Bool) :
    takeReadReply s t (fragmentReply typeInfo data last) = (plctagStatusOk, !last,
      copyData s (if t.encodedTypeInfo = [] then { t with encodedTypeInfo := typeInfo } else t)
        (typeInfo ++ data)) := by
  have hpayload : (fragmentReply typeInfo data last).drop 4 = typeInfo ++ data := rfl
  have hne : typeInfo ++ data ≠ [] := fun hnil =>
    absurd (List.append_eq_nil_iff.mp hnil).1 (List.ne_nil_of_length_pos hknown.1)
  have hservice : (fragmentReply typeInfo data last).getD 0 0 = abEipCmdCipReadFrag ||| abEipCmdCipOk := rfl
  have hstatus : (fragmentReply typeInfo data last).getD 2 0 =
      if last then abCipStatusOk else abCipStatusFrag := rfl
  have hmore : ((if last then abCipStatusOk else abCipStatusFrag) == abCipStatusFrag) = !last := by
    cases last <;> rfl
  have hgood : ¬ ((if last then abCipStatusOk else abCipStatusFrag) ≠ abCipStatusOk ∧
      (if last then abCipStatusOk else abCipStatusFrag) ≠ abCipStatusFrag) := by
    cases last <;> decide
  rw [takeReadReply, hpayload, hstatus]
  dsimp only
  rw [if_neg (fun h => h.1 hservice), if_neg hgood, if_neg hne, replyTypeInfo_append hknown, hmore]
  by_cases htype : t.encodedTypeInfo = []
  · rw [if_neg (not_not_intro htype), if_pos htype]
  · rw [if_pos htype, if_neg htype]

theorem takeReadReply_reading (hknown : KnownType typeInfo)
    (htype : tag.encodedTypeInfo = [] ∨ tag.encodedTypeInfo = typeInfo) (hpre : tag.preWriteRead = false)
    (hn : 0 < n) (hk : k + n ≤ mem.length) (last : Bool) :
    takeReadReply s { reading tag typeInfo mem k with status := plctagStatusOk }
        (fragmentReply typeInfo ((mem.drop k).take n) last) =
      (plctagStatusOk, !last, { reading tag typeInfo mem (k + n) with
        encodedTypeInfo := typeInfo, status := plctagStatusOk, req := some (readRequest tag k) }) := by
  have hcopy := @copyData_reading s tag typeInfo mem k n hpre hn hk
  rw [takeReadReply_fragment hknown]
  rcases @reading_encodedTypeInfo tag typeInfo mem k htype with hnil | hinfo
  · rw [if_pos hnil, hcopy]
  · have hne : typeInfo ≠ [] := List.ne_nil_of_length_pos hknown.1
    have hsame : ({ reading tag typeInfo mem k with
        encodedTypeInfo := typeInfo, status := plctagStatusOk } : AbTag) =
        { reading tag typeInfo mem k with status := plctagStatusOk } :=
      withType_eq (t := { reading tag typeInfo mem k with status := plctagStatusOk }) hinfo
    rw [hsame] at hcopy
    rw [if_neg (by rw [hinfo]; exact hne), hcopy]

theorem checkReadStatus_more {t t' : AbTag} {reply : List UInt8}
    (h : takeReadReply s t reply = (plctagStatusOk, true, t')) (hpre : t'.preWriteRead = false)
    (hroom : t'.encodedName.length + 9 ≤ s.available) : checkReadStatusConnected s t reply =
      (plctagStatusPending, { t'.abortRequestOnly with
        readInProgress := true, req := some (readRequest t' t'.offset) }) := by
  have hstart : tagReadStart s t'.abortRequestOnly = (plctagStatusPending, { t'.abortRequestOnly with
      readInProgress := true, req := some (readRequest t' t'.offset) }) :=
    tagReadStart_pending (t := t'.abortRequestOnly) rfl rfl hroom
  have hmore : ¬ t'.abortRequestOnly.preWriteRead = true ∧ true = true := ⟨by
    show ¬ t'.preWriteRead = true
    rw [hpre]
    exact Bool.false_ne_true, rfl⟩
  rw [checkReadStatusConnected, h]
  dsimp only
  rw [if_neg (not_not_intro rfl), if_pos hmore, hstart, if_neg (not_not_intro rfl)]

theorem checkReadStatus_last {t t' : AbTag} {reply : List UInt8}
    (h : takeReadReply s t reply = (plctagStatusOk, false, t')) (hpre : t'.preWriteRead = false) :
    checkReadStatusConnected s t reply = (plctagStatusOk, t'.abortRequest) := by
  have hnone : ¬ t'.abortRequestOnly.preWriteRead = true := by
    show ¬ t'.preWriteRead = true
    rw [hpre]
    exact Bool.false_ne_true
  rw [checkReadStatusConnected, h]
  dsimp only
  have hlast : ¬ (¬ t'.abortRequestOnly.preWriteRead = true ∧ false = true) := fun hmore =>
    Bool.false_ne_true hmore.2
  rw [if_neg (not_not_intro rfl), if_neg hlast, if_neg hnone]
  rfl

theorem tagTickler_read {t : AbTag} (hreq : t.req.isSome = true) (hread : t.readInProgress = true)
    {reply : List UInt8} {r : ℤ × AbTag}
    (h : checkReadStatusConnected s { t with status := plctagStatusOk } reply = r) :
    tagTickler s t (.reply reply) = (r.1, if r.2.readInProgress then { r.2 with status := r.1 }
      else { r.2 with status := r.1, firstRead := false, readComplete := true }) := by
  obtain ⟨request, hrequest⟩ := Option.isSome_iff_exists.mp hreq
  have hchecked : checkRequestStatus t (.reply reply) =
      (plctagStatusOk, { t with status := plctagStatusOk }) := by
    rw [checkRequestStatus, hrequest]
  rw [tagTickler, hchecked]
  dsimp only
  rw [if_neg (not_not_intro rfl), if_pos hread, h]

/-- One reply, and the next request or the end. -/
theorem tagTickler_reading (hidle : tag.Idle) (hroom : tag.encodedName.length + 9 ≤ s.available)
    (hknown : KnownType typeInfo) (htype : tag.encodedTypeInfo = [] ∨ tag.encodedTypeInfo = typeInfo)
    (hn : 0 < n) (hk : k + n ≤ mem.length) :
    tagTickler s (reading tag typeInfo mem k)
        (.reply (fragmentReply typeInfo ((mem.drop k).take n) (decide (mem.length ≤ k + n)))) =
      if k + n < mem.length then (plctagStatusPending, reading tag typeInfo mem (k + n))
      else (plctagStatusOk, readDone tag typeInfo mem) := by
  have htaken := takeReadReply_reading (s := s) hknown htype hidle.pre hn hk (decide (mem.length ≤ k + n))
  have hpos : k + n ≠ 0 := by omega
  by_cases hmore : k + n < mem.length
  · rw [decide_eq_false (Nat.not_le.mpr hmore), Bool.not_false] at htaken
    rw [decide_eq_false (Nat.not_le.mpr hmore), if_pos hmore,
      tagTickler_read rfl rfl (checkReadStatus_more htaken hidle.pre hroom)]
    simp only [reading, AbTag.abortRequestOnly, if_neg hpos, if_true, hidle.write]
    rfl
  · rw [decide_eq_true (Nat.not_lt.mp hmore), Bool.not_true] at htaken
    have hlen : k + n = mem.length := Nat.le_antisymm hk (Nat.not_lt.mp hmore)
    rw [decide_eq_true (Nat.not_lt.mp hmore), if_neg hmore,
      tagTickler_read rfl rfl (checkReadStatus_last htaken hidle.pre)]
    simp only [reading, readDone, AbTag.abortRequest, AbTag.abortRequestOnly, hlen, List.take_length,
      hidle.write]
    rfl

end Read

/-! ## A write, reply by reply -/

section Write
variable {s : Session} {tag : AbTag} {perPacket j : ℕ}

/-- The tag when `j` bytes have been written and the next ones are on their way. -/
def writing (tag : AbTag) (perPacket j : ℕ) : AbTag :=
  { tag with
    offset := j + ((tag.data.drop j).take perPacket).length
    writeInProgress := true
    status := if j = 0 then tag.status else plctagStatusPending
    req := some (writeRequest { tag with offset := j } perPacket j) }

/-- The tag when all of its data have been written. -/
def writeDone (tag : AbTag) : AbTag :=
  { tag with
    offset := 0
    writeInProgress := false
    writeComplete := true
    status := plctagStatusOk
    req := none }

/-- The tag is written as a whole, and its type is known. -/
structure AbTag.Writable (s : Session) (tag : AbTag) (perPacket : ℕ) : Prop where
  first : tag.firstRead = false
  bit : tag.bit = none
  type : tag.encodedTypeInfo ≠ []
  packet : calculateWriteDataPerPacket s tag = some perPacket

theorem perPacket_pos {t : AbTag} (h : calculateWriteDataPerPacket s t = some perPacket) :
    0 < perPacket := by
  unfold calculateWriteDataPerPacket at h
  dsimp only at h
  split_ifs at h with hroom hunit hsmall
  all_goals
    have hvalue := Option.some.inj h
    subst hvalue
  · refine Nat.mul_pos (by omega) (Nat.pos_of_ne_zero fun hzero => ?_)
    rw [hzero, Nat.div_zero] at hsmall
    exact hsmall Nat.zero_lt_one
  · exact Nat.mul_pos (by omega) (by norm_num)

theorem withOffset_eq {t : AbTag} {o : ℤ} (h : t.offset = o) : { t with offset := o } = t := by
  subst h
  rfl

theorem buildWriteRequestConnected_ok {t : AbTag} (hbit : t.bit = none) (htype : t.encodedTypeInfo ≠ [])
    (hpacket : calculateWriteDataPerPacket s t = some perPacket) (byteOffset : ℤ) :
    buildWriteRequestConnected s t byteOffset = (plctagStatusOk, { t with
      offset := t.offset + (writeChunk t perPacket).length,
      req := some (writeRequest t perPacket byteOffset) }) := by
  rw [buildWriteRequestConnected, hbit, hpacket]
  dsimp only
  rw [if_neg htype]

theorem tagWriteStart_pending {t : AbTag} (hread : t.readInProgress = false)
    (hwrite : t.writeInProgress = false) (h : t.Writable s perPacket) :
    tagWriteStart s t = (plctagStatusPending, { t with
      offset := t.offset + (writeChunk t perPacket).length, writeInProgress := true,
      req := some (writeRequest t perPacket t.offset) }) := by
  have hbuilt := buildWriteRequestConnected_ok (t := { t with writeInProgress := true }) h.bit h.type
    h.packet t.offset
  rw [tagWriteStart, if_neg (by rw [hread, hwrite]; simp), if_neg (by rw [h.first]; simp), hbuilt]
  rfl

theorem tagWriteStart_writing (hidle : tag.Idle) (h : tag.Writable s perPacket) :
    tagWriteStart s tag = (plctagStatusPending, writing tag perPacket 0) := by
  have hsame : ({ tag with offset := ((0 : ℕ) : ℤ) } : AbTag) = tag := withOffset_eq hidle.offset
  simp only [writing, hsame]
  rw [tagWriteStart_pending hidle.read hidle.write h, writeChunk, hidle.offset]
  rfl

theorem checkWriteStatus_ok {t : AbTag} {reply : List UInt8}
    (h : writeReplyStatus s reply = plctagStatusOk) : checkWriteStatusConnected s t reply =
      if t.offset < t.size then tagWriteStart s t.abortRequestOnly else (plctagStatusOk, t.abortRequest) := by
  rw [checkWriteStatusConnected, h]
  rfl

theorem tagTickler_write {t : AbTag} (hreq : t.req.isSome = true) (hread : t.readInProgress = false)
    (hwrite : t.writeInProgress = true) {reply : List UInt8} {r : ℤ × AbTag}
    (h : checkWriteStatusConnected s { t with status := plctagStatusOk } reply = r) :
    tagTickler s t (.reply reply) = (r.1, if r.2.writeInProgress then { r.2 with status := r.1 }
      else { r.2 with status := r.1, writeComplete := true }) := by
  obtain ⟨request, hrequest⟩ := Option.isSome_iff_exists.mp hreq
  have hchecked : checkRequestStatus t (.reply reply) =
      (plctagStatusOk, { t with status := plctagStatusOk }) := by
    rw [checkRequestStatus, hrequest]
  rw [tagTickler, hchecked]
  dsimp only
  rw [if_neg (not_not_intro rfl), if_neg (by rw [hread]; exact Bool.false_ne_true), if_pos hwrite, h]

/-- One reply, and the next request or the end. -/
theorem tagTickler_writing (hidle : tag.Idle) (h : tag.Writable s perPacket) {reply : List UInt8}
    (hreply : writeReplyStatus s reply = plctagStatusOk) (hj : j < tag.size) :
    tagTickler s (writing tag perPacket j) (.reply reply) =
      if j + perPacket < tag.size then (plctagStatusPending, writing tag perPacket (j + perPacket))
      else (plctagStatusOk, writeDone tag) := by
  have hpos := perPacket_pos h.packet
  have hchunk : ((tag.data.drop j).take perPacket).length = min perPacket (tag.size - j) := by
    rw [List.length_take, List.length_drop]
    rfl
  have hcheck := checkWriteStatus_ok (s := s)
    (t := { writing tag perPacket j with status := plctagStatusOk }) hreply
  rw [tagTickler_write (t := writing tag perPacket j) rfl hidle.read rfl hcheck]
  by_cases hmore : j + perPacket < tag.size
  · have hoffset : (j : ℤ) + ((tag.data.drop j).take perPacket).length = ((j + perPacket : ℕ) : ℤ) := by
      rw [hchunk, Nat.min_eq_left (by omega)]
      push_cast
      rfl
    have hnext : ({ writing tag perPacket j with status := plctagStatusOk } : AbTag).offset <
        ({ writing tag perPacket j with status := plctagStatusOk } : AbTag).size := by
      show (j : ℤ) + ((tag.data.drop j).take perPacket).length < (tag.size : ℤ)
      rw [hoffset]
      exact_mod_cast hmore
    have hstart := tagWriteStart_pending
      (t := ({ writing tag perPacket j with status := plctagStatusOk } : AbTag).abortRequestOnly)
      (s := s) rfl rfl ⟨h.first, h.bit, h.type, h.packet⟩
    have hpos : j + perPacket ≠ 0 := by omega
    rw [if_pos hnext, hstart, if_pos hmore]
    simp only [writing, AbTag.abortRequestOnly, hoffset, if_true, if_neg hpos, hidle.read]
    rfl
  · have hnext : ¬ ({ writing tag perPacket j with status := plctagStatusOk } : AbTag).offset <
        ({ writing tag perPacket j with status := plctagStatusOk } : AbTag).size := by
      show ¬ (j : ℤ) + ((tag.data.drop j).take perPacket).length < (tag.size : ℤ)
      rw [hchunk, Nat.min_eq_right (by omega)]
      omega
    rw [if_neg hnext, if_neg hmore]
    simp only [writing, writeDone, AbTag.abortRequest, AbTag.abortRequestOnly, hidle.read]
    rfl

end Write

end Plctagt.Cip
