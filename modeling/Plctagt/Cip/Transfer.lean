import Plctagt.Cip.Client
import Plctagt.Cip.Server

/-! # Reading and writing the tags of the simulated PLC

The client of `eip_cip.c` and the simulator of `ab_server` take turns: a request, its reply, and the
next request, until the tag asks for nothing more.
-/
namespace Plctagt.Cip
open Bytes Decimal Pieces Tag
set_option autoImplicit false

/-! ## Taking turns -/

section Exchange
variable {σ : Type} {s : Session} {serve : σ → List UInt8 → σ × List UInt8} {tag : AbTag}

/-- The request that is on its way is served, and the tickler finds the reply. -/
def exchangeTurn (s : Session) (serve : σ → List UInt8 → σ × List UInt8) (x : σ × AbTag) : σ × AbTag :=
  match x.2.req with
  | none => x
  | some request => ((serve x.1 request).1, (tagTickler s x.2 (.reply (serve x.1 request).2)).2)

theorem exchangeTurn_request {t : AbTag} {plc plc' : σ} {request reply : List UInt8}
    (hreq : t.req = some request) (hserve : serve plc request = (plc', reply)) :
    exchangeTurn s serve (plc, t) = (plc', (tagTickler s t (.reply reply)).2) := by
  rw [exchangeTurn]
  dsimp only
  rw [hreq]
  dsimp only
  rw [hserve]

/-- A PLC that answers each request with some of `mem` is read to the end. -/
theorem read_completes {typeInfo mem : List UInt8} {plc : σ} (hidle : tag.Idle)
    (hroom : tag.encodedName.length + 9 ≤ s.available) (hknown : KnownType typeInfo)
    (htype : tag.encodedTypeInfo = [] ∨ tag.encodedTypeInfo = typeInfo) (hmem : 0 < mem.length)
    (hserves : ∀ k < mem.length, ∃ n > 0, k + n ≤ mem.length ∧ serve plc (readRequest tag k) =
      (plc, fragmentReply typeInfo ((mem.drop k).take n) (decide (mem.length ≤ k + n)))) :
    ∃ n ≤ mem.length, (exchangeTurn s serve)^[n] (plc, (tagReadStart s tag).2) =
      (plc, readDone tag typeInfo mem) := by
  have hturn : ∀ k x, k < mem.length →
      x = (plc, if k < mem.length then reading tag typeInfo mem k else readDone tag typeInfo mem) →
      ∃ n > 0, k + n ≤ mem.length ∧ exchangeTurn s serve x =
        (plc, if k + n < mem.length then reading tag typeInfo mem (k + n)
          else readDone tag typeInfo mem) := by
    intro k x hk hx
    obtain ⟨n, hn, hle, hserve⟩ := hserves k hk
    refine ⟨n, hn, hle, ?_⟩
    rw [if_pos hk] at hx
    subst hx
    rw [exchangeTurn_request (t := reading tag typeInfo mem k) rfl hserve,
      tagTickler_reading hidle hroom hknown htype hn hle]
    split_ifs <;> rfl
  obtain ⟨turns, hle, hdone⟩ := completes (I := fun k x => x =
    (plc, if k < mem.length then reading tag typeInfo mem k else readDone tag typeInfo mem)) hturn
    (Nat.zero_le _) rfl
  rw [if_pos hmem, if_neg (lt_irrefl _)] at hdone
  rw [tagReadStart_reading hidle hroom typeInfo mem]
  exact ⟨turns, hle, hdone⟩

/-- A part that the PLC takes: the next one is on its way, or it was the last. -/
theorem exchangeTurn_writing {perPacket j : ℕ} {plc plc' : σ} {reply : List UInt8} (hidle : tag.Idle)
    (hwritable : tag.Writable s perPacket) (hreply : writeReplyStatus s reply = plctagStatusOk)
    (hserve : serve plc (writeRequest { tag with offset := j } perPacket j) = (plc', reply))
    (hj : j < tag.size) : exchangeTurn s serve (plc, writing tag perPacket j) =
      (plc', if j + perPacket < tag.size then writing tag perPacket (j + perPacket) else writeDone tag) := by
  rw [exchangeTurn_request (t := writing tag perPacket j) rfl hserve,
    tagTickler_writing hidle hwritable hreply hj]
  split_ifs <;> rfl

/-- A PLC that puts each part of the data where it belongs has them all in the end. -/
theorem write_completes {perPacket : ℕ} {mem : List UInt8} {plcAt : List UInt8 → σ} (hidle : tag.Idle)
    (hwritable : tag.Writable s perPacket) (hsize : 0 < tag.size) (hfits : tag.size ≤ mem.length)
    (hserves : ∀ m j, m.length = mem.length → j < tag.size → j = 0 ∨ perPacket < tag.size →
      ∃ reply, writeReplyStatus s reply = plctagStatusOk ∧
        serve (plcAt m) (writeRequest { tag with offset := j } perPacket j) =
          (plcAt (put m j ((tag.data.drop j).take perPacket)), reply)) :
    ∃ n ≤ tag.size, (exchangeTurn s serve)^[n] (plcAt mem, writing tag perPacket 0) =
      (plcAt (put mem 0 tag.data), writeDone tag) := by
  have hpos := perPacket_pos hwritable.packet
  have hturn : ∀ j x, j < tag.size → (j = 0 ∨ perPacket < tag.size ∨ tag.size ≤ j) ∧
      x = (plcAt (put mem 0 (tag.data.take j)),
        if j < tag.size then writing tag perPacket j else writeDone tag) →
      ∃ n > 0, j + n ≤ tag.size ∧ (j + n = 0 ∨ perPacket < tag.size ∨ tag.size ≤ j + n) ∧
        exchangeTurn s serve x = (plcAt (put mem 0 (tag.data.take (j + n))),
          if j + n < tag.size then writing tag perPacket (j + n) else writeDone tag) := by
    rintro j x hj ⟨hpart, hx⟩
    rw [if_pos hj] at hx
    subst hx
    have htake : (tag.data.take j).length = j := List.length_take_of_le hj.le
    have hlen : (put mem 0 (tag.data.take j)).length = mem.length := length_put (by omega)
    obtain ⟨reply, hreply, hserve⟩ := hserves (put mem 0 (tag.data.take j)) j hlen hj (by omega)
    have hput : put (put mem 0 (tag.data.take j)) j ((tag.data.drop j).take perPacket) =
        put mem 0 (tag.data.take (j + perPacket)) := by
      have happend := put_append (Nat.zero_le mem.length) (tag.data.take j)
        ((tag.data.drop j).take perPacket)
      rwa [htake, Nat.zero_add, take_append_take_drop] at happend
    have hexchange := exchangeTurn_writing hidle hwritable hreply hserve hj
    rw [hput] at hexchange
    by_cases hmore : j + perPacket < tag.size
    · exact ⟨perPacket, hpos, hmore.le, by omega, hexchange⟩
    · -- the last part is shorter than a packet, or as long
      have hall : ∀ n, tag.size ≤ n → tag.data.take n = tag.data := fun n hn => List.take_of_length_le hn
      refine ⟨tag.size - j, by omega, by omega, by omega, ?_⟩
      rw [hexchange, hall _ (by omega), hall _ (by omega), if_neg hmore, if_neg (by omega)]
  obtain ⟨turns, hle, -, hdone⟩ := completes (I := fun j x => (j = 0 ∨ perPacket < tag.size ∨ tag.size ≤ j) ∧
    x = (plcAt (put mem 0 (tag.data.take j)),
      if j < tag.size then writing tag perPacket j else writeDone tag)) hturn (Nat.zero_le _) ⟨.inl rfl, rfl⟩
  have hall : tag.data.take tag.size = tag.data := List.take_length
  rw [if_pos hsize, if_neg (lt_irrefl _), List.take_zero, put_nil, hall] at hdone
  exact ⟨turns, hle, hdone⟩

end Exchange

/-! ## The simulator -/

section Simulator
variable {s : Session} {plc : PlcS} {tag : AbTag} {name : Text} {indexes : List ℕ}
  {place start stop output : ℕ} {d : TagDef} {others : PlcS → List UInt8 → ℕ → PlcS × List UInt8}

/-- The simulator as a PLC that is sent requests. -/
def serveCip (others : PlcS → List UInt8 → ℕ → PlcS × List UInt8) (output : ℕ) (plc : PlcS)
    (request : List UInt8) : PlcS × List UInt8 := cipDispatchRequest others request output plc

/-- The type of a tag as the packets have it. -/
def TagDef.typeInfo (d : TagDef) : List UInt8 := littleEndian 2 d.tagType.toNat

@[simp] theorem TagDef.write_typeInfo (d : TagDef) (start : ℕ) (m : List UInt8) :
    (d.write start m).typeInfo = d.typeInfo := by
  rw [TagDef.typeInfo, TagDef.typeInfo, TagDef.write_tagType]

/-- What a read of `elemCount` elements from an element on is to bring. -/
def TagDef.span (d : TagDef) (start stop : ℕ) : List UInt8 := (d.data.drop start).take (stop - start)

theorem le32_natCast {k : ℕ} (hk : k < 2 ^ 32) : le32 k = littleEndian 4 k := by
  have hmod : ((k : ℤ) % 2 ^ 32).toNat = k := by
    rw [Int.emod_eq_of_lt (by omega) (by exact_mod_cast hk)]
    exact Int.toNat_natCast k
  rw [le32, hmod]

theorem readRequest_packet {path : List UInt8}
    (hname : tag.encodedName = UInt8.ofNat (path.length / 2) :: path)
    {k : ℕ} (hk : k < 2 ^ 32) : readRequest tag k =
      packet cipSrvReadNamedTagFrag path (littleEndian 2 tag.elemCount ++ littleEndian 4 k) := by
  rw [readRequest, hname, le32_natCast hk]
  rfl

theorem Locates.serves_read (h : Locates plc name indexes tag.elemCount place d start stop)
    (hplc : plc.plcType ≠ .omron) (hcount : tag.elemCount < 2 ^ 16) (hsize : 0 < d.elemSize)
    (hroom : 6 + minDataElementSize d ≤ output) (hsmall : stop < 2 ^ 32)
    (hname : tag.encodedName =
      UInt8.ofNat ((elementPath name indexes).length / 2) :: elementPath name indexes)
    {k : ℕ} (hk : k < (d.span start stop).length) :
    ∃ n > 0, k + n ≤ (d.span start stop).length ∧ serveCip others output plc (readRequest tag k) =
      (plc, fragmentReply d.typeInfo (((d.span start stop).drop k).take n)
        (decide ((d.span start stop).length ≤ k + n))) := by
  obtain ⟨-, hstop⟩ := length_of_range h.range
  have hlen : (d.span start stop).length = stop - start := by
    rw [TagDef.span, List.length_take, List.length_drop]
    omega
  rw [hlen] at hk
  obtain ⟨n, hn, hle, hpiece⟩ := readFragment_piece cipSrvReadNamedTagFrag hsize hroom
    (show start + k < stop by omega)
  have hdata : ((d.span start stop).drop k).take n = (d.data.drop (start + k)).take n := by
    rw [TagDef.span, List.drop_take, List.drop_drop, List.take_take, Nat.min_eq_left (by omega)]
  refine ⟨n, hn, by omega, ?_⟩
  rw [hlen, readRequest_packet hname (by omega), serveCip, h.serve_read hplc hcount (by omega) (by omega),
    hpiece, hdata]
  by_cases hmore : start + k + n < stop
  · rw [if_pos hmore, decide_eq_false (by omega)]
    rfl
  · rw [if_neg hmore, decide_eq_true (by omega)]
    rfl

/-- The simulator when `m` was written to its tag `d` from `start` on. -/
def PlcS.written (plc : PlcS) (place : ℕ) (d : TagDef) (start : ℕ) (m : List UInt8) : PlcS :=
  { plc with tags := plc.tags.set place (d.write start m) }

theorem TagDef.write_write {m c : List UInt8} {j : ℕ} (hm : start + m.length ≤ d.data.length)
    (hj : j + c.length ≤ m.length) :
    (d.write start m).write (start + j) c = d.write start (put m j c) := by
  have hlen : (put m j c).length = m.length := length_put hj
  have hdata : (d.write start m).data = put d.data start m := write_data hm
  have hin : start + j + c.length ≤ (d.write start m).data.length := by
    rw [hdata, length_put hm]
    omega
  refine TagDef.ext (by simp) (by simp) (by simp) (by simp) ?_
  rw [write_data hin, hdata, write_data (by rw [hlen]; exact hm), put_put (by omega) hj]

theorem PlcS.written_written {m c : List UInt8} {j : ℕ} (hm : start + m.length ≤ d.data.length)
    (hj : j + c.length ≤ m.length) :
    (plc.written place d start m).written place (d.write start m) (start + j) c =
      plc.written place d start (put m j c) := by
  simp only [PlcS.written, List.set_set, TagDef.write_write hm hj]

/-- The part of the tag that a write request names; one for the whole tag names none. -/
def writePart (tag : AbTag) (perPacket j : ℕ) : Option ℕ := if perPacket < tag.size then some j else none

theorem getD_writePart {perPacket j : ℕ} (hpart : j = 0 ∨ perPacket < tag.size) :
    (writePart tag perPacket j).getD 0 = j := by
  rw [writePart]
  split_ifs
  · rfl
  · show 0 = j
    omega

theorem eq_of_mem_writePart {perPacket j k : ℕ} (hk : k ∈ writePart tag perPacket j) : k = j := by
  rw [writePart] at hk
  split_ifs at hk
  · exact (Option.mem_some_iff.mp hk).symm
  · exact absurd hk (by simp)

theorem writeRequest_packet {path : List UInt8}
    (hname : tag.encodedName = UInt8.ofNat (path.length / 2) :: path)
    (htype : tag.encodedTypeInfo = d.typeInfo)
    (hpad : tag.strPadToMultipleBytes = 1) (perPacket : ℕ) {j : ℕ} (hj : j < 2 ^ 32) :
    writeRequest { tag with offset := j } perPacket j = packet (writeService (writePart tag perPacket j)) path
      (writePayload d tag.elemCount (writePart tag perPacket j) ((tag.data.drop j).take perPacket)) := by
  have hpadding : ∀ n, padding { tag with offset := j } n = [] := by
    intro n
    rw [padding]
    dsimp only
    rw [hpad, if_neg (fun h => by rcases h.1 with h | h <;> exact absurd h (by decide))]
  have hchunk : writeChunk { tag with offset := j } perPacket = (tag.data.drop j).take perPacket := rfl
  have hsize : ({ tag with offset := (j : ℤ) } : AbTag).size = tag.size := rfl
  rw [writeRequest]
  dsimp only
  rw [hpadding, hchunk, hsize, hname, htype, List.append_nil, packet, writePayload, writePart]
  by_cases hmore : perPacket < tag.size
  · rw [if_pos hmore, if_pos hmore, if_pos hmore, le32_natCast hj]
    rfl
  · rw [if_neg hmore, if_neg hmore, if_neg hmore]
    rfl

theorem writeReplyStatus_done (part : Option ℕ) :
    writeReplyStatus s (cipResponseHeader (writeService part) cipOk) = plctagStatusOk := by
  have hservice : ¬ ((cipResponseHeader (writeService part) cipOk).getD 0 0 ≠
        abEipCmdCipWriteFrag ||| abEipCmdCipOk ∧
      (cipResponseHeader (writeService part) cipOk).getD 0 0 ≠ abEipCmdCipWrite ||| abEipCmdCipOk ∧
      (cipResponseHeader (writeService part) cipOk).getD 0 0 ≠ abEipCmdCipRmw ||| abEipCmdCipOk) := by
    cases part with
    | none => exact fun h => h.2.1 rfl
    | some j => exact fun h => h.1 rfl
  rw [writeReplyStatus, if_neg hservice, if_neg (fun h => h.1 rfl)]

theorem length_writeChunk (tag : AbTag) (perPacket j : ℕ) :
    ((tag.data.drop j).take perPacket).length = min perPacket (tag.size - j) := by
  rw [List.length_take, List.length_drop]
  rfl

theorem Locates.serves_write (h : Locates plc name indexes tag.elemCount place d start stop)
    (hplc : plc.plcType ≠ .omron) (hcount : tag.elemCount < 2 ^ 16) (hroom : 4 ≤ output)
    (hsmall : stop < 2 ^ 32)
    (hname : tag.encodedName =
      UInt8.ofNat ((elementPath name indexes).length / 2) :: elementPath name indexes)
    (htype : tag.encodedTypeInfo = d.typeInfo) (hpad : tag.strPadToMultipleBytes = 1) {perPacket : ℕ}
    (hpos : 0 < perPacket) (hfits : tag.size ≤ stop - start) {j : ℕ} (hj : j < tag.size)
    (hpart : j = 0 ∨ perPacket < tag.size) :
    ∃ reply, writeReplyStatus s reply = plctagStatusOk ∧
      serveCip others output plc (writeRequest { tag with offset := j } perPacket j) =
        (plc.written place d (start + j) ((tag.data.drop j).take perPacket), reply) := by
  have hchunk := length_writeChunk tag perPacket j
  have hne : (tag.data.drop j).take perPacket ≠ [] := List.ne_nil_of_length_pos (by omega)
  have hat := getD_writePart hpart
  have hlt : ∀ k ∈ writePart tag perPacket j, k < 2 ^ 32 := fun k hk => by
    have hkj := eq_of_mem_writePart hk
    omega
  have hserve := @Locates.serve_write _ _ _ _ _ _ _ output _ others h hplc hcount _ hlt _ hne
    (by rw [hat]; omega)
  have htake : (cipResponseHeader (writeService (writePart tag perPacket j)) cipOk).take output =
      cipResponseHeader (writeService (writePart tag perPacket j)) cipOk := List.take_of_length_le hroom
  refine ⟨_, writeReplyStatus_done (writePart tag perPacket j), ?_⟩
  rw [writeRequest_packet hname htype hpad perPacket (by omega), serveCip, hserve, htake, hat]
  rfl

end Simulator

/-! ## From the name of a tag to its data -/

/-- `base`, or some element of it, as the library is given it. -/
def elementName (base : { s : Text // IsSymbol s }) (dims : Option Dimensions) : TagName :=
  ⟨base, (dims.map TagSeg.array).toList, none⟩

def elementIndexes (dims : Option Dimensions) : List ℕ := dims.elim [] fun d => d.index :: d.more

theorem path_elementName (base : { s : Text // IsSymbol s }) (dims : Option Dimensions) :
    (elementName base dims).path.flatMap PathSegment.bytes = elementPath base.val (elementIndexes dims) := by
  rw [elementPath_eq]
  cases dims with
  | none => rfl
  | some d =>
    simp only [elementName, elementIndexes, TagName.path, Option.map_some, Option.toList_some,
      List.flatMap_cons, List.flatMap_nil, List.append_nil, Option.elim_some, TagSeg.path]

/-- The tag was created with the name of an element, and from this element on the PLC has as many as the tag
asks for, at `start` to `stop` in the data of `d`. Each of the two has room for the other's packets. -/
structure Aimed (s : Session) (output : ℕ) (plc : PlcS) (tag : AbTag) (base : { s : Text // IsSymbol s })
    (dims : Option Dimensions) (place : ℕ) (d : TagDef) (start stop : ℕ) : Prop where
  named : tag.encodedName = (cipEncodeTagName tag.elemCount (elementName base dims).text).encodedName
  short : ((elementName base dims).path.flatMap PathSegment.bytes).length < maxTagName - 2
  locates : Locates plc base.val (elementIndexes dims) tag.elemCount place d start stop
  plcType : plc.plcType ≠ .omron
  count_pos : 0 < tag.elemCount
  count_lt : tag.elemCount < 2 ^ 16
  size_pos : 0 < d.elemSize
  stop_lt : stop < 2 ^ 32
  request : tag.encodedName.length + 9 ≤ s.available
  reply : 6 + minDataElementSize d ≤ output
  type : KnownType d.typeInfo

theorem isSymbol_A : IsSymbol (text "A") := by decide +kernel

/-- `A`, three `DINT`s, and tags for some of them. -/
def symbolA : { s : Text // IsSymbol s } := ⟨text "A", isSymbol_A⟩

def dimensionsA (i : UInt8) : Dimensions :=
  ⟨i.toNat, [], Nat.zero_le 2, fun j hj => by
    have hlt := i.toNat_lt
    rw [List.mem_singleton.mp hj]
    omega⟩

def defA : TagDef := ⟨text "A", 0xC4, 4, [3], [1, 0, 0, 0, 2, 0, 0, 0, 3, 0, 0, 0], rfl⟩

def plcA : PlcS := ⟨.controlLogix, [defA]⟩

def sessionA : Session := ⟨28, fun _ => plctagErrBadParam, fun _ => 0⟩

def tagA (i : UInt8) (elemCount : ℕ) (encodedTypeInfo data : List UInt8) : AbTag :=
  { encodedName := [3, 0x91, 1, 65, 0, 0x28, i], encodedTypeInfo := encodedTypeInfo
    elemCount := elemCount, elemSize := 4, data := data, strPadToMultipleBytes := 1, bit := none
    offset := 0, preWriteRead := false, firstRead := false, readInProgress := false
    writeInProgress := false, readComplete := false, writeComplete := false, status := plctagStatusOk
    req := none, wild := false }

theorem range_defA {i : UInt8} {n : ℕ} (hi : i = 0 ∨ i = 1 ∨ i = 2) (hpos : 0 < n)
    (hle : i.toNat + n ≤ 3) : calculateRequestStartAndEndOffsets defA [i.toNat] n =
      some (i.toNat * 4, i.toNat * 4 + n * 4) := by
  have hn : n = 1 ∨ n = 2 ∨ n = 3 := by omega
  rcases hi with rfl | rfl | rfl <;> rcases hn with rfl | rfl | rfl <;> revert hle <;> decide +kernel

theorem path_elementA {i : UInt8} (hi : i = 0 ∨ i = 1 ∨ i = 2) :
    (elementName symbolA (some (dimensionsA i))).path.flatMap PathSegment.bytes =
      [0x91, 1, 65, 0, 0x28, i] := by
  rcases hi with rfl | rfl | rfl <;> decide +kernel

theorem aimed_tagA {i : UInt8} {n : ℕ} (hi : i = 0 ∨ i = 1 ∨ i = 2) (hpos : 0 < n) (hle : i.toNat + n ≤ 3)
    (encodedTypeInfo data : List UInt8) : Aimed sessionA 10 plcA (tagA i n encodedTypeInfo data) symbolA
      (some (dimensionsA i)) 0 defA (i.toNat * 4) (i.toNat * 4 + n * 4) where
  named := by
    have hshort : ((elementName symbolA (some (dimensionsA i))).path.flatMap PathSegment.bytes).length <
        maxTagName - 2 := by
      rw [path_elementA hi]
      exact (by decide : 6 < maxTagName - 2)
    rw [cipEncodeTagName_text _ _ hshort, if_pos (.inl rfl), path_elementA hi]
    have hwords : UInt8.ofNat ([0x91, 1, 65, 0, 0x28, i].length / 2) = 3 := by
      have hlength : [0x91, 1, 65, 0, 0x28, i].length = 6 := rfl
      rw [hlength]
      decide
    exact congrArg (· :: [0x91, 1, 65, 0, 0x28, i]) hwords.symm
  short := by
    rw [path_elementA hi]
    exact (by decide : 6 < maxTagName - 2)
  locates :=
    { first := by decide +kernel, found := rfl, short := by decide +kernel, few := Nat.le_add_left 1 2
      small := fun j hj => by
        have hindex : j = i.toNat := List.mem_singleton.mp hj
        omega
      rank := fun _ => rfl, range := range_defA hi hpos hle }
  plcType := by decide
  count_pos := hpos
  count_lt := show n < 2 ^ 16 by omega
  size_pos := show 0 < 4 by decide
  stop_lt := by omega
  request := show 7 + 9 ≤ 28 by decide
  reply := by decide
  type := by decide +kernel

section Aimed
variable {s : Session} {output place start stop : ℕ} {plc : PlcS} {tag : AbTag}
  {base : { s : Text // IsSymbol s }} {dims : Option Dimensions} {d : TagDef}
  {others : PlcS → List UInt8 → ℕ → PlcS × List UInt8}

theorem Aimed.encodedName (h : Aimed s output plc tag base dims place d start stop) :
    tag.encodedName = UInt8.ofNat ((elementPath base.val (elementIndexes dims)).length / 2) ::
      elementPath base.val (elementIndexes dims) := by
  rw [h.named, cipEncodeTagName_text _ _ h.short, if_pos (.inl rfl), path_elementName]

theorem Aimed.length_span (h : Aimed s output plc tag base dims place d start stop) :
    (d.span start stop).length = stop - start ∧ start < stop := by
  obtain ⟨hstop, hle⟩ := length_of_range h.locates.range
  have hpos := Nat.mul_pos h.count_pos h.size_pos
  rw [TagDef.span, List.length_take, List.length_drop]
  omega

/-- A read that was started brings what the PLC has, in at most as many turns as these are bytes; the PLC is
as it was, and the tag has the data from its first byte on and knows their type. -/
theorem tag_read_simulated (h : Aimed s output plc tag base dims place d start stop) (hidle : tag.Idle)
    (htype : tag.encodedTypeInfo = [] ∨ tag.encodedTypeInfo = d.typeInfo) :
    ∃ turns ≤ stop - start, (exchangeTurn s (serveCip others output))^[turns] (plc, (tagReadStart s tag).2) =
      (plc, readDone tag d.typeInfo (d.span start stop)) := by
  obtain ⟨hlen, hlt⟩ := h.length_span
  rw [← hlen]
  refine read_completes hidle h.request h.type htype (by omega) fun k hk => ?_
  exact h.locates.serves_read h.plcType h.count_lt h.size_pos h.reply h.stop_lt h.encodedName hk

theorem tag_read_simulated_dints :
    ∃ turns ≤ 8, (exchangeTurn sessionA (serveCip (fun plc _ _ => (plc, [])) 10))^[turns]
        (plcA, (tagReadStart sessionA (tagA 1 2 [] [])).2) =
      (plcA, readDone (tagA 1 2 [] []) [0xC4, 0] [2, 0, 0, 0, 3, 0, 0, 0]) := by
  obtain ⟨turns, hle, hread⟩ := tag_read_simulated
    (@aimed_tagA 1 2 (.inr (.inl rfl)) (by decide) (by decide) [] [])
    ⟨rfl, rfl, rfl, rfl⟩ (.inl rfl)
  have htype : defA.typeInfo = [0xC4, 0] := by decide +kernel
  have hspan : defA.span (1 * 4) (1 * 4 + 2 * 4) = [2, 0, 0, 0, 3, 0, 0, 0] := by decide +kernel
  rw [htype] at hread
  exact ⟨turns, hle, hread.trans (by rw [← hspan]; rfl)⟩

theorem TagDef.write_span (hle : start ≤ stop) (hstop : stop ≤ d.data.length) :
    d.write start (d.span start stop) = d := by
  have hlen : (d.span start stop).length = stop - start := by
    rw [TagDef.span, List.length_take, List.length_drop]
    omega
  have hsplit : put d.data start (d.span start stop) = d.data := by
    rw [put, hlen, Nat.add_sub_cancel' hle, TagDef.span, ← List.append_assoc, take_append_take_drop,
      Nat.add_sub_cancel' hle, List.take_append_drop]
  refine TagDef.ext (by simp) (by simp) (by simp) (by simp) ?_
  rw [write_data (by omega), hsplit]

/-- What is there already, written once more. -/
theorem Locates.written_span {name : Text} {indexes : List ℕ} {count : ℕ}
    (h : Locates plc name indexes count place d start stop) (hle : start ≤ stop) :
    plc.written place d start (d.span start stop) = plc := by
  obtain ⟨hin, hfound⟩ := List.getElem?_eq_some_iff.mp h.found
  rw [PlcS.written, TagDef.write_span hle (length_of_range h.range).2, ← hfound, List.set_getElem_self]

theorem Aimed.writes {perPacket : ℕ} (h : Aimed s output plc tag base dims place d start stop)
    (hidle : tag.Idle) (hwritable : tag.Writable s perPacket) (htype : tag.encodedTypeInfo = d.typeInfo)
    (hpad : tag.strPadToMultipleBytes = 1) (hsize : 0 < tag.size) (hfits : tag.size ≤ stop - start) :
    ∃ turns ≤ tag.size, (exchangeTurn s (serveCip others output))^[turns] (plc, writing tag perPacket 0) =
      (plc.written place d start tag.data, writeDone tag) := by
  obtain ⟨hlen, hlt⟩ := h.length_span
  obtain ⟨-, hstop⟩ := length_of_range h.locates.range
  have hserves : ∃ turns ≤ tag.size, (exchangeTurn s (serveCip others output))^[turns]
      (plc.written place d start (d.span start stop), writing tag perPacket 0) =
        (plc.written place d start (put (d.span start stop) 0 tag.data), writeDone tag) := by
    refine write_completes hidle hwritable hsize (by omega) fun m j hm hj hpart => ?_
    have hchunk := length_writeChunk tag perPacket j
    have htypeAt : tag.encodedTypeInfo = (d.write start m).typeInfo := by
      rw [htype, TagDef.write_typeInfo]
    obtain ⟨reply, hreply, hserve⟩ := (h.locates.write start m).serves_write h.plcType h.count_lt
      (show 4 ≤ output by have hroom := h.reply; omega) h.stop_lt h.encodedName htypeAt hpad
      (perPacket_pos hwritable.packet) hfits hj hpart
    exact ⟨reply, hreply,
      hserve.trans (congrArg (·, reply) (PlcS.written_written (by omega) (by omega)))⟩
  have hspan : start + (d.span start stop).length ≤ d.data.length := by omega
  have hafter : d.write start (put (d.span start stop) 0 tag.data) = d.write start tag.data := by
    rw [← TagDef.write_write hspan (show 0 + tag.data.length ≤ _ by unfold AbTag.size at hfits; omega),
      TagDef.write_span hlt.le hstop, Nat.add_zero]
  rw [h.locates.written_span hlt.le, PlcS.written, hafter] at hserves
  exact hserves

/-- A write that was started puts the data of the tag where the PLC has the elements, in at most as many
turns as these are bytes, and puts nothing elsewhere. -/
theorem tag_write_simulated {perPacket : ℕ} (h : Aimed s output plc tag base dims place d start stop)
    (hidle : tag.Idle) (hwritable : tag.Writable s perPacket) (htype : tag.encodedTypeInfo = d.typeInfo)
    (hpad : tag.strPadToMultipleBytes = 1) (hsize : 0 < tag.size) (hfits : tag.size ≤ stop - start) :
    ∃ turns ≤ tag.size, (exchangeTurn s (serveCip others output))^[turns] (plc, (tagWriteStart s tag).2) =
      (plc.written place d start tag.data, writeDone tag) := by
  rw [tagWriteStart_writing hidle hwritable]
  exact h.writes hidle hwritable htype hpad hsize hfits

theorem tag_write_simulated_dints :
    ∃ turns ≤ 8, (exchangeTurn sessionA (serveCip (fun plc _ _ => (plc, [])) 10))^[turns]
        (plcA, (tagWriteStart sessionA (tagA 1 2 [0xC4, 0] [5, 0, 0, 0, 6, 0, 0, 0])).2) =
      (plcA.written 0 defA 4 [5, 0, 0, 0, 6, 0, 0, 0],
        writeDone (tagA 1 2 [0xC4, 0] [5, 0, 0, 0, 6, 0, 0, 0])) :=
  tag_write_simulated
    (@aimed_tagA 1 2 (.inr (.inl rfl)) (by decide) (by decide) [0xC4, 0] [5, 0, 0, 0, 6, 0, 0, 0])
    ⟨rfl, rfl, rfl, rfl⟩
    (show AbTag.Writable _ _ 4 from ⟨rfl, rfl, by decide, by decide +kernel⟩) (by decide +kernel) rfl
    (by decide) (by decide)

end Aimed

end Plctagt.Cip
