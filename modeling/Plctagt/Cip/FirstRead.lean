import Plctagt.Cip.Transfer

/-! # Writes before the first read

A tag learns its type from its first read, so a write that comes earlier reads first. The flags of such a
write are not cleared where the next step would need it.
-/
namespace Plctagt.Cip
open Bytes Decimal Pieces Tag
set_option autoImplicit false

section PreRead
variable {s : Session} {tag t : AbTag} {reply : List UInt8}

theorem readRequest_congr (hname : t.encodedName = tag.encodedName) (hcount : t.elemCount = tag.elemCount)
    (byteOffset : ℤ) : readRequest t byteOffset = readRequest tag byteOffset := by
  rw [readRequest, readRequest, hname, hcount]

/-- What no reply to a read changes. -/
theorem takeReadReply_frame {t' : AbTag} {rc : ℤ} {more : Bool}
    (h : takeReadReply s t reply = (rc, more, t')) : t'.firstRead = t.firstRead ∧
      t'.preWriteRead = t.preWriteRead ∧ t'.encodedName = t.encodedName ∧ t'.elemCount = t.elemCount ∧
      t'.writeComplete = t.writeComplete := by
  have hsame : t' = (takeReadReply s t reply).2.2 := by rw [h]
  rw [hsame]
  unfold takeReadReply
  dsimp only
  split_ifs
  · exact ⟨rfl, rfl, rfl, rfl, rfl⟩
  · exact ⟨rfl, rfl, rfl, rfl, rfl⟩
  · exact ⟨rfl, rfl, rfl, rfl, rfl⟩
  · exact ⟨rfl, rfl, rfl, rfl, rfl⟩
  · cases replyTypeInfo (reply.drop 4) with
    | none => exact ⟨rfl, rfl, rfl, rfl, rfl⟩
    | some typeInfo => exact ⟨rfl, rfl, rfl, rfl, rfl⟩

/-- The read that a write waits for is on its way. -/
structure PreReading (tag t : AbTag) : Prop where
  first : t.firstRead = true
  pre : t.preWriteRead = true
  read : t.readInProgress = true
  write : t.writeInProgress = false
  name : t.encodedName = tag.encodedName
  count : t.elemCount = tag.elemCount
  written : t.writeComplete = tag.writeComplete
  req : t.req = some (readRequest tag 0)

theorem tagWriteStart_first (hfirst : t.firstRead = true) (hread : t.readInProgress = false)
    (hwrite : t.writeInProgress = false) (hroom : t.encodedName.length + 9 ≤ s.available) :
    tagWriteStart s t = (plctagStatusPending,
      { t with preWriteRead := true, readInProgress := true, req := some (readRequest t t.offset) }) := by
  have hstart := tagReadStart_pending (s := s) (t := { t with preWriteRead := true }) hread hwrite hroom
  rw [tagWriteStart, if_neg (by rw [hread, hwrite]; simp), if_pos hfirst, hstart]
  rfl

theorem checkReadStatus_pre {t t' next : AbTag} {more : Bool}
    (h : takeReadReply s t reply = (plctagStatusOk, more, t')) (hpre : t'.preWriteRead = true)
    (hstart : tagWriteStart s { t'.abortRequestOnly with offset := 0, preWriteRead := false } =
      (plctagStatusPending, next)) : checkReadStatusConnected s t reply = (plctagStatusPending, next) := by
  have hpreAt : t'.abortRequestOnly.preWriteRead = true := hpre
  have hmore : ¬ (¬ t'.abortRequestOnly.preWriteRead = true ∧ more = true) := fun h => h.1 hpreAt
  rw [checkReadStatusConnected, h]
  dsimp only
  rw [if_neg (not_not_intro rfl), if_neg hmore, if_pos hpreAt, hstart, if_neg (not_not_intro rfl)]

/-- The write starts again when the read is done, and finds that there was no first read. -/
theorem PreReading.tagTickler (h : PreReading tag t) (hroom : tag.encodedName.length + 9 ≤ s.available)
    (hok : (takeReadReply s { t with status := plctagStatusOk } reply).1 = plctagStatusOk) :
    PreReading tag (tagTickler s t (.reply reply)).2 := by
  obtain ⟨more, t', htaken⟩ : ∃ more t', takeReadReply s { t with status := plctagStatusOk } reply =
      (plctagStatusOk, more, t') := ⟨_, _, Prod.ext hok rfl⟩
  obtain ⟨hfirst, hpre, hname, hcount, hwritten⟩ := takeReadReply_frame htaken
  have hroomAt : t'.encodedName.length + 9 ≤ s.available := by
    rw [hname]
    exact h.name ▸ hroom
  have hcheck := checkReadStatus_pre htaken (hpre.trans h.pre)
    (tagWriteStart_first (hfirst.trans h.first) rfl rfl hroomAt)
  rw [tagTickler_read (by rw [h.req]; rfl) h.read hcheck]
  refine ⟨hfirst.trans h.first, rfl, rfl, rfl, hname.trans h.name, hcount.trans h.count,
    hwritten.trans h.written, ?_⟩
  exact congrArg some (readRequest_congr (hname.trans h.name) (hcount.trans h.count) 0)

end PreRead

section Simulator
variable {s : Session} {output place start stop : ℕ} {plc : PlcS} {tag t : AbTag}
  {base : { s : Text // IsSymbol s }} {dims : Option Dimensions} {d : TagDef}
  {others : PlcS → List UInt8 → ℕ → PlcS × List UInt8}

theorem Aimed.congr (h : Aimed s output plc tag base dims place d start stop)
    (hname : t.encodedName = tag.encodedName) (hcount : t.elemCount = tag.elemCount) :
    Aimed s output plc t base dims place d start stop where
  named := by rw [hname, hcount]; exact h.named
  short := h.short
  locates := hcount ▸ h.locates
  plcType := h.plcType
  count_pos := hcount ▸ h.count_pos
  count_lt := hcount ▸ h.count_lt
  size_pos := h.size_pos
  stop_lt := h.stop_lt
  request := hname ▸ h.request
  reply := h.reply
  type := h.type

theorem PreReading.exchangeTurn (h : Aimed s output plc tag base dims place d start stop)
    (hpre : PreReading tag t) :
    ∃ t', PreReading tag t' ∧ exchangeTurn s (serveCip others output) (plc, t) = (plc, t') := by
  obtain ⟨hlen, hlt⟩ := h.length_span
  obtain ⟨n, -, -, hserve⟩ := @Locates.serves_read _ _ _ _ _ _ _ _ _ others h.locates h.plcType h.count_lt
    h.size_pos h.reply h.stop_lt h.encodedName 0 (by omega)
  exact ⟨_, hpre.tagTickler h.request (congrArg Prod.fst (takeReadReply_fragment h.type _ _)),
    exchangeTurn_request hpre.req hserve⟩

/-- A write that is started while the first read has not been done stays a read: however many replies come,
the tag asks for its first bytes again, the write is never done, and the PLC is as it was. -/
theorem first_write_never_sent (h : Aimed s output plc tag base dims place d start stop)
    (hfirst : tag.firstRead = true) (hread : tag.readInProgress = false)
    (hwrite : tag.writeInProgress = false) (hoffset : tag.offset = 0) (turns : ℕ) :
    let x := (exchangeTurn s (serveCip others output))^[turns] (plc, (tagWriteStart s tag).2)
    x.1 = plc ∧ x.2.req = some (readRequest tag 0) ∧ x.2.writeInProgress = false ∧
      x.2.writeComplete = tag.writeComplete := by
  have hrun : ∃ t, PreReading tag t ∧
      (Cip.exchangeTurn s (serveCip others output))^[turns] (plc, (tagWriteStart s tag).2) = (plc, t) := by
    induction turns with
    | zero =>
      refine ⟨_, ?_, rfl⟩
      rw [tagWriteStart_first hfirst hread hwrite h.request, hoffset]
      exact ⟨hfirst, rfl, rfl, hwrite, rfl, rfl, rfl, rfl⟩
    | succ turns ih =>
      obtain ⟨t, hpre, hturns⟩ := ih
      obtain ⟨t', hpre', hturn⟩ := @PreReading.exchangeTurn s output place start stop plc tag t base
        dims d others h hpre
      exact ⟨t', hpre', by rw [Function.iterate_succ_apply', hturns, hturn]⟩
  obtain ⟨t, hpre, hturns⟩ := hrun
  dsimp only
  rw [hturns]
  exact ⟨rfl, hpre.req, hpre.write, hpre.written⟩

theorem first_write_never_sent_dints :
    let tag := { tagA 1 2 [] [5, 0, 0, 0, 6, 0, 0, 0] with firstRead := true }
    let x := (exchangeTurn sessionA (serveCip (fun plc _ _ => (plc, [])) 10))^[100]
      (plcA, (tagWriteStart sessionA tag).2)
    x.1 = plcA ∧ x.2.req = some (readRequest tag 0) := by
  have haimed : Aimed sessionA 10 plcA { tagA 1 2 [] [5, 0, 0, 0, 6, 0, 0, 0] with firstRead := true }
      symbolA (some (dimensionsA 1)) 0 defA 4 12 :=
    (@aimed_tagA 1 2 (.inr (.inl rfl)) (by decide) (by decide) [] [5, 0, 0, 0, 6, 0, 0, 0]).congr rfl rfl
  obtain ⟨hplc, hreq, -⟩ := first_write_never_sent haimed rfl rfl rfl rfl 100
  exact ⟨hplc, hreq⟩

end Simulator

/-! ## A write that was refused -/

/-- The tag when the read before its first write was refused. -/
def refused (tag : AbTag) (rc : ℤ) : AbTag :=
  { tag with
    preWriteRead := true
    firstRead := false
    readInProgress := false
    writeInProgress := false
    readComplete := true
    offset := 0
    status := rc
    req := none }

section Refused
variable {s : Session} {tag t : AbTag} {reply typeInfo data : List UInt8} {rc : ℤ} {perPacket : ℕ}

end Refused

section Followed
variable {s : Session} {output place start stop perPacket : ℕ} {plc : PlcS} {tag : AbTag}
  {base : { s : Text // IsSymbol s }} {dims : Option Dimensions} {d : TagDef} {rc : ℤ} {bad : List UInt8}
  {others : PlcS → List UInt8 → ℕ → PlcS × List UInt8}

end Followed

end Plctagt.Cip
