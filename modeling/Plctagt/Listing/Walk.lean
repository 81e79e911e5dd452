import Plctagt.Listing.Payload

/-! # The walk over an arbitrary payload

Each record is taken to be 20 bytes, a count word, and as many bytes as the word says when it is read
as a signed number of 16 bits. Nothing checks that the word lies inside the payload, or its sign. So
the loop reads on past the payload when that ends inside the first 22 bytes of a record, a count that
is negative sizes the buffer of the name, and one of -22 or less takes the loop back.
-/
namespace Plctagt.Listing
open Bytes Decimal Tag
set_option autoImplicit false

structure Payload (tag : PlcTag) (data : List UInt8) : Prop where
  holds : tag.data = some data
  isBit : tag.isBit = false
  byteOrder : tag.byteOrder = listingTagLogixByteOrder
  four_le : 4 ≤ data.length
  size : data.length < 2 ^ 31

/-- The count word of a record at `offset`, as it is read. -/
def countAt (data : List UInt8) (offset : ℤ) : Option ℤ :=
  (wordUnsafe data (offset + 20) (Lanes.little 2)).map BitVec.toInt

/-- A count word that can be read lies inside the payload. -/
theorem countAt_inside {data : List UInt8} {offset c : ℤ} (h : countAt data offset = some c) :
    0 ≤ offset + 20 ∧ offset + 22 ≤ data.length := by
  unfold countAt wordUnsafe at h
  split_ifs at h with hin
  · have : offset + 20 + (2 : ℕ) ≤ data.length := hin.2
    exact ⟨hin.1, by omega⟩
  · cases h

/-- The offsets at which the loop of `get_tag_list` calls `process_tag_entry`. -/
inductive LoopAt (plc : Plc) (tagString : Text) (parent : Option Text) (payloadSize : ℤ) : ℤ → Prop
  | first : LoopAt plc tagString parent payloadSize 0
  | again (offset offset' : ℤ) (entry : Option TagNode)
      (h : LoopAt plc tagString parent payloadSize offset)
      (hrun : processTagEntry plc tagString offset parent = .ok (plctagStatusOk, offset', entry))
      (hlt : offset' < payloadSize) : LoopAt plc tagString parent payloadSize offset'

/-! ## One record -/

section Record
variable {plc : Plc} {tagString : Text} {data : List UInt8}
  (hp : Payload (plc.tag tagString) data)
include hp

theorem payload_refusal : stringRefusal (plc.tag tagString) = none := by
  refine stringRefusal_none ?_ hp.holds hp.isBit
  rw [hp.byteOrder]
  rfl

theorem getStringLengthUnsafe_payload (offset : ℤ) :
    getStringLengthUnsafe (plc.tag tagString) (offset + 20) = countAt data offset := by
  unfold getStringLengthUnsafe
  rw [hp.byteOrder, hp.holds]
  rfl

theorem getStringLength_payload (offset : ℤ) :
    plcTagGetStringLength (plc.tag tagString) (offset + 20) = countAt data offset := by
  unfold plcTagGetStringLength
  rw [payload_refusal hp]
  exact getStringLengthUnsafe_payload hp offset

theorem getStringTotalLength_payload (offset : ℤ) :
    plcTagGetStringTotalLength (plc.tag tagString) (offset + 20) =
      (countAt data offset).map fun c => 2 + c := by
  unfold plcTagGetStringTotalLength
  rw [payload_refusal hp]
  show getStringTotalLengthUnsafe (plc.tag tagString) (offset + 20) = _
  unfold getStringTotalLengthUnsafe
  rw [getStringLengthUnsafe_payload hp, hp.byteOrder]
  show (countAt data offset).map (fun len : ℤ => ((2 : ℕ) : ℤ) + len + 0 + (0 : ℕ)) = _
  congr 1
  funext c
  show (2 : ℤ) + c + 0 + 0 = 2 + c
  ring

theorem getString_payload (offset : ℕ) {c : ℤ} (hc : countAt data offset = some c) :
    plcTagGetString (plc.tag tagString) (offset + 20) (c + 1) =
      if offset + 22 + c ≤ data.length then
        some (plctagStatusOk, cleared (c + 1) ((data.drop (offset + 22)).take c.toNat))
      else some (plctagErrOutOfBounds, cleared (c + 1) []) := by
  have hinside := (countAt_inside hc).2
  have hlt := hp.size
  have hsize : (plc.tag tagString).size = data.length := by
    rw [PlcTag.size_eq hp.holds]
  have hmax : (if c + 1 < c then c + 1 else c) = c := if_neg (by omega)
  unfold plcTagGetString
  rw [payload_refusal hp]
  simp only [getStringLengthUnsafe_payload hp, hc, Option.map_some, hmax, hsize, hp.holds,
    Option.getD_some, hp.byteOrder]
  have hplace : (offset : ℤ) + 20 + (listingTagLogixByteOrder.strCountWordBytes : ℤ) + c =
      offset + 22 + c := by
    show (offset : ℤ) + 20 + 2 + c = _
    ring
  rw [hplace]
  split_ifs with hfits
  · have hplaces : ∀ i (hi : i < ((data.drop (offset + 22)).take c.toNat).length),
        data[listingTagLogixByteOrder.charIndex i + (offset + 20) +
          listingTagLogixByteOrder.strCountWordBytes]? =
            some (((data.drop (offset + 22)).take c.toNat).get ⟨i, hi⟩) := by
      intro i hi
      have hindex : listingTagLogixByteOrder.charIndex i + (offset + 20) +
          listingTagLogixByteOrder.strCountWordBytes = offset + 22 + i := by
        show i + (offset + 20) + 2 = _
        omega
      rw [hindex, List.get_eq_getElem, List.getElem_take, List.getElem_drop,
        List.getElem?_eq_getElem]
    have hchars := copyOut_eq listingTagLogixByteOrder data (offset + 20)
      ((data.drop (offset + 22)).take c.toNat) (by omega) hplaces (min c.toNat data.length) 0
      (by rw [List.length_take, List.length_drop]; omega)
    rw [show (offset : ℤ) + 20 = ((offset + 20 : ℕ) : ℤ) from rfl, hchars]
    rfl
  · rfl

theorem processTagEntry_payload (offset : ℕ) {c : ℤ} (hc : countAt data offset = some c)
    (parent : Option Text) :
    (offset + 22 + c ≤ data.length → plc.calloc tagString (offset + 20) (c + 1) = true →
      plc.calloc tagString (offset + 22 + c) 40 = true →
        ∃ entry, processTagEntry plc tagString offset parent =
            .ok (plctagStatusOk, offset + 22 + c, some entry) ∧
          entry.name = if c + 1 = 0 then none
            else some (cstr (cleared (c + 1) ((data.drop (offset + 22)).take c.toNat)))) ∧
    (¬(offset + 22 + c ≤ data.length ∧ plc.calloc tagString (offset + 20) (c + 1) = true ∧
      plc.calloc tagString (offset + 22 + c) 40 = true) →
        ∃ rc offset', rc ≠ plctagStatusOk ∧
          processTagEntry plc tagString offset parent = .ok (rc, offset', none)) := by
  have hplace : (offset : ℤ) + 20 + (2 + c) = offset + 22 + c := by ring
  have hlength : defined (plcTagGetStringLength (plc.tag tagString) (offset + 20)) = .ok c := by
    rw [getStringLength_payload hp, hc]
    rfl
  have htotal : defined (plcTagGetStringTotalLength (plc.tag tagString) (offset + 20)) =
      .ok (2 + c) := by
    rw [getStringTotalLength_payload hp, hc]
    rfl
  have hstring := getString_payload hp offset hc
  unfold processTagEntry
  dsimp only
  rw [hlength]
  show (_ → _ → _ → ∃ entry, (if plc.calloc tagString (offset + 20) (c + 1) = false then _ else _ :
      Except Halt (ℤ × ℤ × Option TagNode)) = _ ∧ _) ∧
    (_ → ∃ rc offset', _ ∧ (if plc.calloc tagString (offset + 20) (c + 1) = false then _ else _ :
      Except Halt (ℤ × ℤ × Option TagNode)) = _)
  cases hname : plc.calloc tagString (offset + 20) (c + 1) with
  | false =>
    refine ⟨fun _ h => absurd h Bool.false_ne_true, fun _ => ?_⟩
    exact ⟨plctagErrNoMem, offset + 20, by decide, rfl⟩
  | true =>
    rw [if_neg Bool.true_eq_false_eq_False, hstring]
    by_cases hfits : offset + 22 + c ≤ data.length
    · rw [if_pos hfits]
      show (_ → _ → _ → ∃ entry, (defined _ >>= fun total => _ : Except Halt _) = _ ∧ _) ∧
        (_ → ∃ rc offset', _ ∧ (defined _ >>= fun total => _ : Except Halt _) = _)
      rw [htotal]
      show (_ → _ → _ → ∃ entry, (if plc.calloc tagString (offset + 20 + (2 + c)) 40 = false then _
          else _ : Except Halt (ℤ × ℤ × Option TagNode)) = _ ∧ _) ∧
        (_ → ∃ rc offset', _ ∧ (if plc.calloc tagString (offset + 20 + (2 + c)) 40 = false then _
          else _ : Except Halt (ℤ × ℤ × Option TagNode)) = _)
      rw [hplace]
      cases hentry : plc.calloc tagString (offset + 22 + c) 40 with
      | false =>
        refine ⟨fun _ _ h => absurd h Bool.false_ne_true, fun _ => ?_⟩
        exact ⟨plctagErrNoMem, offset + 22 + c, by decide, rfl⟩
      | true =>
        rw [if_neg Bool.true_eq_false_eq_False]
        exact ⟨fun _ _ _ => ⟨_, rfl, rfl⟩, fun h => absurd ⟨hfits, rfl, rfl⟩ h⟩
    · rw [if_neg hfits]
      exact ⟨fun h => absurd h hfits, fun _ => ⟨plctagErrOutOfBounds, offset + 20, by decide, rfl⟩⟩

theorem processTagEntry_undefined (offset : ℕ) (hc : countAt data offset = none)
    (parent : Option Text) : processTagEntry plc tagString offset parent = .error .undefined := by
  have hlength : defined (plcTagGetStringLength (plc.tag tagString) (offset + 20)) =
      .error .undefined := by
    rw [getStringLength_payload hp, hc]
    rfl
  unfold processTagEntry
  dsimp only
  rw [hlength]
  rfl

theorem offset_of_accepted (offset : ℕ) {parent : Option Text} {offset' : ℤ}
    {entry : Option TagNode}
    (h : processTagEntry plc tagString offset parent = .ok (plctagStatusOk, offset', entry)) :
    ∃ c, countAt data offset = some c ∧ offset' = offset + 22 + c := by
  cases hc : countAt data offset with
  | none =>
    rw [processTagEntry_undefined hp offset hc] at h
    cases h
  | some c =>
    refine ⟨c, rfl, ?_⟩
    obtain ⟨hok, hbad⟩ := processTagEntry_payload hp offset hc parent
    by_cases hall : offset + 22 + c ≤ data.length ∧
        plc.calloc tagString (offset + 20) (c + 1) = true ∧
        plc.calloc tagString (offset + 22 + c) 40 = true
    · obtain ⟨node, hnode, -⟩ := hok hall.1 hall.2.1 hall.2.2
      rw [hnode] at h
      cases h
      rfl
    · obtain ⟨rc, stop, hrc, hrun⟩ := hbad hall
      rw [hrun] at h
      cases h
      exact absurd rfl hrc

end Record

/-! ## Progress -/

/-- From `offset` on, no record has a count word of -22 or less inside the payload. -/
inductive Advancing (data : List UInt8) : ℕ → Prop
  | intro (offset : ℕ) (hcount : ∀ c, countAt data offset = some c → -22 < c)
      (hnext : ∀ c, countAt data offset = some c → ∀ offset' : ℕ,
        (offset' : ℤ) = offset + 22 + c → offset' < data.length → Advancing data offset') :
      Advancing data offset

section Progress
variable {plc : Plc} {tagString : Text} {data : List UInt8} {parent : Option Text}
  (hp : Payload (plc.tag tagString) data)
  (hcalloc : ∀ offset size, plc.calloc tagString offset size = true)
include hp

theorem advancing_of_loopAt (hadv : Advancing data 0) {offset : ℤ}
    (h : LoopAt plc tagString parent data.length offset) :
    ∃ n : ℕ, offset = n ∧ Advancing data n := by
  induction h with
  | first => exact ⟨0, rfl, hadv⟩
  | again offset offset' entry _ hrun hlt ih =>
    obtain ⟨n, rfl, hn⟩ := ih
    obtain ⟨c, hc, rfl⟩ := offset_of_accepted hp n hrun
    cases hn with
    | intro _ hcount hnext =>
      have hpos := hcount c hc
      obtain ⟨n', hn'⟩ := Int.eq_ofNat_of_zero_le (by omega : 0 ≤ (n : ℤ) + 22 + c)
      rw [hn'] at hlt ⊢
      exact ⟨n', rfl, hnext c hc n' hn'.symm (by omega)⟩

/-- With more turns than there are bytes left, the loop comes to an end. -/
theorem tagEntries_ends {offset : ℕ} (hadv : Advancing data offset) (turns : ℕ)
    (hturns : data.length < turns + offset) (hlt : offset < data.length) (tagList : List TagNode) :
    tagEntries plc tagString parent data.length turns offset tagList ≠ .error .turns := by
  induction hadv generalizing turns tagList with
  | intro offset hcount hnext ih =>
    cases turns with
    | zero => omega
    | succ turns =>
      unfold tagEntries
      cases hrun : processTagEntry plc tagString offset parent with
      | error e =>
        cases hc : countAt data offset with
        | none =>
          rw [processTagEntry_undefined hp offset hc] at hrun
          cases hrun
          intro h
          cases h
        | some c =>
          obtain ⟨hok, hbad⟩ := processTagEntry_payload hp offset hc parent
          by_cases hall : offset + 22 + c ≤ data.length ∧
              plc.calloc tagString (offset + 20) (c + 1) = true ∧
              plc.calloc tagString (offset + 22 + c) 40 = true
          · obtain ⟨node, hnode, -⟩ := hok hall.1 hall.2.1 hall.2.2
            rw [hnode] at hrun
            cases hrun
          · obtain ⟨rc, stop, -, hstop⟩ := hbad hall
            rw [hstop] at hrun
            cases hrun
      | ok x =>
        obtain ⟨rc, offset', entry⟩ := x
        show (if rc = plctagStatusOk ∧ offset' < data.length then _ else _ :
          Except Halt (List TagNode)) ≠ _
        split_ifs with hagain
        · obtain ⟨rfl, hlt'⟩ := hagain
          obtain ⟨c, hc, rfl⟩ := offset_of_accepted hp offset hrun
          have hpos := hcount c hc
          obtain ⟨n, hn⟩ := Int.eq_ofNat_of_zero_le (by omega : 0 ≤ (offset : ℤ) + 22 + c)
          rw [hn]
          exact ih c hc n hn.symm (by omega) turns (by omega) (by omega) _
        · intro h
          cases h

include hcalloc in
theorem advancing_of_forward (hforward : ∀ offset offset' entry,
      LoopAt plc tagString parent data.length offset →
      processTagEntry plc tagString offset parent = .ok (plctagStatusOk, offset', entry) →
      offset' < data.length → offset < offset') (n : ℕ) {offset : ℕ}
    (hn : data.length < n + offset)
    (h : LoopAt plc tagString parent data.length offset) : Advancing data offset := by
  induction n generalizing offset with
  | zero =>
    have hend : ∀ c, countAt data offset ≠ some c := by
      intro c hc
      have := (countAt_inside hc).2
      omega
    exact .intro offset (fun c hc => absurd hc (hend c)) fun c hc => absurd hc (hend c)
  | succ n ih =>
    have haccepted : ∀ c, countAt data offset = some c → offset + 22 + c < data.length →
        ∃ entry, processTagEntry plc tagString offset parent =
          .ok (plctagStatusOk, offset + 22 + c, some entry) := by
      intro c hc hlt
      obtain ⟨entry, hentry, -⟩ := (processTagEntry_payload hp offset hc parent).1 hlt.le
        (hcalloc _ _) (hcalloc _ _)
      exact ⟨entry, hentry⟩
    have hcount : ∀ c, countAt data offset = some c → -22 < c := by
      intro c hc
      by_contra hle
      have hinside := (countAt_inside hc).2
      obtain ⟨entry, hentry⟩ := haccepted c hc (by omega)
      have := hforward _ _ _ h hentry (by omega)
      omega
    refine .intro offset hcount fun c hc offset' hoffset' hlt => ih ?_ ?_
    · have := hcount c hc
      omega
    · obtain ⟨entry, hentry⟩ := haccepted c hc (by omega)
      rw [← hoffset'] at hentry
      exact .again offset offset' _ h hentry (by omega)

include hcalloc in
/-- The loop goes forward with every turn that is not its last, and comes to an end, if and only if no
record that the payload is cut into has a count word of -22 or less. -/
theorem getTagList_ends_iff (hread : plc.read tagString = plctagStatusOk)
    (tagList : List TagNode) :
    ((∀ offset offset' entry, LoopAt plc tagString parent data.length offset →
        processTagEntry plc tagString offset parent = .ok (plctagStatusOk, offset', entry) →
        offset' < data.length → offset < offset') ∧
      ∃ n, ∀ turns, n ≤ turns →
        getTagList plc turns tagString parent tagList ≠ .error .turns) ↔
    Advancing data 0 := by
  constructor
  · rintro ⟨hforward, -⟩
    exact advancing_of_forward hp hcalloc hforward (data.length + 1) (Nat.lt_succ_self _) .first
  · intro hadv
    refine ⟨fun offset offset' entry h hrun hlt => ?_, data.length + 1, fun turns hturns => ?_⟩
    · obtain ⟨n, rfl, hn⟩ := advancing_of_loopAt hp hadv h
      obtain ⟨c, hc, rfl⟩ := offset_of_accepted hp n hrun
      cases hn with
      | intro _ hcount _ =>
        have := hcount c hc
        omega
    · have hsize : (plc.tag tagString).size = data.length := by
        rw [PlcTag.size_eq hp.holds]
      have hfour := hp.four_le
      unfold getTagList
      rw [if_neg (not_not.mpr hread)]
      dsimp only
      rw [hsize, if_neg (by omega)]
      exact tagEntries_ends hp hadv turns (by omega) (by omega) tagList

end Progress

/-! ## Count words and names -/

def Allocates (plc : Plc) (tagString : Text) (offset count : ℕ) : Prop :=
  plc.calloc tagString (offset + 20) (count + 1) = true ∧
    plc.calloc tagString (offset + 22 + count) 40 = true

/-- From `offset` on the payload is cut into records, each with 22 bytes at least and a count below
`2 ^ 15`; the last may end before its name does. It is looked at up to the first record that there is
no memory for. -/
inductive Framed (plc : Plc) (tagString : Text) (data : List UInt8) : ℕ → Prop
  | intro (offset count : ℕ) (hcount : countAt data offset = some (count : ℤ))
      (hnext : offset + 22 + count < data.length → Allocates plc tagString offset count →
        Framed plc tagString data (offset + 22 + count)) : Framed plc tagString data offset

/-- What a turn at `offset` should do: its count word lies inside the payload and gives a length, and
the name of the entry it links is a copy of as many bytes of the payload, up to a NUL. -/
structure InsidePayload (plc : Plc) (tagString : Text) (parent : Option Text) (data : List UInt8)
    (offset : ℤ) : Prop where
  count_inside : 0 ≤ offset + 20 ∧ offset + 22 ≤ data.length
  length_nonneg : ∃ len, plcTagGetStringLength (plc.tag tagString) (offset + 20) = some len ∧ 0 ≤ len
  name_copied : ∀ rc offset' entry,
    processTagEntry plc tagString offset parent = .ok (rc, offset', some entry) →
      ∃ len : ℕ, plcTagGetStringLength (plc.tag tagString) (offset + 20) = some (len : ℤ) ∧
        offset + 22 + len ≤ data.length ∧
        entry.name = some (cstr ((data.drop (offset.toNat + 22)).take len))

theorem cstr_cleared (s : Text) (n : ℤ) : cstr (cleared n s) = cstr s := by
  unfold cstr cleared
  rw [List.takeWhile_append]
  split_ifs with hall
  · rw [List.takeWhile_replicate]
    simp only [ne_eq, not_true_eq_false, decide_false, Bool.false_eq_true, if_false,
      List.append_nil]
    exact (List.takeWhile_prefix _).eq_of_length hall |>.symm
  · rfl

section Inside
variable {plc : Plc} {tagString : Text} {data : List UInt8} {parent : Option Text}
  (hp : Payload (plc.tag tagString) data)
include hp

theorem insidePayload_of_count {offset count : ℕ}
    (hcount : countAt data offset = some (count : ℤ)) :
    InsidePayload plc tagString parent data offset := by
  have hlength : plcTagGetStringLength (plc.tag tagString) (offset + 20) = some (count : ℤ) :=
    (getStringLength_payload hp offset).trans hcount
  refine ⟨countAt_inside hcount, ⟨count, hlength, Int.natCast_nonneg _⟩, ?_⟩
  intro rc offset' entry hrun
  refine ⟨count, hlength, ?_⟩
  obtain ⟨hok, hbad⟩ := processTagEntry_payload hp offset hcount parent
  by_cases hall : (offset : ℤ) + 22 + count ≤ data.length ∧
      plc.calloc tagString (offset + 20) (count + 1) = true ∧
      plc.calloc tagString (offset + 22 + count) 40 = true
  · obtain ⟨node, hnode, hname⟩ := hok hall.1 hall.2.1 hall.2.2
    rw [hnode] at hrun
    cases hrun
    rw [if_neg (by omega), cstr_cleared] at hname
    exact ⟨hall.1, hname⟩
  · obtain ⟨rc, stop, -, hstop⟩ := hbad hall
    rw [hstop] at hrun
    cases hrun

theorem framed_of_loopAt (hframed : Framed plc tagString data 0) {offset : ℤ}
    (h : LoopAt plc tagString parent data.length offset) :
    ∃ n : ℕ, offset = n ∧ Framed plc tagString data n := by
  induction h with
  | first => exact ⟨0, rfl, hframed⟩
  | again offset offset' entry _ hrun hlt ih =>
    obtain ⟨n, rfl, hn⟩ := ih
    cases hn with
    | intro _ count hcount hnext =>
      obtain ⟨c, hc, rfl⟩ := offset_of_accepted hp n hrun
      obtain rfl := Option.some.inj (hcount.symm.trans hc)
      refine ⟨n + 22 + count, by push_cast; rfl, hnext (by omega) ?_⟩
      by_contra hmem
      obtain ⟨rc, stop, hrc, hstop⟩ := (processTagEntry_payload hp n hcount parent).2
        fun h => hmem h.2
      rw [hstop] at hrun
      cases hrun
      exact hrc rfl

theorem framed_of_inside (hinside : ∀ offset, LoopAt plc tagString parent data.length offset →
      InsidePayload plc tagString parent data offset) (n : ℕ) {offset : ℕ}
    (hn : data.length < n + offset) (h : LoopAt plc tagString parent data.length offset) :
    Framed plc tagString data offset := by
  obtain ⟨hin, ⟨len, hlen, hnonneg⟩, -⟩ := hinside offset h
  obtain ⟨count, rfl⟩ := Int.eq_ofNat_of_zero_le hnonneg
  have hcount : countAt data offset = some (count : ℤ) :=
    (getStringLength_payload hp offset).symm.trans hlen
  induction n generalizing offset count with
  | zero => omega
  | succ n ih =>
    refine .intro offset count hcount fun hlt hmem => ?_
    obtain ⟨entry, hentry, -⟩ := (processTagEntry_payload hp offset hcount parent).1
      (by omega) hmem.1 hmem.2
    have hcast : ((offset + 22 + count : ℕ) : ℤ) = offset + 22 + count := by push_cast; rfl
    have hagain : LoopAt plc tagString parent data.length (offset + 22 + count : ℕ) := by
      rw [hcast]
      exact .again offset _ (some entry) h hentry (by omega)
    obtain ⟨hin', ⟨len', hlen', hnonneg'⟩, -⟩ := hinside _ hagain
    obtain ⟨count', rfl⟩ := Int.eq_ofNat_of_zero_le hnonneg'
    exact ih (by omega) hagain hin' count' hlen' hnonneg'
      ((getStringLength_payload hp _).symm.trans hlen')

/-- Every turn of the loop stays inside the payload if and only if the payload is cut into records
with a count word each. -/
theorem insidePayload_iff :
    (∀ offset, LoopAt plc tagString parent data.length offset →
      InsidePayload plc tagString parent data offset) ↔ Framed plc tagString data 0 := by
  constructor
  · intro h
    exact framed_of_inside hp h (data.length + 1) (Nat.lt_succ_self _) .first
  · intro hframed offset h
    obtain ⟨n, rfl, hn⟩ := framed_of_loopAt hp hframed h
    cases hn with
    | intro _ count hcount _ => exact insidePayload_of_count hp hcount

end Inside

/-! ## Payloads -/

def payloadPlc (data : List UInt8) : Plc := imagePlc [([], listingTagLogixByteOrder, data)]

/-- Tags `A` and `BC`. -/
def twoRecords : List UInt8 :=
  [1, 0, 0, 0, 0xC4, 0, 4, 0, 0, 0, 0, 0, 0, 0, 0, 0, 0, 0, 0, 0, 1, 0, 65,
    2, 0, 0, 0, 0xC4, 0, 4, 0, 0, 0, 0, 0, 0, 0, 0, 0, 0, 0, 0, 0, 2, 0, 66, 67]

theorem twoRecords_payload : Payload ((payloadPlc twoRecords).tag []) twoRecords :=
  ⟨rfl, rfl, rfl, by decide, by decide⟩

theorem getTagList_ends_twoRecords :
    (∀ offset offset' entry, LoopAt (payloadPlc twoRecords) [] none twoRecords.length offset →
      processTagEntry (payloadPlc twoRecords) [] offset none = .ok (plctagStatusOk, offset', entry) →
        offset' < twoRecords.length → offset < offset') ∧
    ∃ n, ∀ turns, n ≤ turns →
      getTagList (payloadPlc twoRecords) turns [] none [] ≠ .error .turns := by
  have hfirst : countAt twoRecords (0 : ℕ) = some 1 := rfl
  have hsecond : countAt twoRecords (23 : ℕ) = some 2 := rfl
  have hlength : twoRecords.length = 47 := rfl
  refine (getTagList_ends_iff twoRecords_payload (fun _ _ => rfl) rfl []).mpr ?_
  refine .intro 0 (fun c hc => ?_) fun c hc offset' hoffset' hlt => ?_
  · obtain rfl := Option.some.inj (hfirst.symm.trans hc)
    decide
  · obtain rfl := Option.some.inj (hfirst.symm.trans hc)
    obtain rfl : offset' = 23 := by omega
    refine .intro 23 (fun c hc => ?_) fun c hc offset'' hoffset'' hlt' => ?_
    · obtain rfl := Option.some.inj (hsecond.symm.trans hc)
      decide
    · obtain rfl := Option.some.inj (hsecond.symm.trans hc)
      omega

theorem insidePayload_twoRecords :
    LoopAt (payloadPlc twoRecords) [] none twoRecords.length 23 ∧ ∀ offset,
    LoopAt (payloadPlc twoRecords) [] none twoRecords.length offset →
      InsidePayload (payloadPlc twoRecords) [] none twoRecords offset := by
  have hsecond : LoopAt (payloadPlc twoRecords) [] none twoRecords.length 23 :=
    .again 0 23 _ .first rfl (by decide)
  refine ⟨hsecond, (insidePayload_iff twoRecords_payload).mpr ?_⟩
  refine .intro 0 1 rfl fun _ _ => .intro 23 2 rfl fun hlt _ => ?_
  exact absurd hlt (by decide)

def backRecord : List UInt8 := List.replicate 20 0 ++ [0xEA, 0xFF]

/-- The loop stays at that record for ever. -/
theorem getTagList_endless :
    Payload ((payloadPlc backRecord).tag []) backRecord ∧
    (∀ offset size, (payloadPlc backRecord).calloc [] offset size = true) ∧
    (∃ entry, processTagEntry (payloadPlc backRecord) [] 0 none = .ok (plctagStatusOk, 0, some entry)) ∧
    ∀ turns tagList, getTagList (payloadPlc backRecord) turns [] none tagList = .error .turns := by
  have hp : Payload ((payloadPlc backRecord).tag []) backRecord :=
    ⟨rfl, rfl, rfl, by decide, by decide⟩
  have hcount : countAt backRecord (0 : ℕ) = some (-22) := by decide +kernel
  obtain ⟨entry, hentry, -⟩ := (processTagEntry_payload hp 0 hcount none).1 (by decide) rfl rfl
  have hloop : ∀ turns tagList, tagEntries (payloadPlc backRecord) [] none (22 : ℕ) turns 0 tagList =
      .error .turns := by
    intro turns
    induction turns with
    | zero => exact fun _ => rfl
    | succ turns ih =>
      intro tagList
      unfold tagEntries
      show (processTagEntry (payloadPlc backRecord) [] ((0 : ℕ) : ℤ) none >>= _ :
        Except Halt (List TagNode)) = _
      rw [hentry]
      exact ih _
  exact ⟨hp, fun _ _ => rfl, ⟨entry, hentry⟩, fun turns tagList => hloop turns tagList⟩

/-- A payload that ends before the count word of its only record. -/
theorem insidePayload_short :
    Payload ((payloadPlc [1, 0, 0, 0]).tag []) [1, 0, 0, 0] ∧
    LoopAt (payloadPlc [1, 0, 0, 0]) [] none (4 : ℕ) 0 ∧
    ¬InsidePayload (payloadPlc [1, 0, 0, 0]) [] none [1, 0, 0, 0] 0 :=
  ⟨⟨rfl, rfl, rfl, by decide, by decide⟩, .first, fun h => absurd h.count_inside.2 (by decide)⟩

end Plctagt.Listing
