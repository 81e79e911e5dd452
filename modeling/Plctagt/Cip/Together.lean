import Plctagt.Cip.Transfer

/-! # Tags that are written at the same time

The requests of many tags reach the simulator in some order, and each reply lets one tag go on. What a tag
writes stays apart from what the others write, so the order makes no difference.
-/
namespace Plctagt.Cip
open Bytes Decimal Pieces Tag
set_option autoImplicit false

/-! ## The memory of the PLC -/

/-- A byte of the simulator's memory. -/
def PlcS.cell (plc : PlcS) (place k : ℕ) : Option UInt8 := plc.tags[place]?.bind (·.data[k]?)

section Memory
variable {plc : PlcS} {name : Text} {indexes : List ℕ} {count place place' start stop p : ℕ} {d d' : TagDef}
  {data : List UInt8}

/-- A write, to this tag or to another one, moves nothing. -/
theorem Locates.written (h : Locates plc name indexes count place d start stop)
    (hfound : plc.tags[place']? = some d') (p : ℕ) (data : List UInt8) :
    Locates (plc.written place' d' p data) name indexes count place
      (if place' = place then d.write p data else d) start stop := by
  by_cases hplace : place' = place
  · subst hplace
    have hsame : d = d' := Option.some.inj (h.found.symm.trans hfound)
    subst hsame
    rw [if_pos rfl]
    exact h.write p data
  · rw [if_neg hplace]
    refine ⟨?_, ?_, h.short, h.few, h.small, h.rank, h.range⟩
    · refine (findIdx_set hfound ?_).trans h.first
      rw [TagDef.write_name]
    · exact (List.getElem?_set_ne hplace).trans h.found

theorem PlcS.cell_written (hfound : plc.tags[place]? = some d) (hfits : p + data.length ≤ d.data.length)
    (place' k : ℕ) : (plc.written place d p data).cell place' k =
      if place' = place ∧ p ≤ k ∧ k < p + data.length then data[k - p]? else plc.cell place' k := by
  by_cases hplace : place' = place
  · subst hplace
    have hlt : place' < plc.tags.length := (List.getElem?_eq_some_iff.mp hfound).1
    have hset : (plc.written place' d p data).tags[place']? = some (d.write p data) :=
      List.getElem?_set_self hlt
    rw [PlcS.cell, hset, Option.bind_some, TagDef.write_data hfits, getElem?_put hfits, PlcS.cell, hfound,
      Option.bind_some]
    simp only [true_and]
  · have hset : (plc.written place d p data).tags[place']? = plc.tags[place']? :=
      List.getElem?_set_ne (Ne.symm hplace)
    rw [if_neg (fun h => hplace h.1), PlcS.cell, hset, PlcS.cell]

end Memory

/-! ## Many tags -/

/-- A tag that is to be written, and where. -/
structure Writer where
  session : Session
  tag : AbTag
  base : { s : Text // IsSymbol s }
  dims : Option Dimensions
  place : ℕ
  d : TagDef
  start : ℕ
  stop : ℕ
  perPacket : ℕ

structure Writer.Ready (w : Writer) (output : ℕ) (plc : PlcS) : Prop where
  aimed : Aimed w.session output plc w.tag w.base w.dims w.place w.d w.start w.stop
  idle : w.tag.Idle
  writable : w.tag.Writable w.session w.perPacket
  type : w.tag.encodedTypeInfo = w.d.typeInfo
  pad : w.tag.strPadToMultipleBytes = 1
  fits : w.tag.size ≤ w.stop - w.start

section Together
variable {ι : Type} {writers : ι → Writer} {output : ℕ} {plc : PlcS}
  {others : PlcS → List UInt8 → ℕ → PlcS × List UInt8}

/-- The cells that a tag is written to. -/
def Writer.Covers (w : Writer) (place k : ℕ) : Prop :=
  place = w.place ∧ w.start ≤ k ∧ k < w.start + w.tag.size

/-- Of tag `i` the first `progress i` bytes have been written. -/
structure UnderWay (writers : ι → Writer) (plc : PlcS) (progress : ι → ℕ) (x : PlcS × (ι → AbTag)) :
    Prop where
  plcType : x.1.plcType = plc.plcType
  locates : ∀ i, ∃ d, d.typeInfo = (writers i).d.typeInfo ∧ Locates x.1 (writers i).base.val
    (elementIndexes (writers i).dims) (writers i).tag.elemCount (writers i).place d (writers i).start
    (writers i).stop
  tag : ∀ i, x.2 i = if progress i < (writers i).tag.size then
    writing (writers i).tag (writers i).perPacket (progress i) else writeDone (writers i).tag
  le : ∀ i, progress i ≤ (writers i).tag.size
  part : ∀ i, progress i < (writers i).tag.size →
    progress i = 0 ∨ (writers i).perPacket < (writers i).tag.size
  written : ∀ i, ∀ k < progress i,
    x.1.cell (writers i).place ((writers i).start + k) = (writers i).tag.data[k]?
  kept : ∀ place k, (∀ i, ¬ (writers i).Covers place k) → x.1.cell place k = plc.cell place k

variable [DecidableEq ι]

/-- One of the tags takes its turn. -/
def turnOf (s : ι → Session) (serve : PlcS → List UInt8 → PlcS × List UInt8) (x : PlcS × (ι → AbTag))
    (i : ι) : PlcS × (ι → AbTag) :=
  let y := exchangeTurn (s i) serve (x.1, x.2 i)
  (y.1, Function.update x.2 i y.2)

/-- A tag that is done asks for nothing. -/
theorem UnderWay.turn_done {progress : ι → ℕ} {x : PlcS × (ι → AbTag)}
    (h : UnderWay writers plc progress x) {i : ι} (hi : (writers i).tag.size ≤ progress i) :
    turnOf (fun i => (writers i).session) (serveCip others output) x i = x := by
  have htag := h.tag i
  rw [if_neg (Nat.not_lt_of_le hi)] at htag
  have hstays : exchangeTurn (writers i).session (serveCip others output) (x.1, x.2 i) = (x.1, x.2 i) := by
    rw [htag]
    rfl
  rw [turnOf, hstays, Function.update_eq_self]

theorem getElem?_chunk {tag : AbTag} {perPacket j k : ℕ} (hlow : j ≤ k)
    (hhigh : k < j + min perPacket (tag.size - j)) :
    ((tag.data.drop j).take perPacket)[k - j]? = tag.data[k]? := by
  rw [List.getElem?_take_of_lt (by omega), List.getElem?_drop, Nat.add_sub_cancel' hlow]

/-- What a turn of a tag that is not done sends and gets. -/
theorem UnderWay.turn_writes (hready : ∀ i, (writers i).Ready output plc) {progress : ι → ℕ}
    {x : PlcS × (ι → AbTag)} (h : UnderWay writers plc progress x) {i : ι}
    (hj : progress i < (writers i).tag.size) : ∃ d, Locates x.1 (writers i).base.val
        (elementIndexes (writers i).dims) (writers i).tag.elemCount (writers i).place d (writers i).start
        (writers i).stop ∧
      turnOf (fun i => (writers i).session) (serveCip others output) x i =
        (x.1.written (writers i).place d ((writers i).start + progress i)
          (((writers i).tag.data.drop (progress i)).take (writers i).perPacket),
        Function.update x.2 i (if progress i + (writers i).perPacket < (writers i).tag.size then
          writing (writers i).tag (writers i).perPacket (progress i + (writers i).perPacket)
          else writeDone (writers i).tag)) := by
  obtain ⟨d, htype, hlocates⟩ := h.locates i
  have ready := hready i
  obtain ⟨reply, hreply, hserve⟩ := @Locates.serves_write (writers i).session _ _ _ _ _ _ _ output _ others
    hlocates (by rw [h.plcType]; exact ready.aimed.plcType) ready.aimed.count_lt
    (by have hroom := ready.aimed.reply; omega) ready.aimed.stop_lt ready.aimed.encodedName
    (ready.type.trans htype.symm) ready.pad _ (perPacket_pos ready.writable.packet) ready.fits _ hj
    (h.part i hj)
  have hexchange := exchangeTurn_writing ready.idle ready.writable hreply hserve hj
  have htag := h.tag i
  rw [if_pos hj] at htag
  refine ⟨d, hlocates, ?_⟩
  rw [turnOf, htag, hexchange]

/-- A turn writes the next part of one tag, and moves nothing of the others. -/
theorem UnderWay.turn (hready : ∀ i, (writers i).Ready output plc)
    (hapart : ∀ i j place k, (writers i).Covers place k → (writers j).Covers place k → i = j)
    {progress : ι → ℕ} {x : PlcS × (ι → AbTag)} (h : UnderWay writers plc progress x) (i : ι) :
    ∃ n, min (progress i + 1) (writers i).tag.size ≤ n ∧
      UnderWay writers plc (Function.update progress i n)
        (turnOf (fun i => (writers i).session) (serveCip others output) x i) := by
  have hle := h.le i
  by_cases hj : progress i < (writers i).tag.size
  swap
  · refine ⟨progress i, by omega, ?_⟩
    rwa [h.turn_done (Nat.le_of_not_lt hj), Function.update_eq_self]
  obtain ⟨d, hlocates, hturn⟩ := @UnderWay.turn_writes ι writers output plc others _ hready progress x h i hj
  have hpos := perPacket_pos (hready i).writable.packet
  have hfits := (hready i).fits
  obtain ⟨-, hstop⟩ := length_of_range hlocates.range
  have hchunk := length_writeChunk (writers i).tag (writers i).perPacket (progress i)
  have hcell := @PlcS.cell_written x.1 _ ((writers i).start + progress i) _
    (((writers i).tag.data.drop (progress i)).take (writers i).perPacket) hlocates.found (by omega)
  refine ⟨progress i + min (writers i).perPacket ((writers i).tag.size - progress i), by omega, ?_⟩
  rw [hturn]
  refine ⟨h.plcType, fun i' => ?_, fun i' => ?_, fun i' => ?_, fun i' => ?_, fun i' k hk => ?_,
    fun place k hnone => ?_⟩
  · obtain ⟨d', htype', hlocates'⟩ := h.locates i'
    refine ⟨_, ?_, hlocates'.written hlocates.found _ _⟩
    split_ifs
    · rw [← htype', TagDef.write_typeInfo]
    · exact htype'
  · by_cases hi : i' = i
    · subst hi
      simp only [Function.update_self]
      by_cases hmore : progress i' + (writers i').perPacket < (writers i').tag.size
      · rw [if_pos hmore, Nat.min_eq_left (by omega), if_pos hmore]
      · rw [if_neg hmore, if_neg (by omega)]
    · simp only [Function.update_of_ne hi]
      exact h.tag i'
  · by_cases hi : i' = i
    · subst hi
      rw [Function.update_self]
      omega
    · rw [Function.update_of_ne hi]
      exact h.le i'
  · by_cases hi : i' = i
    · subst hi
      rw [Function.update_self]
      omega
    · rw [Function.update_of_ne hi]
      exact h.part i'
  · rw [hcell, hchunk]
    by_cases hi : i' = i
    · subst hi
      rw [Function.update_self] at hk
      by_cases hold : k < progress i'
      · rw [if_neg (by omega)]
        exact h.written i' k hold
      · have hsub : (writers i').start + k - ((writers i').start + progress i') = k - progress i' := by omega
        rw [if_pos ⟨rfl, by omega, by omega⟩, hsub]
        exact getElem?_chunk (by omega) hk
    · rw [Function.update_of_ne hi] at hk
      have hle' := h.le i'
      rw [if_neg, h.written i' k hk]
      rintro ⟨hplace, hlow, hhigh⟩
      exact hi (hapart i' i (writers i').place ((writers i').start + k) ⟨rfl, by omega, by omega⟩
        ⟨hplace, by omega, by omega⟩)
  · rw [hcell, hchunk, if_neg (fun hin => hnone i ⟨hin.1, by omega, by omega⟩), h.kept place k hnone]

theorem UnderWay.run (hready : ∀ i, (writers i).Ready output plc)
    (hapart : ∀ i j place k, (writers i).Covers place k → (writers j).Covers place k → i = j)
    (schedule : List ι) {progress : ι → ℕ} {x : PlcS × (ι → AbTag)} (h : UnderWay writers plc progress x) :
    ∃ progress', (∀ i, min (progress i + schedule.count i) (writers i).tag.size ≤ progress' i) ∧
      UnderWay writers plc progress'
        (schedule.foldl (turnOf (fun i => (writers i).session) (serveCip others output)) x) := by
  induction schedule generalizing progress x with
  | nil => exact ⟨progress, fun i => by rw [List.count_nil]; exact Nat.min_le_left _ _, h⟩
  | cons i schedule ih =>
    obtain ⟨n, hn, hnext⟩ := @UnderWay.turn ι writers output plc others _ hready hapart progress x h i
    obtain ⟨progress', hcount, hdone⟩ := ih hnext
    refine ⟨progress', fun i' => ?_, hdone⟩
    have hmin := hcount i'
    rw [List.count_cons]
    by_cases hi : i' = i
    · subst hi
      rw [Function.update_self] at hmin
      rw [if_pos (beq_self_eq_true i')]
      omega
    · rw [Function.update_of_ne hi] at hmin
      rw [if_neg (by simpa using Ne.symm hi)]
      exact hmin

end Together

end Plctagt.Cip
