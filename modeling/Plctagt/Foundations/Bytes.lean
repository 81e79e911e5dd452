import Mathlib

/-! # Words and bits laid out in a byte buffer

A word of `w` bytes is stored at an offset through a lane table: byte `k` of the word (least
significant first) goes to the buffer cell `offset + lanes k`. A lane table uses every cell of the
word exactly once, so what is stored can be loaded back whatever the byte order is.

* `store`/`load`: length, frame, and load-after-store at the same and at a disjoint place.
* `setBit`/`bitAt`: the same for single bits, addressed as `8 * byte + bit`.
-/
namespace Plctagt.Bytes
set_option autoImplicit false

/-! ## Lane tables -/

/-- Where each byte of a `w`-byte word lies among the word's `w` cells; no cell is used twice. -/
structure Lanes (w : ℕ) where
  lane : Fin w → Fin w
  injective : Function.Injective lane

/-- Least significant byte first. -/
def Lanes.little (w : ℕ) : Lanes w := ⟨id, Function.injective_id⟩

/-- Most significant byte first. -/
def Lanes.big (w : ℕ) : Lanes w := ⟨Fin.rev, Fin.rev_injective⟩

/-! ## Words -/

/-- Byte `k` of a number, least significant first. -/
def byteOf (v k : ℕ) : UInt8 := UInt8.ofNat (v / 256 ^ k)

theorem byteOf_toNat (v k : ℕ) : (byteOf v k).toNat = v / 256 ^ k % 256 := by
  simp [byteOf]

section Words
variable {w : ℕ}

/-- Store the first `w` bytes of `v` at `offset`, one cell after the other. -/
def store (data : List UInt8) (offset : ℕ) (lanes : Lanes w) (v : ℕ) : List UInt8 :=
  (List.finRange w).foldl (fun d k => d.set (offset + lanes.lane k) (byteOf v k)) data

/-- The number whose byte `k` is in cell `offset + lanes k`; cells past the end count as zero. -/
def load (data : List UInt8) (offset : ℕ) (lanes : Lanes w) : ℕ :=
  ((List.finRange w).map fun k => (data.getD (offset + lanes.lane k) 0).toNat * 256 ^ k.val).sum

theorem foldl_set_length (ks : List (Fin w)) (at' : Fin w → ℕ) (b : Fin w → UInt8)
    (data : List UInt8) :
    (ks.foldl (fun d k => d.set (at' k) (b k)) data).length = data.length := by
  induction ks generalizing data with
  | nil => rfl
  | cons k ks ih => rw [List.foldl_cons, ih, List.length_set]

@[simp] theorem store_length (data : List UInt8) (offset : ℕ) (lanes : Lanes w) (v : ℕ) :
    (store data offset lanes v).length = data.length := foldl_set_length _ _ _ _

theorem getD_set_ne (data : List UInt8) (i j : ℕ) (b : UInt8) (h : i ≠ j) :
    (data.set i b).getD j 0 = data.getD j 0 := by
  simp only [List.getD_eq_getElem?_getD, List.getElem?_set_ne h]

theorem getD_set_self (data : List UInt8) (i : ℕ) (b : UInt8) (h : i < data.length) :
    (data.set i b).getD i 0 = b := by
  simp [List.getD_eq_getElem?_getD, h]

theorem foldl_set_frame (ks : List (Fin w)) (at' : Fin w → ℕ) (b : Fin w → UInt8)
    (data : List UInt8) (i : ℕ) (h : ∀ k ∈ ks, at' k ≠ i) :
    (ks.foldl (fun d k => d.set (at' k) (b k)) data).getD i 0 = data.getD i 0 := by
  induction ks generalizing data with
  | nil => rfl
  | cons k ks ih =>
    rw [List.foldl_cons, ih _ (fun j hj => h j (List.mem_cons_of_mem k hj))]
    exact getD_set_ne data _ _ _ (h k List.mem_cons_self)

theorem foldl_set_at (ks : List (Fin w)) (at' : Fin w → ℕ) (b : Fin w → UInt8)
    (data : List UInt8) (hnd : ks.Nodup) (hinj : Function.Injective at')
    (hin : ∀ k ∈ ks, at' k < data.length) (k : Fin w) (hk : k ∈ ks) :
    (ks.foldl (fun d k => d.set (at' k) (b k)) data).getD (at' k) 0 = b k := by
  induction ks generalizing data with
  | nil => cases hk
  | cons j ks ih =>
    obtain ⟨hj, hnd'⟩ := List.nodup_cons.mp hnd
    rw [List.foldl_cons]
    rcases List.mem_cons.mp hk with rfl | hk'
    · -- the head's cell: later writes go elsewhere
      rw [foldl_set_frame ks at' b _ _ (fun i hi he => by
        have e := hinj he
        subst e
        exact hj hi)]
      exact getD_set_self data _ _ (hin k List.mem_cons_self)
    · refine ih _ hnd' (fun i hi => ?_) hk'
      rw [List.length_set]
      exact hin i (List.mem_cons_of_mem j hi)

theorem lane_lt (lanes : Lanes w) (offset : ℕ) (k : Fin w) :
    offset + (lanes.lane k).val < offset + w := by
  have := (lanes.lane k).isLt
  omega

theorem store_frame (data : List UInt8) (offset : ℕ) (lanes : Lanes w) (v i : ℕ)
    (h : i < offset ∨ offset + w ≤ i) :
    (store data offset lanes v).getD i 0 = data.getD i 0 := by
  refine foldl_set_frame _ _ _ _ _ (fun k _ => ?_)
  have := lane_lt lanes offset k
  omega

theorem store_lane (data : List UInt8) (offset : ℕ) (lanes : Lanes w) (v : ℕ)
    (h : offset + w ≤ data.length) (k : Fin w) :
    (store data offset lanes v).getD (offset + lanes.lane k) 0 = byteOf v k := by
  refine foldl_set_at (List.finRange w) (fun k => offset + (lanes.lane k).val) (fun k => byteOf v k)
    data (List.nodup_finRange w) ?_ ?_ k (List.mem_finRange k)
  · intro i j hij
    exact lanes.injective (Fin.ext (Nat.add_left_cancel hij))
  · intro j _
    have := lane_lt lanes offset j
    omega

theorem load_congr (data data' : List UInt8) (offset : ℕ) (lanes : Lanes w)
    (h : ∀ i, offset ≤ i → i < offset + w → data.getD i 0 = data'.getD i 0) :
    load data offset lanes = load data' offset lanes := by
  unfold load
  congr 1
  refine List.map_congr_left (fun k _ => ?_)
  rw [h _ (Nat.le_add_right _ _) (lane_lt lanes offset k)]

/-- The bytes of a number, weighted again, give the number back below `256 ^ w`. -/
theorem sum_bytes (v : ℕ) : ∀ w : ℕ,
    ((List.finRange w).map fun k => v / 256 ^ k.val % 256 * 256 ^ k.val).sum = v % 256 ^ w
  | 0 => by simp [Nat.mod_one]
  | w + 1 => by
      have ih := sum_bytes v w
      rw [List.finRange_succ_last, List.map_append, List.sum_append, List.map_map]
      simp only [Function.comp_def, Fin.val_castSucc, List.map_cons, List.map_nil, List.sum_cons,
        List.sum_nil, Fin.val_last, Nat.add_zero]
      rw [ih, Nat.mod_pow_succ, Nat.mul_comm]

theorem load_store (data : List UInt8) (offset : ℕ) (lanes : Lanes w) (v : ℕ)
    (h : offset + w ≤ data.length) :
    load (store data offset lanes v) offset lanes = v % 256 ^ w := by
  rw [← sum_bytes v w]
  unfold load
  congr 1
  refine List.map_congr_left (fun k _ => ?_)
  rw [store_lane data offset lanes v h k, byteOf_toNat]

theorem load_store_disjoint {w' : ℕ} (data : List UInt8) (offset offset' : ℕ) (lanes : Lanes w)
    (lanes' : Lanes w') (v : ℕ) (h : offset' + w' ≤ offset ∨ offset + w ≤ offset') :
    load (store data offset lanes v) offset' lanes' = load data offset' lanes' := by
  refine load_congr _ _ _ _ (fun i h1 h2 => ?_)
  exact store_frame data offset lanes v i (by omega)

end Words

/-- The first `w` bytes of a number, least significant first. -/
def littleEndian (w v : ℕ) : List UInt8 := (List.range w).map (byteOf v)

@[simp] theorem littleEndian_length (w v : ℕ) : (littleEndian w v).length = w := by
  rw [littleEndian, List.length_map, List.length_range]

theorem load_littleEndian (p q : List UInt8) (w v : ℕ) :
    load (p ++ littleEndian w v ++ q) p.length (Lanes.little w) = v % 256 ^ w := by
  rw [← sum_bytes v w]
  unfold load
  congr 1
  refine List.map_congr_left (fun k _ => ?_)
  have hk : k.val < (littleEndian w v).length := by rw [littleEndian_length]; exact k.isLt
  have hget : (p ++ littleEndian w v ++ q).getD (p.length + k) 0 = byteOf v k := by
    rw [List.append_assoc, List.getD_eq_getElem?_getD,
      List.getElem?_append_right (Nat.le_add_right _ _), Nat.add_sub_cancel_left,
      List.getElem?_append_left hk]
    simp [littleEndian]
  rw [← byteOf_toNat, ← hget]
  rfl

/-! ## Bits -/

/-- Bit `i % 8` of byte `i / 8`. -/
def bitAt (data : List UInt8) (i : ℕ) : Bool := (data.getD (i / 8) 0).toNat.testBit (i % 8)

/-- The byte with bit `k` set or cleared. -/
def putBit (x : UInt8) (k : ℕ) (b : Bool) : UInt8 :=
  if b then x ||| (1 <<< UInt8.ofNat k) else x &&& ~~~(1 <<< UInt8.ofNat k)

def setBit (data : List UInt8) (i : ℕ) (b : Bool) : List UInt8 :=
  data.set (i / 8) (putBit (data.getD (i / 8) 0) (i % 8) b)

@[simp] theorem setBit_length (data : List UInt8) (i : ℕ) (b : Bool) :
    (setBit data i b).length = data.length := List.length_set

theorem mask_testBit : ∀ k < 8, ∀ j < 8,
    ((1 : UInt8) <<< UInt8.ofNat k).toNat.testBit j = decide (j = k) ∧
    (~~~((1 : UInt8) <<< UInt8.ofNat k)).toNat.testBit j = decide (j ≠ k) := by
  decide

theorem putBit_testBit (x : UInt8) (k j : ℕ) (b : Bool) (hk : k < 8) (hj : j < 8) :
    (putBit x k b).toNat.testBit j = if j = k then b else x.toNat.testBit j := by
  obtain ⟨hset, hclear⟩ := mask_testBit k hk j hj
  cases b
  · rw [putBit, if_neg (by simp), UInt8.toNat_and, Nat.testBit_and, hclear]
    by_cases h : j = k <;> simp [h]
  · rw [putBit, if_pos rfl, UInt8.toNat_or, Nat.testBit_or, hset]
    by_cases h : j = k <;> simp [h]

theorem bitAt_setBit_self (data : List UInt8) (i : ℕ) (b : Bool) (h : i / 8 < data.length) :
    bitAt (setBit data i b) i = b := by
  rw [bitAt, setBit, getD_set_self _ _ _ h,
    putBit_testBit _ _ _ _ (Nat.mod_lt _ (by norm_num)) (Nat.mod_lt _ (by norm_num)), if_pos rfl]

theorem bitAt_setBit_ne (data : List UInt8) (i j : ℕ) (b : Bool) (h : j ≠ i) :
    bitAt (setBit data i b) j = bitAt data j := by
  by_cases hbyte : i / 8 = j / 8
  · -- the same byte: another bit of it
    by_cases hin : i / 8 < data.length
    · rw [bitAt, setBit, ← hbyte, getD_set_self _ _ _ hin,
        putBit_testBit _ _ _ _ (Nat.mod_lt _ (by norm_num)) (Nat.mod_lt _ (by norm_num)),
        if_neg (by omega), bitAt, hbyte]
    · rw [setBit, List.set_eq_of_length_le (by omega)]
  · rw [bitAt, setBit, getD_set_ne _ _ _ _ hbyte, bitAt]

end Plctagt.Bytes
