import Plctagt.Listing.Payload

/-! # The numbers of an entry

The instance id and the dimensions of a record have 32 bits; the entry keeps 16 of each, and
multiplies the dimensions in 16 bits. The C code multiplies them as `int`s; a product that an `int`
does not hold is taken to wrap.
-/
namespace Plctagt.Listing
open Decimal Tag
set_option autoImplicit false

namespace Record

/-- How many dimensions the type says there are. -/
def numDims (r : Record) : ℕ := ((r.type &&& tagDimMask) >>> 13).toNat

/-- How many elements the tag has: the product of its dimensions, 1 for a scalar. -/
def elements (r : Record) : ℕ :=
  (((List.finRange 3).take r.numDims).map fun i => (r.dims i).toNat).prod

end Record

theorem foldl_mul_toNat {ι : Type} (x : ι → ℕ) (l : List ι) (a : UInt16) :
    (l.foldl (fun count i => count * UInt16.ofNat (x i)) a).toNat =
      a.toNat * (l.map x).prod % 2 ^ 16 := by
  induction l generalizing a with
  | nil =>
    rw [List.foldl_nil, List.map_nil, List.prod_nil, Nat.mul_one]
    exact (Nat.mod_eq_of_lt a.toNat_lt).symm
  | cons i l ih =>
    rw [List.foldl_cons, ih, List.map_cons, List.prod_cons, UInt16.toNat_mul, UInt16.toNat_ofNat']
    have hmod : a.toNat * (x i % 2 ^ 16) % 2 ^ 16 ≡ a.toNat * x i [MOD 2 ^ 16] :=
      (Nat.mod_modEq _ _).trans ((Nat.mod_modEq (x i) _).mul_left _)
    calc a.toNat * (x i % 2 ^ 16) % 2 ^ 16 * (l.map x).prod % 2 ^ 16
        = a.toNat * x i * (l.map x).prod % 2 ^ 16 := hmod.mul_right _
      _ = a.toNat * (x i * (l.map x).prod) % 2 ^ 16 := by rw [Nat.mul_assoc]

theorem elemCount_toNat (parent : Option Text) (r : Record) :
    (r.node parent).elemCount.toNat = r.elements % 2 ^ 16 := by
  have h := foldl_mul_toNat (fun i => (r.dims i).toNat) ((List.finRange 3).take r.numDims) 1
  rw [UInt16.toNat_one, Nat.one_mul] at h
  exact h

/-- The entry made for a record has its instance id, its dimensions and its number of elements
modulo `2 ^ 16`. -/
theorem processTagEntry_fields {plc : Plc} {tagString : Text} {p q : List UInt8} {r : Record}
    (hb : (plc.tag tagString).isBit = false)
    (ho : (plc.tag tagString).byteOrder = listingTagLogixByteOrder)
    (hd : (plc.tag tagString).data = some (p ++ r.encode ++ q))
    (hsize : (p ++ r.encode ++ q).length < 2 ^ 31) {parent : Option Text} {rc offset : ℤ}
    {entry : TagNode}
    (h : processTagEntry plc tagString p.length parent = .ok (rc, offset, some entry)) :
    entry.instanceId.toNat = r.instanceId.toNat % 2 ^ 16 ∧
    (∀ i, (entry.dimensions i).toNat = (r.dims i).toNat % 2 ^ 16) ∧
    entry.elemCount.toNat = r.elements % 2 ^ 16 := by
  rw [processTagEntry_record hb ho hd hsize parent] at h
  split_ifs at h
  · cases h
    exact ⟨UInt16.toNat_ofNat', fun i => UInt16.toNat_ofNat', elemCount_toNat parent r⟩
  · cases h
  · cases h

/-! ## Records with large numbers -/

/-- An array of 256 by 256 elements, with an instance id of 17 bits. -/
def squareRecord : Record where
  instanceId := 0x10001
  type := 0x40C4
  elementLength := 4
  dims := ![256, 256, 0]
  name := text "S"
  name_length := by decide
  name_nul := by decide

def squarePlc : Plc := imagePlc [([], listingTagLogixByteOrder, squareRecord.encode)]

theorem squareRecord_data :
    (squarePlc.tag []).data = some ([] ++ squareRecord.encode ++ []) := rfl

theorem processTagEntry_square : processTagEntry squarePlc [] ([] : List UInt8).length none =
    .ok (plctagStatusOk, (23 : ℕ), some (squareRecord.node none)) := by
  have halloc : Allocated squarePlc [] ([] : List UInt8).length squareRecord = true := rfl
  rw [processTagEntry_record rfl rfl squareRecord_data (by decide) none, if_pos halloc]
  rfl

theorem processTagEntry_fields_square :
    (squareRecord.node none).instanceId.toNat = 0x10001 % 2 ^ 16 ∧
      (squareRecord.node none).elemCount.toNat = 65536 % 2 ^ 16 := by
  have h := processTagEntry_fields rfl rfl squareRecord_data (by decide) processTagEntry_square
  exact ⟨h.1, h.2.2⟩

/-- The entry of that record has another instance id, and no elements. -/
theorem squareRecord_cut : ∃ offset entry,
    processTagEntry squarePlc [] 0 none = .ok (plctagStatusOk, offset, some entry) ∧
      entry.instanceId.toNat ≠ squareRecord.instanceId.toNat ∧
      entry.elemCount.toNat ≠ squareRecord.elements :=
  ⟨_, _, processTagEntry_square, by decide, by decide⟩

end Plctagt.Listing
