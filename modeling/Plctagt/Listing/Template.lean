import Plctagt.Listing.Payload
import Plctagt.Listing.Visit

/-! # The image of a template

A template is sent as a header of 14 bytes, a descriptor of 8 bytes for each field, and strings that
end in a NUL: the name of the template, then those of the fields. For some templates the names stop
before the fields do.
-/
namespace Plctagt.Listing
open Bytes Decimal Tag Worklist
set_option autoImplicit false

/-! ## Images -/

structure Descriptor where
  metadata : UInt16
  type : UInt16
  offset : UInt32

namespace Descriptor

def encode (d : Descriptor) : List UInt8 :=
  littleEndian 2 d.metadata.toNat ++ littleEndian 2 d.type.toNat ++ littleEndian 4 d.offset.toNat

def field (d : Descriptor) : UdtField := ⟨none, d.type, d.metadata, d.offset⟩

theorem encode_length (d : Descriptor) : d.encode.length = 8 := by
  simp [encode]

end Descriptor

def terminated (s : Text) : List UInt8 := s ++ [0]

/-- A well-formed template. Its id has the 12 bits that a type word has for it. -/
structure Template where
  id : UInt16
  memberDescSize : UInt32
  instanceSize : UInt32
  structHandle : UInt16
  fields : List Descriptor
  name : Text
  memberNames : List Text
  id_lt : id.toNat < maxUdts
  fields_length : fields.length < 2 ^ 16
  name_nul : (0 : UInt8) ∉ name
  names_le : memberNames.length ≤ fields.length
  names_length : ∀ s ∈ memberNames, s.length < 256
  names_nul : ∀ s ∈ memberNames, (0 : UInt8) ∉ s

/-- The name of the field `i`; an empty one counts as none. -/
def memberName (names : List Text) (i : ℕ) : Option Text :=
  names[i]?.bind fun s => if s = [] then none else some s

namespace Template

def header (t : Template) : List UInt8 :=
  littleEndian 2 t.id.toNat ++ littleEndian 4 t.memberDescSize.toNat ++
    littleEndian 4 t.instanceSize.toNat ++ littleEndian 2 t.fields.length ++
    littleEndian 2 t.structHandle.toNat

def encode (t : Template) : List UInt8 :=
  t.header ++ t.fields.flatMap Descriptor.encode ++ terminated t.name ++
    t.memberNames.flatMap terminated

/-- What the table is to hold for the template: its name ends at the first semicolon. -/
def entry (t : Template) : UdtEntry where
  name := some (t.name.takeWhile (· ≠ 59))
  id := t.id
  numFields := UInt16.ofNat t.fields.length
  structHandle := t.structHandle
  instanceSize := t.instanceSize
  fields := t.fields.mapIdx fun i d => { d.field with name := memberName t.memberNames i }

theorem header_length (t : Template) : t.header.length = 14 := by
  simp [header]

end Template

/-- A tag whose buffer holds the template. Only when every field has its name may more follow. -/
structure HoldsTemplate (tag : PlcTag) (t : Template) : Prop where
  data : ∃ rest, tag.data = some (t.encode ++ rest) ∧
    (t.memberNames.length < t.fields.length → rest = []) ∧ (t.encode ++ rest).length < 2 ^ 31
  isBit : tag.isBit = false
  byteOrder : tag.byteOrder = udtTagLogixByteOrder

/-! ## Header and descriptors -/

section Words
variable {tag : PlcTag} (hb : tag.isBit = false) (ho : tag.byteOrder = udtTagLogixByteOrder)
include hb ho

theorem getUint16_template {v : ℕ} {offset : ℤ} (p q : List UInt8)
    (hd : tag.data = some (p ++ (littleEndian 2 v ++ q))) (hp : p.length = offset) :
    getUint16 tag offset = UInt16.ofNat v := by
  rw [← List.append_assoc] at hd
  rw [← hp]
  exact getUint16_window hb (by rw [ho]; rfl) hd

theorem getUint32_template {v : UInt32} {offset : ℤ} (p q : List UInt8)
    (hd : tag.data = some (p ++ (littleEndian 4 v.toNat ++ q))) (hp : p.length = offset) :
    getUint32 tag offset = v := by
  rw [← List.append_assoc] at hd
  have h := getWord_window hb .uint32 (by rw [ho]; rfl) hd
  rw [← hp, getUint32, plcTagGetUint32, h, BitVec.toNat_ofNat]
  apply UInt32.toNat_inj.mp
  rw [UInt32.toNat_ofNat']
  have hlt := v.toNat_lt
  show v.toNat % 2 ^ 32 % 2 ^ 32 = v.toNat
  omega

theorem template_words {t : Template} {rest : List UInt8}
    (hd : tag.data = some (t.encode ++ rest)) :
    getUint16 tag 0 = t.id ∧ getUint32 tag 6 = t.instanceSize ∧
      getUint16 tag 10 = UInt16.ofNat t.fields.length ∧ getUint16 tag 12 = t.structHandle := by
  set w₁ := littleEndian 2 t.id.toNat ++ littleEndian 4 t.memberDescSize.toNat with hw₁
  set w₂ := w₁ ++ littleEndian 4 t.instanceSize.toNat with hw₂
  set w₃ := w₂ ++ littleEndian 2 t.fields.length with hw₃
  have hlen : w₁.length = 6 ∧ w₂.length = 10 ∧ w₃.length = 12 := by
    simp [hw₃, hw₂, hw₁]
  obtain ⟨hl₁, hl₂, hl₃⟩ := hlen
  -- each word has the earlier ones before it
  set tail := t.fields.flatMap Descriptor.encode ++ (terminated t.name ++
    (t.memberNames.flatMap terminated ++ rest)) with htail
  have h₃ : t.encode ++ rest = w₃ ++ (littleEndian 2 t.structHandle.toNat ++ tail) := by
    simp only [Template.encode, Template.header, hw₃, hw₂, hw₁, htail, List.append_assoc]
  have h₂ := h₃.trans (List.append_assoc w₂ _ _)
  have h₁ := h₂.trans (List.append_assoc w₁ _ _)
  have h₀ := h₁.trans (List.append_assoc (littleEndian 2 t.id.toNat) _ _)
  refine ⟨?_, ?_, ?_, ?_⟩
  · have hid : getUint16 tag 0 = UInt16.ofNat t.id.toNat :=
      getUint16_template hb ho [] _ (hd.trans (congrArg some h₀)) rfl
    rw [hid]
    exact UInt16.ofNat_toNat
  · exact getUint32_template hb ho w₁ _ (hd.trans (congrArg some h₁)) (by rw [hl₁]; rfl)
  · exact getUint16_template hb ho w₂ _ (hd.trans (congrArg some h₂)) (by rw [hl₂]; rfl)
  · rw [getUint16_template hb ho w₃ _ (hd.trans (congrArg some h₃)) (by rw [hl₃]; rfl)]
    exact UInt16.ofNat_toNat

theorem descriptors_template (fields : List Descriptor) (p q : List UInt8)
    (hd : tag.data = some (p ++ (fields.flatMap Descriptor.encode ++ q))) :
    descriptors tag fields.length p.length = fields.map Descriptor.field := by
  induction fields generalizing p with
  | nil => rfl
  | cons d fields ih =>
    set tail := fields.flatMap Descriptor.encode ++ q with htail
    have h₀ : tag.data = some (p ++ (littleEndian 2 d.metadata.toNat ++
        (littleEndian 2 d.type.toNat ++ (littleEndian 4 d.offset.toNat ++ tail)))) := by
      rw [hd, List.flatMap_cons]
      simp only [Descriptor.encode, htail, List.append_assoc]
    have h₁ := h₀.trans (congrArg some (List.append_assoc p _ _).symm)
    have h₂ := h₁.trans (congrArg some (List.append_assoc (p ++ _) _ _).symm)
    have hmetadata : getUint16 tag p.length = d.metadata := by
      rw [getUint16_template hb ho p _ h₀ rfl]
      exact UInt16.ofNat_toNat
    have htype : getUint16 tag (p.length + 2) = d.type := by
      rw [getUint16_template hb ho _ _ h₁ (by simp)]
      exact UInt16.ofNat_toNat
    have hoffset : getUint32 tag (p.length + 4) = d.offset :=
      getUint32_template hb ho _ _ h₂ (by simp)
    have hrest := ih (p ++ d.encode) (by
      rw [hd, List.flatMap_cons]
      simp only [htail, List.append_assoc])
    rw [List.length_append, d.encode_length] at hrest
    rw [List.length_cons, List.map_cons, descriptors, hmetadata, htype, hoffset]
    exact congrArg _ hrest

end Words

/-! ## Strings -/

section Strings
variable {plc : Plc} {tagString : Text} (hb : (plc.tag tagString).isBit = false)
  (ho : (plc.tag tagString).byteOrder = udtTagLogixByteOrder)

theorem getElem?_string (p s q : List UInt8) (i : ℕ) :
    (p ++ (terminated s ++ q))[i + p.length + udtTagLogixByteOrder.strCountWordBytes]? =
      (terminated s ++ q)[i]? := by
  have hindex : i + p.length + udtTagLogixByteOrder.strCountWordBytes = p.length + i :=
    Nat.add_comm i p.length
  rw [hindex, List.getElem?_append_right (Nat.le_add_right _ _), Nat.add_sub_cancel_left]

theorem terminatedLength_string {p s q : List UInt8} (hs : (0 : UInt8) ∉ s)
    (hsize : p.length < 2 ^ 32) (n i : ℕ) (hi : i ≤ s.length) (hn : s.length < i + n) :
    terminatedLength udtTagLogixByteOrder (p ++ (terminated s ++ q)) p.length n i =
      some s.length := by
  induction n generalizing i with
  | zero => omega
  | succ n ih =>
    have hchar : udtTagLogixByteOrder.charIndex i = i := rfl
    unfold terminatedLength
    rw [hchar, toUnsigned_natCast _ hsize, getElem?_string]
    by_cases hlt : i < s.length
    · have hget : (terminated s ++ q)[i]? = some s[i] := by
        rw [terminated, List.append_assoc, List.getElem?_append_left hlt,
          List.getElem?_eq_getElem hlt]
      have hne : s[i] ≠ 0 := fun h => hs (h ▸ List.getElem_mem hlt)
      rw [hget]
      split
      · contradiction
      · rename_i heq
        exact absurd (Option.some.inj heq) hne
      · exact ih (i + 1) hlt (by omega)
    · have heq : i = s.length := by omega
      have hget : (terminated s ++ q)[i]? = some 0 := by
        rw [terminated, List.append_assoc, heq, List.getElem?_append_right le_rfl, Nat.sub_self]
        rfl
      rw [hget, heq]
      rfl

section OneString
variable {p s q : List UInt8} (hd : (plc.tag tagString).data = some (p ++ (terminated s ++ q)))
  (hs : (0 : UInt8) ∉ s) (hsize : (p ++ (terminated s ++ q)).length < 2 ^ 31)
include hb ho hd

theorem string_refusal : stringRefusal (plc.tag tagString) = none := by
  refine stringRefusal_none ?_ hd hb
  rw [ho]
  rfl

include hs hsize

omit hb in
theorem getStringLengthUnsafe_string :
    getStringLengthUnsafe (plc.tag tagString) p.length = some (s.length : ℤ) := by
  have hlen : (p ++ (terminated s ++ q)).length = p.length + (s.length + 1 + q.length) := by
    simp [terminated]
    omega
  have hread : getStringLengthUnsafe (plc.tag tagString) p.length =
      (terminatedLength udtTagLogixByteOrder (p ++ (terminated s ++ q)) p.length
        ((plc.tag tagString).size - (p.length + (0 : ℕ)) : ℤ).toNat 0).map Int.ofNat := by
    unfold getStringLengthUnsafe
    rw [ho, hd]
    rfl
  have htag : (plc.tag tagString).size = (p ++ (terminated s ++ q)).length := by
    rw [PlcTag.size_eq hd]
  rw [hread, terminatedLength_string hs (by omega) _ 0 (Nat.zero_le _) (by omega)]
  rfl

theorem getStringLength_string :
    plcTagGetStringLength (plc.tag tagString) p.length = some (s.length : ℤ) := by
  unfold plcTagGetStringLength
  rw [string_refusal hb ho hd]
  exact getStringLengthUnsafe_string ho hd hs hsize

theorem getStringTotalLength_string :
    plcTagGetStringTotalLength (plc.tag tagString) p.length =
      some ((terminated s).length : ℤ) := by
  unfold plcTagGetStringTotalLength
  rw [string_refusal hb ho hd]
  show getStringTotalLengthUnsafe (plc.tag tagString) p.length = _
  unfold getStringTotalLengthUnsafe
  rw [getStringLengthUnsafe_string ho hd hs hsize, ho]
  show some ((0 : ℤ) + s.length + 1 + 0) = _
  simp [terminated]

theorem getString_string :
    plcTagGetString (plc.tag tagString) p.length (s.length + 1) =
      some (plctagStatusOk, terminated s) := by
  have hlen : (p ++ (terminated s ++ q)).length = p.length + (s.length + 1 + q.length) := by
    simp [terminated]
    omega
  have htag : (plc.tag tagString).size = (p ++ (terminated s ++ q)).length := by
    rw [PlcTag.size_eq hd]
  have hchars : ∀ i (hi : i < s.length), (p ++ (terminated s ++ q))[udtTagLogixByteOrder.charIndex i +
      p.length + udtTagLogixByteOrder.strCountWordBytes]? = some (s.get ⟨i, hi⟩) := by
    intro i hi
    show (p ++ (terminated s ++ q))[i + p.length + udtTagLogixByteOrder.strCountWordBytes]? = _
    rw [getElem?_string, terminated, List.append_assoc, List.getElem?_append_left hi,
      List.getElem?_eq_getElem hi]
    rfl
  have hcopy := copyOut_eq udtTagLogixByteOrder (p ++ (terminated s ++ q)) p.length s (by omega)
    hchars s.length 0 (by omega)
  have hmax : (if (s.length : ℤ) + 1 < s.length then (s.length : ℤ) + 1 else s.length) = s.length :=
    if_neg (by omega)
  have hmin : min s.length (p ++ (terminated s ++ q)).length = s.length := by omega
  unfold plcTagGetString
  rw [string_refusal hb ho hd]
  simp only [getStringLengthUnsafe_string ho hd hs hsize, Option.map_some, hmax, htag, hd,
    Option.getD_some, Int.toNat_natCast, hmin, ho, hcopy]
  rw [if_pos]
  · have hpad : ((s.length : ℤ) + 1).toNat - s.length = 1 := by omega
    simp only [List.drop_zero, cleared, hpad]
    rfl
  · show (p.length : ℤ) + (0 : ℕ) + s.length ≤ _
    omega

theorem templateString_string (hcalloc : ∀ offset size, plc.calloc tagString offset size = true) :
    templateString plc tagString p.length = .ok (terminated s) := by
  unfold templateString
  dsimp only
  rw [getStringLength_string hb ho hd hs hsize]
  show (if plc.calloc tagString p.length (s.length + 1) = false then _ else _ :
    Except Halt Text) = _
  rw [hcalloc, if_neg (by simp), getString_string hb ho hd hs hsize]
  rfl

end OneString

/-! ## Names -/

theorem cstr_terminated {s : Text} (hs : (0 : UInt8) ∉ s) : cstr (terminated s) = s := by
  have hne : ∀ b ∈ s, decide (b ≠ 0) = true := by
    intro b hb
    rw [decide_eq_true_eq]
    rintro rfl
    exact hs hb
  unfold cstr terminated
  rw [List.takeWhile_append_of_pos hne]
  simp

theorem takeWhile_terminated (s : Text) (hs : (0 : UInt8) ∉ s) :
    cstr ((terminated s).takeWhile (· ≠ 59)) = s.takeWhile (· ≠ 59) := by
  induction s with
  | nil => rfl
  | cons b s ih =>
    have hb0 : b ≠ 0 := fun h => hs (h ▸ List.mem_cons_self)
    have hs' : (0 : UInt8) ∉ s := fun h => hs (List.mem_cons_of_mem b h)
    by_cases hb : b = 59
    · subst hb
      rfl
    · have hcons : (terminated (b :: s)).takeWhile (· ≠ 59) =
          b :: (terminated s).takeWhile (· ≠ 59) := by
        simp [terminated, hb]
      rw [hcons, List.takeWhile_cons_of_pos (by simp [hb]), ← ih hs']
      simp [cstr, hb0]

theorem mapIdx_memberName_nil (fields : List UdtField) (hnone : ∀ f ∈ fields, f.name = none) :
    (fields.mapIdx fun i f => { f with name := memberName [] i }) = fields := by
  induction fields with
  | nil => rfl
  | cons f fields ih =>
    rw [List.mapIdx_cons]
    congr 1
    · show { f with name := none } = f
      rw [← hnone f List.mem_cons_self]
    · exact ih fun g hg => hnone g (List.mem_cons_of_mem f hg)

include hb ho in
theorem fieldNames_template (hcalloc : ∀ offset size, plc.calloc tagString offset size = true)
    (fields : List UdtField) (names : List Text) (p q : List UInt8)
    (hd : (plc.tag tagString).data = some (p ++ (names.flatMap terminated ++ q)))
    (hq : names.length < fields.length → q = []) (hle : names.length ≤ fields.length)
    (hlength : ∀ s ∈ names, s.length < 256) (hnul : ∀ s ∈ names, (0 : UInt8) ∉ s)
    (hsize : (p ++ (names.flatMap terminated ++ q)).length < 2 ^ 31)
    (hnone : ∀ f ∈ fields, f.name = none) :
    fieldNames plc tagString fields p.length =
      .ok (fields.mapIdx fun i f => { f with name := memberName names i }) := by
  induction fields generalizing names p with
  | nil => rfl
  | cons f fields ih =>
    have hnone' : ∀ g ∈ fields, g.name = none := fun g hg => hnone g (List.mem_cons_of_mem f hg)
    have htag : (plc.tag tagString).size = (p ++ (names.flatMap terminated ++ q)).length := by
      rw [PlcTag.size_eq hd]
    unfold fieldNames
    dsimp only
    cases names with
    | nil =>
      -- the image ends here
      have hend : ¬(p.length : ℤ) < (plc.tag tagString).size := by
        rw [htag, hq (Nat.zero_lt_succ _)]
        simp
      rw [if_neg hend, mapIdx_memberName_nil _ hnone]
      rfl
    | cons s names =>
      have hassoc : p ++ ((s :: names).flatMap terminated ++ q) =
          p ++ (terminated s ++ (names.flatMap terminated ++ q)) := by
        rw [List.flatMap_cons, List.append_assoc]
      rw [hassoc] at hd hsize htag
      have hs : (0 : UInt8) ∉ s := hnul s List.mem_cons_self
      have hlt : (p.length : ℤ) < (plc.tag tagString).size := by
        rw [htag]
        simp only [terminated, List.length_append, List.length_singleton]
        omega
      have hs256 : ¬((s.length : ℤ) < 0 ∨ (256 : ℤ) ≤ s.length) := by
        have := hlength s List.mem_cons_self
        omega
      have hrest := ih names (p ++ terminated s) (by rw [hd, List.append_assoc])
        (fun h => hq (Nat.succ_lt_succ h)) (Nat.le_of_succ_le_succ hle)
        (fun s' hs' => hlength s' (List.mem_cons_of_mem s hs'))
        (fun s' hs' => hnul s' (List.mem_cons_of_mem s hs'))
        (by rw [List.append_assoc]; exact hsize) hnone'
      rw [List.length_append, Nat.cast_add] at hrest
      rw [if_pos hlt, getStringLength_string hb ho hd hs hsize]
      show (if (s.length : ℤ) < 0 ∨ (256 : ℤ) ≤ s.length then _ else _ :
        Except Halt (List UdtField)) = _
      rw [if_neg hs256, List.mapIdx_cons]
      by_cases hempty : s = []
      · subst hempty
        rw [if_neg (by simp)]
        have hone : (p.length : ℤ) + (terminated []).length = p.length + 1 := rfl
        rw [hone] at hrest
        rw [hrest]
        rfl
      · have hpos : (0 : ℤ) < s.length := by
          have := List.length_pos_iff.mpr hempty
          omega
        rw [if_pos hpos, templateString_string hb ho hd hs hsize hcalloc,
          getStringTotalLength_string hb ho hd hs hsize]
        show (fieldNames plc tagString fields (p.length + (terminated s).length) >>= _ :
          Except Halt (List UdtField)) = _
        rw [hrest]
        show Except.ok ({ f with name := some (cstr (terminated s)) } :: _) = _
        rw [cstr_terminated hs]
        simp [memberName, hempty]

end Strings

/-! ## The template as a whole -/

section Template
variable {plc : Plc} {tagString : Text} {t : Template} (ht : HoldsTemplate (plc.tag tagString) t)
  (hcalloc : ∀ offset size, plc.calloc tagString offset size = true)
include ht hcalloc

theorem templateNames_template :
    templateNames plc tagString (t.fields.map Descriptor.field) (14 + 8 * t.fields.length) =
      .ok (t.name.takeWhile (· ≠ 59), t.entry.fields) := by
  obtain ⟨⟨rest, hd, hrest, hsize⟩, hb, ho⟩ := ht
  set p := t.header ++ t.fields.flatMap Descriptor.encode with hp
  have hsum : (t.fields.map fun d => d.encode.length).sum = 8 * t.fields.length := by
    simp [Descriptor.encode_length, mul_comm]
  have hlen : (14 : ℤ) + 8 * t.fields.length = p.length := by
    rw [hp, List.length_append, t.header_length, List.length_flatMap, hsum]
    push_cast
    rfl
  have hname : t.encode ++ rest =
      p ++ (terminated t.name ++ (t.memberNames.flatMap terminated ++ rest)) := by
    simp only [Template.encode, hp, List.append_assoc]
  have hnames : t.encode ++ rest =
      (p ++ terminated t.name) ++ (t.memberNames.flatMap terminated ++ rest) :=
    hname.trans (List.append_assoc _ _ _).symm
  have hfields : (t.fields.map Descriptor.field).mapIdx
      (fun i f => { f with name := memberName t.memberNames i }) = t.entry.fields := by
    apply List.ext_getElem
    · simp [Template.entry]
    · intro i hi hi'
      simp [Template.entry]
  have hrun := fieldNames_template hb ho hcalloc (t.fields.map Descriptor.field) t.memberNames
    (p ++ terminated t.name) rest (hnames ▸ hd) (by rw [List.length_map]; exact hrest)
    (by rw [List.length_map]; exact t.names_le) t.names_length t.names_nul (hnames ▸ hsize)
    (by
      intro f hf
      obtain ⟨d, -, rfl⟩ := List.mem_map.mp hf
      rfl)
  rw [List.length_append, Nat.cast_add, hfields] at hrun
  unfold templateNames
  rw [hlen, templateString_string hb ho (hname ▸ hd) t.name_nul (hname ▸ hsize) hcalloc,
    getStringTotalLength_string hb ho (hname ▸ hd) t.name_nul (hname ▸ hsize)]
  show (fieldNames plc tagString _ (p.length + (terminated t.name).length) >>= _ :
    Except Halt (Text × List UdtField)) = _
  rw [hrun]
  show Except.ok (cstr ((terminated t.name).takeWhile (· ≠ 59)), _) = _
  rw [takeWhile_terminated t.name t.name_nul]

omit hcalloc in
theorem descriptors_holds : getUint16 (plc.tag tagString) 0 = t.id ∧
    getUint32 (plc.tag tagString) 6 = t.instanceSize ∧
    getUint16 (plc.tag tagString) 10 = UInt16.ofNat t.fields.length ∧
    getUint16 (plc.tag tagString) 12 = t.structHandle ∧
    (getUint16 (plc.tag tagString) 10).toNat = t.fields.length ∧
    descriptors (plc.tag tagString) t.fields.length 14 = t.fields.map Descriptor.field := by
  obtain ⟨⟨rest, hd, -, -⟩, hb, ho⟩ := ht
  obtain ⟨hid, hsize, hn, hhandle⟩ := template_words hb ho hd
  refine ⟨hid, hsize, hn, hhandle, ?_, ?_⟩
  · rw [hn, UInt16.toNat_ofNat', Nat.mod_eq_of_lt t.fields_length]
  · have hdescriptors := descriptors_template hb ho t.fields t.header
      (terminated t.name ++ (t.memberNames.flatMap terminated ++ rest))
      (by rw [hd]; simp only [Template.encode, List.append_assoc])
    rwa [t.header_length] at hdescriptors

theorem templateVisit_template :
    templateVisit plc tagString t.id = ⟨fieldUdts (t.fields.map Descriptor.field), none⟩ := by
  obtain ⟨hid, -, -, -, hlength, hfields⟩ := descriptors_holds ht
  unfold templateVisit
  dsimp only
  rw [if_neg (not_not.mpr hid), if_neg (by rw [hcalloc]; simp), hlength, hfields,
    templateNames_template ht hcalloc]

/-- The children of the template that are not in the table, those of the template itself apart. -/
def Template.queued (t : Template) (s : Statics) : List UInt16 :=
  (fieldUdts (t.fields.map Descriptor.field)).filter fun c => c ≠ t.id ∧ (s.udts c).isNone

theorem readTemplate_template (s : Statics) :
    (s.lastUdt + (t.queued s).length ≤ maxUdts →
      readTemplate plc tagString t.id s = .ok plctagStatusOk
        { s with udts := Function.update s.udts t.id (some t.entry)
                 udtsToProcess := s.udtsToProcess ++ t.queued s }) ∧
    (s.lastUdt ≤ maxUdts → maxUdts < s.lastUdt + (t.queued s).length →
      ∃ s', readTemplate plc tagString t.id s = .error .overrun s') := by
  have hnames := templateNames_template ht hcalloc
  obtain ⟨hid, hsize, hn, hhandle, hlength, hfields⟩ := descriptors_holds ht
  have hr := readTemplate_eq plc tagString t.id s hlength hid (hcalloc _ _)
  dsimp only at hr
  set entry : UdtEntry := ⟨none, t.id, getUint16 (plc.tag tagString) 10,
    getUint16 (plc.tag tagString) 12, getUint32 (plc.tag tagString) 6,
    List.replicate t.fields.length ⟨none, 0, 0, 0⟩⟩ with hentry
  set s₁ : Statics := { s with udts := Function.update s.udts t.id (some entry) } with hs₁
  have hnew : newUdts s₁ (descriptors (plc.tag tagString) t.fields.length 14) = t.queued s := by
    rw [hfields]
    exact newUdts_define t.id s entry _
  obtain ⟨hok, hfull⟩ := scanFields_eq (plc.tag tagString) t.fields.length 14 s₁
  rw [hnew] at hok hfull
  refine ⟨fun hroom => ?_, fun hle h => ?_⟩
  · have hstored : ({ entry with name := some (t.name.takeWhile (· ≠ 59))
                                 fields := t.entry.fields } : UdtEntry) = t.entry := by
      rw [hentry, hn, hhandle, hsize]
      rfl
    rw [hr, bind_of_ok _ (hok hroom), hfields, hnames]
    show EStateM.Result.ok _ _ = _
    rw [hstored]
    simp only [hs₁, Function.update_idem]
  · obtain ⟨s', hs'⟩ := hfull hle h
    rw [hr, bind_of_error _ hs']
    exact ⟨s', rfl⟩

end Template

section Definition
variable {plc : Plc} {base tagString : Text} {tag : ℤ} {t : Template}
  (hopen : openTag plc base (udtName t.id) = .ok (tagString, tag))
  (hread : plc.read tagString = plctagStatusOk) (ht : HoldsTemplate (plc.tag tagString) t)
  (hcalloc : ∀ offset size, plc.calloc tagString offset size = true)
include hopen hread ht hcalloc

theorem visit_template :
    visit plc base t.id = ⟨fieldUdts (t.fields.map Descriptor.field), none⟩ := by
  unfold visit
  rw [hopen]
  show (if plc.read tagString = plctagErrUnsupported then _ else _ : Visit UInt16 Stop) = _
  rw [if_neg (by rw [hread]; decide), if_neg (not_not.mpr hread)]
  exact templateVisit_template ht hcalloc

theorem getUdtDefinition_template (s : Statics) (hnone : s.udts t.id = none) :
    (s.lastUdt + (t.queued s).length ≤ maxUdts →
      getUdtDefinition plc base t.id s = .ok plctagStatusOk
        { s with udts := Function.update s.udts t.id (some t.entry)
                 udtsToProcess := s.udtsToProcess ++ t.queued s
                 opened := s.opened ++ [t.id] }) ∧
    (s.lastUdt ≤ maxUdts → maxUdts < s.lastUdt + (t.queued s).length →
      ∃ s', getUdtDefinition plc base t.id s = .error .overrun s') := by
  rw [getUdtDefinition_opened plc base tagString t.id s hnone hopen hread]
  exact readTemplate_template ht hcalloc { s with opened := s.opened ++ [t.id] }

/-- A template that is read into the table is recorded there as it is, if and only if there is room
in the queue for its children. -/
theorem getUdtDefinition_records_iff (s : Statics) (hnone : s.udts t.id = none)
    (hle : s.lastUdt ≤ maxUdts) :
    (∃ s', getUdtDefinition plc base t.id s = .ok plctagStatusOk s' ∧
      s'.udts t.id = some t.entry) ↔ s.lastUdt + (t.queued s).length ≤ maxUdts := by
  obtain ⟨hfits, hfull⟩ := getUdtDefinition_template hopen hread ht hcalloc s hnone
  constructor
  · rintro ⟨s', hrun, -⟩
    by_contra hroom
    obtain ⟨s'', hs''⟩ := hfull hle (Nat.lt_of_not_le hroom)
    rw [hs''] at hrun
    cases hrun
  · intro hroom
    exact ⟨_, hfits hroom, Function.update_self _ _ _⟩

end Definition

/-! ## Two templates -/

def templateBase : Text := tagStringBase (text "t") (text "1")

def templatePlc (t : Template) : Plc :=
  imagePlc [(templateBase ++ udtName t.id, udtTagLogixByteOrder, t.encode)]

def pairTemplate : Template where
  id := 1
  memberDescSize := 9
  instanceSize := 8
  structHandle := 0x1234
  fields := [⟨0, 0xC4, 0⟩, ⟨0, 0x8002, 4⟩, ⟨3, 0xC1, 6⟩]
  name := text "PAIR;n"
  memberNames := [text "A", []]
  id_lt := by decide
  fields_length := by decide
  name_nul := by decide
  names_le := by decide
  names_length := by decide
  names_nul := by decide

theorem holds_templatePlc (t : Template) (hsize : t.encode.length < 2 ^ 31) :
    HoldsTemplate ((templatePlc t).tag (templateBase ++ udtName t.id)) t := by
  have htag : (templatePlc t).tag (templateBase ++ udtName t.id) =
      ⟨some t.encode, false, 0, false, udtTagLogixByteOrder⟩ := by
    unfold templatePlc imagePlc
    dsimp only
    rw [List.find?_cons_of_pos (by simp)]
  rw [htag]
  refine ⟨⟨[], ?_, fun _ => rfl, ?_⟩, rfl, rfl⟩
  · rw [List.append_nil]
  · rw [List.append_nil]
    exact hsize

theorem getUdtDefinition_records_pair :
    ∃ s', getUdtDefinition (templatePlc pairTemplate) templateBase 1 fresh =
      .ok plctagStatusOk s' ∧ s'.udts 1 = some pairTemplate.entry :=
  (@getUdtDefinition_records_iff (templatePlc pairTemplate) templateBase
    (templateBase ++ udtName 1) 1 pairTemplate (by rfl) (by rfl)
    (holds_templatePlc pairTemplate (by decide)) (fun _ _ => rfl) fresh rfl (Nat.zero_le _)).mpr
    (by decide)

def wideTemplate : Template where
  id := 1
  memberDescSize := 9
  instanceSize := 8
  structHandle := 0x1234
  fields := List.replicate (maxUdts + 1) ⟨0, 0x8002, 0⟩
  name := text "WIDE"
  memberNames := []
  id_lt := by decide
  fields_length := by
    rw [List.length_replicate]
    decide
  name_nul := by decide
  names_le := Nat.zero_le _
  names_length := fun s hs => absurd hs List.not_mem_nil
  names_nul := fun s hs => absurd hs List.not_mem_nil

theorem length_wideTemplate : (wideTemplate.queued fresh).length = maxUdts + 1 := by
  have hqueued : wideTemplate.queued fresh = List.replicate (maxUdts + 1) 2 := by
    unfold Template.queued fieldUdts wideTemplate
    dsimp only
    rw [List.map_replicate, List.filter_replicate_of_pos (by decide), List.map_replicate,
      List.filter_replicate_of_pos (by decide)]
    rfl
  rw [hqueued, List.length_replicate]

theorem wideTemplate_size : wideTemplate.encode.length < 2 ^ 31 := by
  have hfields : (wideTemplate.fields.flatMap Descriptor.encode).length = 8 * (maxUdts + 1) := by
    unfold wideTemplate
    dsimp only
    rw [List.length_flatMap, List.map_replicate, List.sum_replicate, Descriptor.encode_length,
      smul_eq_mul, mul_comm]
  unfold Template.encode
  rw [List.length_append, List.length_append, List.length_append, hfields,
    Template.header_length]
  decide

/-- The 4097th store goes past the end of the queue. -/
theorem getUdtDefinition_wide :
    HoldsTemplate ((templatePlc wideTemplate).tag (templateBase ++ udtName 1)) wideTemplate ∧
    ¬∃ s', getUdtDefinition (templatePlc wideTemplate) templateBase 1 fresh =
      .ok plctagStatusOk s' ∧ s'.udts 1 = some wideTemplate.entry := by
  have ht := holds_templatePlc wideTemplate wideTemplate_size
  refine ⟨ht, ?_⟩
  rintro ⟨s', hrun, -⟩
  obtain ⟨s'', hs''⟩ := (@getUdtDefinition_template (templatePlc wideTemplate) templateBase
    (templateBase ++ udtName 1) 1 wideTemplate (by rfl) (by rfl) ht (fun _ _ => rfl) fresh
    rfl).2 (Nat.zero_le _) (by rw [length_wideTemplate]; decide)
  have hoverrun : getUdtDefinition (templatePlc wideTemplate) templateBase 1 fresh =
    .error .overrun s'' := hs''
  rw [hoverrun] at hrun
  cases hrun

end Plctagt.Listing
