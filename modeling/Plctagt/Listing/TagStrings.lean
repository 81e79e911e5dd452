import Plctagt.Listing.Udt

/-! # The strings handed to `plc_tag_create`

A listing tag string is put together in three buffers: the base in one of 200 bytes, a program's
name in one of 256, and both of them in one of 201. They are handed on in full exactly when base and
name fit the last one together; nothing checks that they do.
-/
namespace Plctagt.Listing
open Decimal Tag
set_option autoImplicit false

/-- `TAG_STRING_TEMPLATE` with gateway and path, in full. -/
def template (gateway path : Text) : Text :=
  text "protocol=ab-eip&gateway=" ++ gateway ++ text "&path=" ++ path ++
    text "&plc=ControlLogix&name="

/-- The tags that `list_tags` opens. -/
inductive Special
  | controller
  | program (name : Text)
  | udt (id : UInt16)

def Special.name : Special → Text
  | .controller => text "@tags"
  | .program name => name ++ text ".@tags"
  | .udt id => udtName id

/-- The name as it stands in its buffer. -/
def Special.buffered : Special → Text
  | .controller => text "@tags"
  | .program name => snprintf 256 (name ++ text ".@tags")
  | .udt id => snprintf 32 (udtName id)

/-- What `open_tag` hands to `plc_tag_create`; `none` when it writes past its buffer. -/
def handed (base tagName : Text) : Option Text :=
  let tagString := base.take tagStringSize ++ tagName.take tagStringSize
  if tagStringSize < tagString.length then none else some tagString

theorem openTag_handed (plc : Plc) (base tagName : Text) :
    openTag plc base tagName =
      match handed base tagName with
      | none => .error .undefined
      | some tagString =>
        if plc.create tagString < 0 then .error .exit
        else .ok (tagString, plc.create tagString) := by
  unfold openTag handed
  dsimp only
  split <;> rfl

theorem buffered_eq {l : Special} (h : l.name.length ≤ tagStringSize) : l.buffered = l.name := by
  cases l with
  | controller => rfl
  | program name => exact List.take_of_length_le (h.trans (by decide))
  | udt id =>
    have hlen : (printNat id.toNat).length ≤ 5 :=
      printNat_length_le _ 5 (by decide) (lt_trans id.toNat_lt (by decide))
    refine List.take_of_length_le ?_
    rw [udtName, List.length_append]
    have htext : (text "@udt/").length = 5 := rfl
    omega

/-- The string handed on is the template followed by the name, in full, if and only if they fit
200 bytes. -/
theorem handed_eq_iff {gateway path base : Text} (hbase : setupTagString gateway path = .ok base)
    (l : Special) :
    handed base l.buffered = some (template gateway path ++ l.name) ↔
      (template gateway path).length + l.name.length ≤ tagStringSize := by
  have hname : 0 < l.name.length := by
    cases l with
    | controller => decide
    | program name =>
      show 0 < (name ++ text ".@tags").length
      rw [List.length_append]
      exact Nat.add_pos_right _ (by decide)
    | udt id =>
      show 0 < (text "@udt/" ++ printNat id.toNat).length
      rw [List.length_append]
      exact Nat.add_pos_left (by decide) _
  constructor
  · intro h
    unfold handed at h
    dsimp only at h
    split_ifs at h with hsize
    rw [Option.some.inj h, List.length_append] at hsize
    omega
  · intro hfits
    have hsetup : base = snprintf tagStringSize (template gateway path) := by
      unfold setupTagString at hbase
      split_ifs at hbase
      exact (Except.ok.inj hbase).symm
    have hfull : base = template gateway path := by
      rw [hsetup]
      exact snprintf_eq_self _ _ (by omega)
    have hsize : ¬tagStringSize < (template gateway path ++ l.name).length := by
      rw [List.length_append]
      omega
    unfold handed
    dsimp only
    rw [buffered_eq (by omega), hfull, List.take_of_length_le (by omega),
      List.take_of_length_le (by omega), if_neg hsize]

theorem handed_eq_iff_program :
    handed (tagStringBase (text "10.1.2.3") (text "1,0")) (Special.program (text "Program:P")).buffered =
      some (text
        "protocol=ab-eip&gateway=10.1.2.3&path=1,0&plc=ControlLogix&name=Program:P.@tags") :=
  (@handed_eq_iff (text "10.1.2.3") (text "1,0") _ rfl (.program (text "Program:P"))).mpr
    (by decide)

/-- A gateway of 180 characters leaves no room for the rest of the template. -/
theorem handed_cut : ¬∀ (gateway path base : Text) (l : Special),
    setupTagString gateway path = .ok base →
      handed base l.buffered = some (template gateway path ++ l.name) := by
  intro h
  have hcut := h (List.replicate 180 103) (text "1") _ .controller rfl
  exact absurd hcut (by decide +kernel)

end Plctagt.Listing
