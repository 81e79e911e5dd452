import Plctagt.Gui.Conversions
import Plctagt.Gui.Run

/-! # What [Write] hands over of what [Read] put into Section 3

A value that was read goes through `std::to_string`, then `formatValueForType` when it is stored and
again at every redraw, and `toNumericVector` on the way out. For the integer types and `BIT` the
printed value is a fixed point of `formatValueForType`, so a redraw changes nothing. On the way out
`strtoll` serves every integral type: a `uint64_t` from `2 ^ 63` on is out of its range, and becomes 0.
-/
namespace Plctagt.Gui
open Effects Decimal Tag
set_option autoImplicit false

/-! ## Numbers through `strto*` and `snprintf` -/

theorem checked_strtoll_printInt (n : ℤ) (hlo : longMin ≤ n) (hhi : n ≤ longMax) :
    Strto.checked (strtoll (printInt n)) = n := by
  rw [strtoll_printInt n hlo hhi]
  rfl

theorem checked_strtoull_printNat (n : ℕ) (h : n ≤ ulongMax) :
    Strto.checked (strtoull (printInt n)) = n := by
  rw [strtoull_printNat n h]
  rfl

theorem toInt_eq_self (n : ℤ) (hlo : intMin ≤ n) (hhi : n ≤ intMax) : toInt n = n := by
  have hlo' : -2 ^ 31 ≤ n := hlo
  have hhi' : n ≤ 2 ^ 31 - 1 := hhi
  rw [toInt, BitVec.toInt_ofInt]
  exact Int.bmod_eq_of_le (by omega) (by omega)

theorem snprintf_printInt (n : ℤ) (h : n.natAbs < 10 ^ 20) :
    snprintf 256 (printInt n) = printInt n := by
  apply snprintf_eq_self
  have := printInt_length_le n 20 (by norm_num) h
  omega

/-! ## One value -/

/-- The integral types of Section 2 whose pattern is shown as it is, with the `T` of
`handleEnterKey`. -/
def integerTypes : List (Text × ElemType) :=
  [(text "INT8", .num .int8), (text "INT16", .num .int16), (text "INT32", .num .int32),
    (text "INT64", .num .int64), (text "UINT8", .num .uint8), (text "UINT16", .num .uint16),
    (text "UINT32", .num .uint32), (text "UINT64", .num .uint64), (text "BIT", .bool)]

theorem tagKind_integerTypes : ∀ p ∈ integerTypes, tagKind p.1 = some (.elem p.2) := by
  decide

/-- `strtoll` reads the printed value. -/
def InLongRange : (t : ElemType) → t.Val → Prop
  | .num .uint64, v => v.toNat < 2 ^ 63
  | _, _ => True

/-- What `%d`, `%ld` and `%lld` print of a number that was printed. -/
theorem snprintf_checked_strtoll {n : ℤ} (h : -2 ^ 63 ≤ n ∧ n < 2 ^ 63) :
    snprintf 256 (printInt (Strto.checked (strtoll (printInt n)))) = printInt n := by
  have hmin : longMin = -2 ^ 63 := rfl
  have hmax : longMax = 2 ^ 63 - 1 := rfl
  rw [checked_strtoll_printInt n (by omega) (by omega)]
  exact snprintf_printInt n (by omega)

/-- And what `%u`, `%lu` and `%llu` do. -/
theorem snprintf_checked_strtoull {n : ℕ} (h : n < 2 ^ 64) :
    snprintf 256 (printInt (Strto.checked (strtoull (printInt n)))) = printInt n := by
  have hmax : ulongMax = 2 ^ 64 - 1 := rfl
  rw [checked_strtoull_printNat n (by omega)]
  exact snprintf_printInt n (by omega)

theorem snprintf_toInt {n : ℤ} (h : -2 ^ 31 ≤ n ∧ n < 2 ^ 31) :
    snprintf 256 (printInt (toInt (Strto.checked (strtoll (printInt n))))) = printInt n := by
  have hmin : longMin = -2 ^ 63 := rfl
  have hmax : longMax = 2 ^ 63 - 1 := rfl
  have himin : intMin = -2 ^ 31 := rfl
  have himax : intMax = 2 ^ 31 - 1 := rfl
  rw [checked_strtoll_printInt n (by omega) (by omega), toInt_eq_self n (by omega) (by omega)]
  exact snprintf_printInt n (by omega)

theorem snprintf_toUnsigned {n : ℕ} (h : n < 2 ^ 32) :
    snprintf 256 (printInt (toUnsigned (Strto.checked (strtoull (printInt n))))) = printInt n := by
  have hmax : ulongMax = 2 ^ 64 - 1 := rfl
  rw [checked_strtoull_printNat n (by omega), toUnsigned_natCast n h]
  exact snprintf_printInt n (by omega)

variable (fl : FloatText)

theorem formatValueForType_toString {type : Text} {t : ElemType} (h : (type, t) ∈ integerTypes)
    (v : t.Val) : formatValueForType fl type (toString fl t v) = toString fl t v := by
  simp only [integerTypes, List.mem_cons, Prod.mk.injEq, List.not_mem_nil, or_false] at h
  rcases h with ⟨rfl, rfl⟩ | ⟨rfl, rfl⟩ | ⟨rfl, rfl⟩ | ⟨rfl, rfl⟩ | ⟨rfl, rfl⟩ | ⟨rfl, rfl⟩ |
    ⟨rfl, rfl⟩ | ⟨rfl, rfl⟩ | ⟨rfl, rfl⟩
  · exact snprintf_toInt (toInt_bounds 31 (by decide) (w := 8) v)
  · exact snprintf_toInt (toInt_bounds 31 (by decide) (w := 16) v)
  · exact snprintf_checked_strtoll (toInt_bounds 63 (by decide) (w := 32) v)
  · exact snprintf_checked_strtoll (toInt_bounds 63 (by decide) (w := 64) v)
  · exact snprintf_toUnsigned (toNat_bound 32 (by decide) (w := 8) v)
  · exact snprintf_toUnsigned (toNat_bound 32 (by decide) (w := 16) v)
  · exact snprintf_checked_strtoull (toNat_bound 64 (by decide) (w := 32) v)
  · exact snprintf_checked_strtoull (toNat_bound 64 (by decide) (w := 64) v)
  · have hbit : ∀ b : Bool, snprintf 256
        (printInt (if Strto.checked (strtoll (printInt (if b then 1 else 0))) ≠ 0 then 1 else 0)) =
          printInt (if b then 1 else 0) := by decide +kernel
    exact hbit v

theorem converted_strtoll {α : Type} (zero : α) (f : ℤ → α) (n : ℤ)
    (h : -2 ^ 63 ≤ n ∧ n < 2 ^ 63) :
    converted zero (f (strtoll (printInt n)).value) (strtoll (printInt n)).erange
      (strtoll (printInt n)).rest = f n := by
  have hmin : longMin = -2 ^ 63 := rfl
  have hmax : longMax = 2 ^ 63 - 1 := rfl
  rw [strtoll_printInt n (by omega) (by omega)]
  rfl

theorem converted_strtoll_big {α : Type} (zero : α) (f : ℤ → α) (n : ℤ) (h : 2 ^ 63 ≤ n) :
    converted zero (f (strtoll (printInt n)).value) (strtoll (printInt n)).erange
      (strtoll (printInt n)).rest = zero := by
  have hmax : longMax = 2 ^ 63 - 1 := rfl
  rw [strtoll_printInt_big n (by omega)]
  rfl

theorem toNumeric_toString_iff {type : Text} {t : ElemType} (h : (type, t) ∈ integerTypes)
    (v : t.Val) : toNumeric fl t (toString fl t v) = v ↔ InLongRange t v := by
  simp only [integerTypes, List.mem_cons, Prod.mk.injEq, List.not_mem_nil, or_false] at h
  have signed : ∀ {w : ℕ} (v : BitVec w), w ≤ 64 →
      converted 0 (BitVec.ofInt w (strtoll (printInt v.toInt)).value)
        (strtoll (printInt v.toInt)).erange (strtoll (printInt v.toInt)).rest = v := by
    intro w v hw
    rw [converted_strtoll _ _ _ (toInt_bounds 63 hw v), BitVec.ofInt_toInt]
  have unsigned : ∀ {w : ℕ} (v : BitVec w), v.toNat < 2 ^ 63 →
      converted 0 (BitVec.ofInt w (strtoll (printInt v.toNat)).value)
        (strtoll (printInt v.toNat)).erange (strtoll (printInt v.toNat)).rest = v := by
    intro w v hv
    rw [converted_strtoll _ _ _ (by omega), BitVec.ofInt_natCast, BitVec.ofNat_toNat,
      BitVec.setWidth_eq]
  rcases h with ⟨rfl, rfl⟩ | ⟨rfl, rfl⟩ | ⟨rfl, rfl⟩ | ⟨rfl, rfl⟩ | ⟨rfl, rfl⟩ | ⟨rfl, rfl⟩ |
    ⟨rfl, rfl⟩ | ⟨rfl, rfl⟩ | ⟨rfl, rfl⟩
  · exact iff_of_true (signed (w := 8) v (by decide)) trivial
  · exact iff_of_true (signed (w := 16) v (by decide)) trivial
  · exact iff_of_true (signed (w := 32) v (by decide)) trivial
  · exact iff_of_true (signed (w := 64) v (by decide)) trivial
  · exact iff_of_true (unsigned (w := 8) v (toNat_bound 63 (by decide) (w := 8) v)) trivial
  · exact iff_of_true (unsigned (w := 16) v (toNat_bound 63 (by decide) (w := 16) v)) trivial
  · exact iff_of_true (unsigned (w := 32) v (toNat_bound 63 (by decide) (w := 32) v)) trivial
  · constructor
    · intro he
      by_contra hbig
      have hv : ¬ BitVec.toNat v < 2 ^ 63 := hbig
      have hzero : toNumeric fl (.num .uint64) (toString fl (.num .uint64) v) = 0 :=
        converted_strtoll_big _ _ _ (by
          show (2 : ℤ) ^ 63 ≤ (BitVec.toNat v : ℤ)
          exact_mod_cast not_lt.mp hv)
      apply hv
      rw [← he, hzero]
      decide
    · intro hv
      exact unsigned (w := 64) v hv
  · cases v <;> exact iff_of_true rfl trivial

/-! ## Section 3 -/

namespace NCursesUI
variable (con : Console)

theorem getSection3Values_updateSection3FromVector (ui : NCursesUI) (values : List Text) :
    (ui.updateSection3FromVector con values).getSection3Values =
      values.map (formatValueForType con.float ui.getType) := by
  simp only [getSection3Values, updateSection3FromVector, List.map_map]
  rfl

theorem getType_updateSection3FromVector (ui : NCursesUI) (values : List Text) :
    (ui.updateSection3FromVector con values).getType = ui.getType := rfl

theorem getSection3Values_drawSection3Fields (ui : NCursesUI)
    (h : ∀ s ∈ ui.getSection3Values, formatValueForType con.float ui.getType s = s) :
    (ui.drawSection3Fields con).getSection3Values = ui.getSection3Values := by
  have hcell : ∀ idx, ∀ c ∈ ui.sec3, (ui.drawCell con idx c).value = c.value := by
    intro idx c hc
    unfold drawCell
    split
    · exact h c.value (List.mem_map_of_mem hc)
    · rfl
  simp only [getSection3Values, drawSection3Fields]
  apply List.ext_getElem
  · simp
  · intro i h1 h2
    simp only [List.getElem_map, List.getElem_mapIdx]
    exact hcell i _ (List.getElem_mem _)

/-- One redraw. Before it the cursor, the active field, the scroll position and the rest may change
in any way, but nothing is edited: neither Section 3 nor the type. -/
def Redraw (ui ui' : NCursesUI) : Prop :=
  ∃ at' : NCursesUI, at'.sec3 = ui.sec3 ∧ at'.getType = ui.getType ∧
    ui' = at'.drawSection3Fields con

theorem getSection3Values_redraws {ui ui' : NCursesUI}
    (hrun : Relation.ReflTransGen (Redraw con) ui ui')
    (h : ∀ s ∈ ui.getSection3Values, formatValueForType con.float ui.getType s = s) :
    ui'.getSection3Values = ui.getSection3Values ∧ ui'.getType = ui.getType := by
  induction hrun with
  | refl => exact ⟨rfl, rfl⟩
  | tail _ hstep ih =>
    obtain ⟨hvals, htype⟩ := ih
    obtain ⟨at', hsec, hat, rfl⟩ := hstep
    have hvals' : at'.getSection3Values = ui.getSection3Values := by
      rw [← hvals, getSection3Values, hsec]
      rfl
    have hdraw := getSection3Values_drawSection3Fields con at' (by
      rw [hvals', hat, htype]
      exact h)
    exact ⟨hdraw.trans hvals', hat.trans htype⟩

/-- What [Write] hands to `writeNumericTag<T>`. -/
def handed (t : ElemType) (ui : NCursesUI) : List t.Val :=
  toNumericVector con.float t ui.getSection3Values

theorem writeTagFromSection3_handed (ui : NCursesUI) (t : ElemType) (tag : ℤ) :
    ui.writeTagFromSection3 con t tag = (do
      let (rc, es) ← writeNumericTag t [] tag (handed con t ui) dataTimeout
      if rc < 0 then popupMessage es else pure ()
      pure rc) := rfl

theorem runs_readTagAndUpdateSection3 (ui : NCursesUI) (t : ElemType) (tag rc : ℤ) (es : Text)
    (values : List t.Val) (tr : Trace)
    (h : Runs (readNumericTag t [] tag [] dataTimeout) tr (.ok (rc, es, values))) (hrc : 0 ≤ rc) :
    Runs (ui.readTagAndUpdateSection3 con t tag) tr
      (.ok (rc, ui.updateSection3FromVector con (values.map (toString con.float t)))) := by
  rw [readTagAndUpdateSection3, runs_bind]
  refine .inl ⟨tr, [], _, (List.append_nil tr).symm, h, ?_⟩
  simp only [not_lt.mpr hrc, if_false, runs_pure, and_self]

/-- For every integer type and `BIT`, and every vector of values: [Read] puts the values into
Section 3, and after any redraws [Write] hands over exactly these values if and only if none of
them is a `uint64_t` from `2 ^ 63` on. -/
theorem handed_eq_read_iff {type : Text} {t : ElemType} (ht : (type, t) ∈ integerTypes)
    (ui : NCursesUI) (htype : ui.getType = type) (values : List t.Val) :
    let ui₁ := ui.updateSection3FromVector con (values.map (toString con.float t))
    (∀ tag rc es tr, Runs (readNumericTag t [] tag [] dataTimeout) tr (.ok (rc, es, values)) →
      0 ≤ rc → Runs (ui.readTagAndUpdateSection3 con t tag) tr (.ok (rc, ui₁))) ∧
    ∀ ui₂, Relation.ReflTransGen (Redraw con) ui₁ ui₂ →
      (handed con t ui₂ = values ↔ ∀ v ∈ values, InLongRange t v) := by
  intro ui₁
  refine ⟨fun tag rc es tr h hrc => runs_readTagAndUpdateSection3 con ui t tag rc es values tr h hrc,
    fun ui₂ hrun => ?_⟩
  have hshown : ui₁.getSection3Values = values.map (toString con.float t) := by
    rw [getSection3Values_updateSection3FromVector, htype, List.map_map]
    exact List.map_congr_left fun v _ => formatValueForType_toString con.float ht v
  have hfixed : ∀ s ∈ ui₁.getSection3Values, formatValueForType con.float ui₁.getType s = s := by
    intro s hs
    obtain ⟨v, -, rfl⟩ := List.mem_map.mp (hshown ▸ hs)
    rw [getType_updateSection3FromVector, htype]
    exact formatValueForType_toString con.float ht v
  rw [handed, (getSection3Values_redraws con hrun hfixed).1, hshown, toNumericVector, List.map_map]
  calc values.map (toNumeric con.float t ∘ toString con.float t) = values
      ↔ values.map (toNumeric con.float t ∘ toString con.float t) = values.map id := by
        rw [List.map_id]
    _ ↔ ∀ v ∈ values, toNumeric con.float t (toString con.float t v) = v := List.map_inj_left
    _ ↔ ∀ v ∈ values, InLongRange t v :=
        forall₂_congr fun v _ => toNumeric_toString_iff con.float ht v

theorem handed_eq_read_int16 :
    let ui := initial [text "Type:=INT16"]
    let ui₁ := ui.updateSection3FromVector Console.plain
      (([-5, 300] : List (ElemType.num .int16).Val).map (toString Console.plain.float (.num .int16)))
    handed Console.plain (.num .int16) (ui₁.drawSection3Fields Console.plain) =
      ([-5, 300] : List (ElemType.num .int16).Val) := by
  intro ui ui₁
  have hredraw : Redraw Console.plain ui₁ (ui₁.drawSection3Fields Console.plain) :=
    ⟨ui₁, rfl, rfl, rfl⟩
  have h := @handed_eq_read_iff Console.plain (text "INT16") (.num .int16) (by decide) ui
    (by decide) ([-5, 300] : List (ElemType.num .int16).Val)
  exact (h.2 _ (.single hredraw)).mpr fun _ _ => trivial

/-- `2 ^ 63`, read as `UINT64`, is written back as 0. -/
theorem handed_uint64_high :
    let ui := initial [text "Type:=UINT64"]
    let ui₁ := ui.updateSection3FromVector Console.plain
      (([2 ^ 63] : List (ElemType.num .uint64).Val).map (toString Console.plain.float (.num .uint64)))
    (ui.getType, ElemType.num .uint64) ∈ integerTypes ∧
      Relation.ReflTransGen (Redraw Console.plain) ui₁ ui₁ ∧
      ui₁.getSection3Values = [text "9223372036854775808"] ∧
      handed Console.plain (.num .uint64) ui₁ = ([0] : List (ElemType.num .uint64).Val) ∧
      handed Console.plain (.num .uint64) ui₁ ≠ ([2 ^ 63] : List (ElemType.num .uint64).Val) := by
  intro ui ui₁
  refine ⟨by decide, .refl, by decide +kernel, by decide +kernel, by decide +kernel⟩

end NCursesUI

end Plctagt.Gui
