import Plctagt.Gui.WriteBack

/-! # What a redraw does to a value, and to what [Write] sends

`drawSection3Fields` stores the formatted text of every visible inactive field. What it prints is
in the range of the parser of the same type, so a second redraw finds nothing to change. The parser
of [Write] is another one: it wants the whole text to be a number, and is always `strtoll`. A value
that was redrawn has lost what followed its number, and its sign and range are those of `strtoull`
for an unsigned type; where this shows is `Unmoved`.
-/
namespace Plctagt.Gui
open Effects Decimal Tag
set_option autoImplicit false

/-! ## What is printed -/

theorem checked_strtoll_of_begins {s : Text} {v : ℤ} {rest : Text} (h : Begins (cstr s) v rest) :
    Strto.checked (strtoll s) = if longMin ≤ v ∧ v ≤ longMax then v else 0 := by
  rw [strtoll_of_begins h]
  by_cases hlo : v < longMin
  · rw [if_pos hlo, if_neg (by omega)]
    rfl
  by_cases hhi : longMax < v
  · rw [if_neg hlo, if_pos hhi, if_neg (by omega)]
    rfl
  · rw [if_neg hlo, if_neg hhi, if_pos (by omega)]
    rfl

theorem checked_strtoull_of_begins {s : Text} {v : ℤ} {rest : Text} (h : Begins (cstr s) v rest) :
    Strto.checked (strtoull s) = if |v| ≤ ulongMax then v % 2 ^ 64 else 0 := by
  rw [strtoull_of_begins h]
  by_cases hbig : (ulongMax : ℤ) < |v|
  · rw [if_pos hbig, if_neg (not_le.mpr hbig)]
    rfl
  · rw [if_neg hbig, if_pos (not_lt.mp hbig)]
    rfl

theorem checked_of_not_begins {s : Text} (h : ∀ v rest, ¬ Begins (cstr s) v rest) :
    Strto.checked (strtoll s) = 0 ∧ Strto.checked (strtoull s) = 0 := by
  rw [(strto_of_not_begins h).1, (strto_of_not_begins h).2]
  exact ⟨rfl, rfl⟩

theorem checked_strtoll_bounds (s : Text) :
    -2 ^ 63 ≤ Strto.checked (strtoll s) ∧ Strto.checked (strtoll s) < 2 ^ 63 := by
  have hmin : longMin = -2 ^ 63 := rfl
  have hmax : longMax = 2 ^ 63 - 1 := rfl
  by_cases hb : ∃ v rest, Begins (cstr s) v rest
  · obtain ⟨v, rest, hb⟩ := hb
    rw [checked_strtoll_of_begins hb]
    split_ifs <;> omega
  · rw [(checked_of_not_begins fun v rest h => hb ⟨v, rest, h⟩).1]
    norm_num

theorem checked_strtoull_bounds (s : Text) :
    ∃ n : ℕ, Strto.checked (strtoull s) = n ∧ n < 2 ^ 64 := by
  by_cases hb : ∃ v rest, Begins (cstr s) v rest
  · obtain ⟨v, rest, hb⟩ := hb
    rw [checked_strtoull_of_begins hb]
    split_ifs
    · exact ⟨(v % 2 ^ 64).toNat, by omega, by omega⟩
    · exact ⟨0, rfl, by norm_num⟩
  · exact ⟨0, (checked_of_not_begins fun v rest h => hb ⟨v, rest, h⟩).2, by norm_num⟩

theorem toUnsigned_lt (x : ℤ) : toUnsigned x < 2 ^ 32 := by
  unfold toUnsigned
  omega

variable (fl : FloatText)

/-! ## A second redraw -/

/-- The ways a type's values are printed. -/
theorem formatValueForType_cases {type : Text} (h32 : type ≠ text "REAL32")
    (h64 : type ≠ text "REAL64") :
    (∀ raw, formatValueForType fl type raw =
      snprintf 256 (printInt (toInt (Strto.checked (strtoll raw))))) ∨
    (∀ raw, formatValueForType fl type raw = snprintf 256 (printInt (Strto.checked (strtoll raw)))) ∨
    (∀ raw, formatValueForType fl type raw =
      snprintf 256 (printInt (toUnsigned (Strto.checked (strtoull raw))))) ∨
    (∀ raw, formatValueForType fl type raw = snprintf 256 (printInt (Strto.checked (strtoull raw)))) ∨
    (∀ raw, formatValueForType fl type raw =
      snprintf 256 (printInt (if Strto.checked (strtoll raw) ≠ 0 then 1 else 0))) ∨
    ∀ raw, formatValueForType fl type raw = snprintf 256 (cstr raw) := by
  unfold formatValueForType
  simp only [h32, h64, if_false]
  by_cases hint : type = text "INT8" ∨ type = text "INT16"
  · exact .inl fun raw => by rw [if_pos hint]
  by_cases hint32 : type = text "INT32"
  · exact .inr (.inl fun raw => by rw [if_neg hint, if_pos hint32])
  by_cases hint64 : type = text "INT64"
  · exact .inr (.inl fun raw => by rw [if_neg hint, if_neg hint32, if_pos hint64])
  by_cases huint : type = text "UINT8" ∨ type = text "UINT16"
  · exact .inr (.inr (.inl fun raw => by
      rw [if_neg hint, if_neg hint32, if_neg hint64, if_pos huint]))
  simp only [hint, hint32, hint64, huint, if_false]
  by_cases huint32 : type = text "UINT32"
  · exact .inr (.inr (.inr (.inl fun raw => by rw [if_pos huint32])))
  by_cases huint64 : type = text "UINT64"
  · exact .inr (.inr (.inr (.inl fun raw => by rw [if_neg huint32, if_pos huint64])))
  by_cases hbit : type = text "BIT" ∨ type = text "BOOL"
  · exact .inr (.inr (.inr (.inr (.inl fun raw => by
      rw [if_neg huint32, if_neg huint64, if_pos hbit]))))
  · exact .inr (.inr (.inr (.inr (.inr fun raw => by
      rw [if_neg huint32, if_neg huint64, if_neg hbit]))))

theorem snprintf_cstr_idem (raw : Text) :
    snprintf 256 (cstr (snprintf 256 (cstr raw))) = snprintf 256 (cstr raw) := by
  have hnul : (0 : UInt8) ∉ (cstr raw).take 255 := by
    intro h0
    have hmem := List.mem_takeWhile_imp (List.mem_of_mem_take h0)
    exact absurd hmem (by decide)
  show (cstr ((cstr raw).take 255)).take 255 = (cstr raw).take 255
  rw [cstr_eq_self _ hnul, List.take_take, min_self]

/-- Every branch prints a text that the same branch prints again. -/
theorem formatValueForType_formatValueForType {type : Text} (h32 : type ≠ text "REAL32")
    (h64 : type ≠ text "REAL64") (s : Text) :
    formatValueForType fl type (formatValueForType fl type s) = formatValueForType fl type s := by
  have hlong := checked_strtoll_bounds s
  obtain ⟨n, hn, hulong⟩ := checked_strtoull_bounds s
  rcases formatValueForType_cases fl h32 h64 with h | h | h | h | h | h
  · have hint : -2 ^ 31 ≤ toInt (Strto.checked (strtoll s)) ∧
        toInt (Strto.checked (strtoll s)) < 2 ^ 31 := toInt_bounds 31 (by decide) _
    rw [h s, snprintf_printInt _ (by omega)]
    exact (h _).trans (snprintf_toInt hint)
  · rw [h s, snprintf_printInt _ (by omega)]
    exact (h _).trans (snprintf_checked_strtoll hlong)
  · have huint := toUnsigned_lt (Strto.checked (strtoull s))
    rw [h s, snprintf_printInt _ (by omega)]
    exact (h _).trans (snprintf_toUnsigned huint)
  · rw [h s, hn, snprintf_printInt _ (by omega)]
    exact (h _).trans (snprintf_checked_strtoull hulong)
  · rw [h s, h]
    split_ifs <;> first | rfl | contradiction
  · rw [h s, h]
    exact snprintf_cstr_idem s

namespace NCursesUI
variable (con : Console)

theorem drawScroll_drawSection3Fields (ui : NCursesUI) :
    (ui.drawSection3Fields con).drawScroll con = ui.drawScroll con := by
  show NCursesUI.drawScroll con { ui with scroll := ui.drawScroll con, sec3 := _ } = _
  simp only [drawScroll]
  split_ifs <;> omega

/-- Each stored value is as it was, or formatted. -/
def Redrawn (type : Text) (ss ss' : List Text) : Prop :=
  ∀ i : ℕ, ss'[i]? = ss[i]? ∨ ss'[i]? = ss[i]?.map (formatValueForType con.float type)

theorem redrawn_drawSection3Fields (ui : NCursesUI) :
    Redrawn con ui.getType ui.getSection3Values (ui.drawSection3Fields con).getSection3Values := by
  intro i
  simp only [getSection3Values, drawSection3Fields, List.getElem?_map, List.getElem?_mapIdx,
    Option.map_map, Function.comp_def, drawCell]
  split_ifs
  · exact .inr rfl
  · exact .inl rfl

theorem Redrawn.trans {type : Text} (h32 : type ≠ text "REAL32") (h64 : type ≠ text "REAL64")
    {ss ss' ss'' : List Text} (h : Redrawn con type ss ss') (h' : Redrawn con type ss' ss'') :
    Redrawn con type ss ss'' := by
  have hidem : formatValueForType con.float type ∘ formatValueForType con.float type =
      formatValueForType con.float type :=
    funext (formatValueForType_formatValueForType con.float h32 h64)
  intro i
  rcases h i with hi | hi <;> rcases h' i with hi' | hi' <;> rw [hi', hi]
  · exact .inl rfl
  · exact .inr rfl
  · exact .inr rfl
  · rw [Option.map_map, hidem]
    exact .inr rfl

theorem redrawn_of_redraws {type : Text} (h32 : type ≠ text "REAL32") (h64 : type ≠ text "REAL64")
    {ui ui' : NCursesUI} (htype : ui.getType = type)
    (hrun : Relation.ReflTransGen (Redraw con) ui ui') :
    ui'.getType = type ∧ Redrawn con type ui.getSection3Values ui'.getSection3Values := by
  induction hrun with
  | refl => exact ⟨htype, fun i => .inl rfl⟩
  | tail _ hstep ih =>
    obtain ⟨htype', ih⟩ := ih
    obtain ⟨at', hsec, hat, rfl⟩ := hstep
    have hdraw := redrawn_drawSection3Fields con at'
    rw [hat, htype', getSection3Values, hsec] at hdraw
    exact ⟨hat.trans htype', ih.trans con h32 h64 hdraw⟩

/-- A redraw moves nothing that decides what the next one draws. -/
theorem drawCell_drawSection3Fields (ui : NCursesUI) :
    (ui.drawSection3Fields con).drawCell con = ui.drawCell con := by
  funext idx c
  simp only [drawCell, drawScroll_drawSection3Fields]
  rfl

theorem drawCell_drawCell {ui : NCursesUI} (h32 : ui.getType ≠ text "REAL32")
    (h64 : ui.getType ≠ text "REAL64") (idx : ℕ) (c : Cell) :
    ui.drawCell con idx (ui.drawCell con idx c) = ui.drawCell con idx c := by
  by_cases hvis : ui.drawScroll con ≤ idx ∧ idx < ui.drawScroll con + con.vis ∧
      ¬(ui.actSec = 2 ∧ idx = ui.actField)
  · have hdrawn : ∀ c, ui.drawCell con idx c =
        { c with value := formatValueForType con.float ui.getType c.value } := fun _ => if_pos hvis
    rw [hdrawn, hdrawn, formatValueForType_formatValueForType con.float h32 h64]
  · have hkept : ∀ c, ui.drawCell con idx c = c := fun _ => if_neg hvis
    rw [hkept, hkept]

theorem drawSection3Fields_drawSection3Fields {ui : NCursesUI} (h32 : ui.getType ≠ text "REAL32")
    (h64 : ui.getType ≠ text "REAL64") :
    (ui.drawSection3Fields con).drawSection3Fields con = ui.drawSection3Fields con := by
  have hcells : (ui.sec3.mapIdx (ui.drawCell con)).mapIdx (ui.drawCell con) =
      ui.sec3.mapIdx (ui.drawCell con) := by
    rw [List.mapIdx_mapIdx, List.mapIdx_eq_mapIdx_iff]
    exact fun i _ => drawCell_drawCell con h32 h64 i _
  calc (ui.drawSection3Fields con).drawSection3Fields con
      = { ui.drawSection3Fields con with
          scroll := (ui.drawSection3Fields con).drawScroll con
          sec3 := (ui.sec3.mapIdx (ui.drawCell con)).mapIdx
            ((ui.drawSection3Fields con).drawCell con) } := rfl
    _ = ui.drawSection3Fields con := by
        rw [drawCell_drawSection3Fields, hcells, drawScroll_drawSection3Fields]
        rfl

/-- For every type but the two floating point ones: a formatted text is formatted as it is, so a
second redraw of the same screen changes nothing, and over any redraws a stored value changes once at
most. -/
theorem redraw_idempotent {type : Text} (h32 : type ≠ text "REAL32") (h64 : type ≠ text "REAL64") :
    (∀ s, formatValueForType con.float type (formatValueForType con.float type s) =
      formatValueForType con.float type s) ∧
    ∀ ui : NCursesUI, ui.getType = type →
      (ui.drawSection3Fields con).drawSection3Fields con = ui.drawSection3Fields con ∧
      ∀ ui', Relation.ReflTransGen (Redraw con) ui ui' →
        Redrawn con type ui.getSection3Values ui'.getSection3Values := by
  refine ⟨formatValueForType_formatValueForType con.float h32 h64, fun ui htype => ⟨?_, ?_⟩⟩
  · subst htype
    exact drawSection3Fields_drawSection3Fields con h32 h64
  · exact fun ui' hrun => (redrawn_of_redraws con h32 h64 htype hrun).2

theorem redraw_idempotent_uint8 :
    formatValueForType Console.plain.float (text "UINT8")
      (formatValueForType Console.plain.float (text "UINT8") (text "-1x")) =
        text "4294967295" := by
  have h := @redraw_idempotent Console.plain (text "UINT8") (by decide) (by decide)
  exact (h.1 (text "-1x")).trans (by decide +kernel)

end NCursesUI

/-! ## The value that is sent -/

theorem ofInt_congr (w : ℕ) {a b : ℤ} (h : (2 : ℤ) ^ w ∣ a - b) :
    BitVec.ofInt w a = BitVec.ofInt w b := by
  obtain ⟨k, hk⟩ := h
  have ha : a = b + 2 ^ w * k := by omega
  apply BitVec.eq_of_toInt_eq
  rw [BitVec.toInt_ofInt, BitVec.toInt_ofInt, ha]
  exact_mod_cast Int.add_mul_bmod_self_left b (2 ^ w) k

theorem ofInt_toInt {w : ℕ} (hw : w ≤ 32) (v : ℤ) :
    BitVec.ofInt w (toInt v) = BitVec.ofInt w v := by
  apply ofInt_congr
  have h32 : ((2 ^ 32 : ℕ) : ℤ) ∣ toInt v - v := by
    rw [toInt, BitVec.toInt_ofInt]
    exact Int.dvd_bmod_sub_self
  exact (pow_dvd_pow 2 hw).trans (by exact_mod_cast h32)

theorem ofInt_toUnsigned {w : ℕ} (hw : w ≤ 32) (v : ℤ) :
    BitVec.ofInt w (toUnsigned v) = BitVec.ofInt w v := by
  apply ofInt_congr
  have h32 : (2 : ℤ) ^ 32 ∣ toUnsigned v - v := by
    unfold toUnsigned
    omega
  exact (pow_dvd_pow 2 hw).trans h32

theorem ofInt_emod {w : ℕ} (hw : w ≤ 64) (v : ℤ) :
    BitVec.ofInt w (v % 2 ^ 64) = BitVec.ofInt w v := by
  apply ofInt_congr
  have h64 : (2 : ℤ) ^ 64 ∣ v % 2 ^ 64 - v := by omega
  exact (pow_dvd_pow 2 hw).trans h64

/-- The number a redraw prints for a text. -/
def printed : NumType → Text → ℤ
  | .int8, s => toInt (Strto.checked (strtoll s))
  | .int16, s => toInt (Strto.checked (strtoll s))
  | .int32, s => Strto.checked (strtoll s)
  | .int64, s => Strto.checked (strtoll s)
  | .uint8, s => toUnsigned (Strto.checked (strtoull s))
  | .uint16, s => toUnsigned (Strto.checked (strtoull s))
  | _, s => Strto.checked (strtoull s)

theorem formatValueForType_printed {type : Text} {t : NumType}
    (h : (type, ElemType.num t) ∈ integerTypes) (s : Text) :
    formatValueForType fl type s = printInt (printed t s) := by
  have hlong := checked_strtoll_bounds s
  obtain ⟨n, hn, hulong⟩ := checked_strtoull_bounds s
  have hint : -2 ^ 31 ≤ toInt (Strto.checked (strtoll s)) ∧
      toInt (Strto.checked (strtoll s)) < 2 ^ 31 := toInt_bounds 31 (by decide) _
  have huint := toUnsigned_lt (Strto.checked (strtoull s))
  simp only [integerTypes, List.mem_cons, Prod.mk.injEq, ElemType.num.injEq, reduceCtorEq,
    List.not_mem_nil, or_false, and_false] at h
  rcases h with ⟨rfl, rfl⟩ | ⟨rfl, rfl⟩ | ⟨rfl, rfl⟩ | ⟨rfl, rfl⟩ | ⟨rfl, rfl⟩ | ⟨rfl, rfl⟩ |
    ⟨rfl, rfl⟩ | ⟨rfl, rfl⟩
  · exact snprintf_printInt (toInt (Strto.checked (strtoll s))) (by omega)
  · exact snprintf_printInt (toInt (Strto.checked (strtoll s))) (by omega)
  · exact snprintf_printInt _ (by omega)
  · exact snprintf_printInt _ (by omega)
  · exact snprintf_printInt (toUnsigned (Strto.checked (strtoull s)) : ℕ) (by omega)
  · exact snprintf_printInt (toUnsigned (Strto.checked (strtoull s)) : ℕ) (by omega)
  · exact snprintf_printInt _ (by omega)
  · exact snprintf_printInt _ (by omega)

theorem toNumeric_printInt {t : NumType} (ht : t.isFloat = false) (n : ℤ) :
    toNumeric fl (.num t) (printInt n) =
      if longMin ≤ n ∧ n ≤ longMax then BitVec.ofInt _ n else 0 := by
  have hbegins : Begins (cstr (printInt n)) n [] := by
    rw [cstr_printInt]
    exact denotes_printInt n
  rw [toNumeric_of_begins fl ht hbegins]
  simp only [true_and]

/-- The numbers that are still there when their redrawn text is read by `strtoll`. -/
def Survives : NumType → ℤ → Prop
  | .int8, v => longMin ≤ v ∧ v ≤ longMax
  | .int16, v => longMin ≤ v ∧ v ≤ longMax
  | .int32, v => longMin ≤ v ∧ v ≤ longMax
  | .int64, v => longMin ≤ v ∧ v ≤ longMax
  | .uint8, v => |v| ≤ ulongMax
  | .uint16, v => |v| ≤ ulongMax
  | _, v => (0 ≤ v ∧ v ≤ longMax) ∨ (-ulongMax ≤ v ∧ v < longMin)

/-- A text that is sent as the same value before and after a redraw: it begins with no number, or
with one the type takes for 0, or it is read whole exactly when its redrawn text is. -/
def Unmoved (t : NumType) (s : Text) : Prop :=
  ∀ v rest, Begins (cstr s) v rest →
    (2 : ℤ) ^ (8 * t.bytes) ∣ v ∨ (rest = [] ∧ longMin ≤ v ∧ v ≤ longMax ↔ Survives t v)

section Signed
variable {w : ℕ} {s : Text} {v : ℤ} {rest : Text} (h : Begins (cstr s) v rest)
include h

theorem ofInt_checked_strtoll :
    (longMin ≤ v ∧ v ≤ longMax → BitVec.ofInt w (Strto.checked (strtoll s)) = BitVec.ofInt w v) ∧
    (¬(longMin ≤ v ∧ v ≤ longMax) → BitVec.ofInt w (Strto.checked (strtoll s)) = 0) := by
  rw [checked_strtoll_of_begins h]
  constructor
  · intro hv
    rw [if_pos hv]
  · intro hv
    rw [if_neg hv]
    rfl

theorem ofInt_checked_strtoull (hw : w ≤ 64) :
    (|v| ≤ ulongMax → BitVec.ofInt w (Strto.checked (strtoull s)) = BitVec.ofInt w v) ∧
    (¬|v| ≤ ulongMax → BitVec.ofInt w (Strto.checked (strtoull s)) = 0) := by
  rw [checked_strtoull_of_begins h]
  constructor
  · intro hv
    rw [if_pos hv, ofInt_emod hw]
  · intro hv
    rw [if_neg hv]
    rfl

/-- The unsigned result is in the range of `strtoll` for the numbers that survive. -/
theorem checked_strtoull_le_longMax :
    (|v| ≤ ulongMax ∧ Strto.checked (strtoull s) ≤ longMax) ↔
      (0 ≤ v ∧ v ≤ longMax) ∨ (-ulongMax ≤ v ∧ v < longMin) := by
  have hmin : longMin = -2 ^ 63 := rfl
  have hmax : longMax = 2 ^ 63 - 1 := rfl
  have humax : (ulongMax : ℤ) = 2 ^ 64 - 1 := rfl
  rw [checked_strtoull_of_begins h]
  by_cases hv : |v| ≤ ulongMax
  · rw [if_pos hv]
    rw [abs_le] at hv ⊢
    omega
  · rw [if_neg hv]
    rw [abs_le] at hv ⊢
    omega

end Signed

/-- What the redrawn text of a number is sent as. -/
theorem toNumeric_printed {t : NumType} (ht : t.isFloat = false) {s : Text} {v : ℤ} {rest : Text}
    (h : Begins (cstr s) v rest) :
    (Survives t v → toNumeric fl (.num t) (printInt (printed t s)) = BitVec.ofInt _ v) ∧
    (¬Survives t v → toNumeric fl (.num t) (printInt (printed t s)) = 0) := by
  have hmin : longMin = -2 ^ 63 := rfl
  have hmax : longMax = 2 ^ 63 - 1 := rfl
  have hlong := checked_strtoll_bounds s
  obtain ⟨n, hn, hulong⟩ := checked_strtoull_bounds s
  have hint : -2 ^ 31 ≤ toInt (Strto.checked (strtoll s)) ∧
      toInt (Strto.checked (strtoll s)) < 2 ^ 31 := toInt_bounds 31 (by decide) _
  have huint := toUnsigned_lt (Strto.checked (strtoull s))
  rw [toNumeric_printInt fl ht]
  cases t
  case float32 | float64 => exact absurd ht (by decide)
  case int8 | int16 =>
    rw [if_pos (by simp only [printed]; omega), printed, ofInt_toInt (by decide)]
    exact ofInt_checked_strtoll h
  case int32 | int64 =>
    rw [if_pos (by simp only [printed]; omega)]
    exact ofInt_checked_strtoll h
  case uint8 | uint16 =>
    rw [if_pos (by simp only [printed]; omega), printed, ofInt_toUnsigned (by decide)]
    exact ofInt_checked_strtoull h (by decide)
  case uint32 | uint64 =>
    have hle := checked_strtoull_le_longMax h
    constructor
    · intro hv
      obtain ⟨habs, hin⟩ := hle.mpr hv
      rw [if_pos ⟨by simp only [printed]; omega, hin⟩]
      exact (ofInt_checked_strtoull h (by decide)).1 habs
    · intro hv
      by_cases habs : |v| ≤ ulongMax
      · exact if_neg fun hin => hv (hle.mp ⟨habs, hin.2⟩)
      · split_ifs
        · exact (ofInt_checked_strtoull h (by decide)).2 habs
        · rfl

theorem integral_of_integerTypes {type : Text} {t : NumType}
    (h : (type, ElemType.num t) ∈ integerTypes) :
    t.isFloat = false ∧ type ≠ text "REAL32" ∧ type ≠ text "REAL64" := by
  have hall : ∀ p ∈ integerTypes, (p.2 ≠ .num .float32 ∧ p.2 ≠ .num .float64) ∧
      p.1 ≠ text "REAL32" ∧ p.1 ≠ text "REAL64" := by decide
  obtain ⟨⟨hf32, hf64⟩, hreal⟩ := hall _ h
  refine ⟨?_, hreal⟩
  cases t
  case float32 => exact absurd rfl hf32
  case float64 => exact absurd rfl hf64
  all_goals rfl

theorem toNumeric_formatValueForType_iff {type : Text} {t : NumType}
    (ht : (type, ElemType.num t) ∈ integerTypes) (s : Text) :
    toNumeric fl (.num t) (formatValueForType fl type s) = toNumeric fl (.num t) s ↔
      Unmoved t s := by
  have hint := (integral_of_integerTypes ht).1
  rw [formatValueForType_printed fl ht]
  by_cases hb : ∃ v rest, Begins (cstr s) v rest
  · obtain ⟨v, rest, hb⟩ := hb
    have hunmoved : Unmoved t s ↔
        (2 : ℤ) ^ (8 * t.bytes) ∣ v ∨ (rest = [] ∧ longMin ≤ v ∧ v ≤ longMax ↔ Survives t v) := by
      refine ⟨fun h => h v rest hb, fun h v' rest' hb' => ?_⟩
      rwa [(hb'.unique hb).1, (hb'.unique hb).2]
    obtain ⟨hkept, hlost⟩ := toNumeric_printed fl hint hb
    rw [hunmoved, toNumeric_of_begins fl hint hb, ← ofInt_eq_zero_iff]
    by_cases hs : Survives t v <;> split_ifs with hread
    · rw [hkept hs]
      exact iff_of_true rfl (.inr (iff_of_true hread hs))
    · rw [hkept hs]
      exact ⟨.inl, fun h => h.resolve_right fun hiff => hread (hiff.mpr hs)⟩
    · rw [hlost hs]
      exact ⟨fun h => .inl h.symm, fun h => (h.resolve_right fun hiff => hs (hiff.mp hread)).symm⟩
    · rw [hlost hs]
      exact iff_of_true rfl (.inr (iff_of_false hread hs))
  · have hnone : ∀ v rest, ¬ Begins (cstr s) v rest := fun v rest h => hb ⟨v, rest, h⟩
    refine iff_of_true ?_ fun v rest h => absurd h (hnone v rest)
    have hzero : printed t s = 0 := by
      have hll := (checked_of_not_begins hnone).1
      have hull := (checked_of_not_begins hnone).2
      cases t <;> simp only [printed, hll, hull] <;> rfl
    rw [hzero, toNumeric_of_not_begins fl hint hnone, toNumeric_printInt fl hint]
    rfl

namespace NCursesUI
variable (con : Console)

/-- Every field can be the one that is visible, and inactive. -/
theorem redraw_field (ui : NCursesUI) (hvis : 0 < con.vis) (i : ℕ) :
    ∃ ui', Redraw con ui ui' ∧ ui'.getSection3Values[i]? =
      ui.getSection3Values[i]?.map (formatValueForType con.float ui.getType) := by
  refine ⟨{ ui with actSec := 0, scroll := i }.drawSection3Fields con,
    ⟨{ ui with actSec := 0, scroll := i }, rfl, rfl, rfl⟩, ?_⟩
  have hscroll : NCursesUI.drawScroll con { ui with actSec := 0, scroll := i } = i := by
    simp [drawScroll]
  have hdrawn : ∀ c, NCursesUI.drawCell con { ui with actSec := 0, scroll := i } i c =
      { c with value := formatValueForType con.float ui.getType c.value } := by
    intro c
    have hactive : (0 : Fin 3) ≠ 2 := by decide
    rw [drawCell, hscroll, if_pos ⟨le_refl _, by omega, fun h => hactive h.1⟩]
    rfl
  simp only [getSection3Values, drawSection3Fields, List.getElem?_map, List.getElem?_mapIdx,
    Option.map_map, Function.comp_def, hdrawn]

/-- For every integer type and every text: the text and its redrawn text are sent as the same value
if and only if it is unmoved. So what [Write] hands over does not depend on which fields were redrawn
before it if and only if every field of Section 3 is unmoved. -/
theorem handed_redrawn_iff {type : Text} {t : NumType}
    (ht : (type, ElemType.num t) ∈ integerTypes) :
    (∀ s, toNumericVector con.float (.num t) [formatValueForType con.float type s] =
      toNumericVector con.float (.num t) [s] ↔ Unmoved t s) ∧
    ∀ ui : NCursesUI, ui.getType = type → 0 < con.vis →
      ((∀ ui', Relation.ReflTransGen (Redraw con) ui ui' →
        handed con (.num t) ui' = handed con (.num t) ui) ↔
          ∀ s ∈ ui.getSection3Values, Unmoved t s) := by
  obtain ⟨-, h32, h64⟩ := integral_of_integerTypes ht
  have hone := toNumeric_formatValueForType_iff con.float ht
  refine ⟨fun s => ?_, fun ui htype hvis => ⟨fun h s hs => ?_, fun h ui' hrun => ?_⟩⟩
  · rw [← hone, toNumericVector, toNumericVector, List.map_singleton, List.map_singleton,
      List.singleton_inj]
  · obtain ⟨i, hi⟩ := List.mem_iff_getElem?.mp hs
    obtain ⟨ui', hredraw, hi'⟩ := redraw_field con ui hvis i
    have hsent := congrArg (·[i]?) (h ui' (.single hredraw))
    rw [hi, htype] at hi'
    simp only [handed, toNumericVector, List.getElem?_map, hi, hi', Option.map_some,
      Option.some.injEq] at hsent
    exact (hone s).mp hsent
  · obtain ⟨-, hredrawn⟩ := redrawn_of_redraws con h32 h64 htype hrun
    apply List.ext_getElem?
    intro i
    simp only [handed, toNumericVector, List.getElem?_map]
    rcases hredrawn i with hi | hi
    · rw [hi]
    · rw [hi]
      cases hs : ui.getSection3Values[i]? with
      | none => rfl
      | some s => exact congrArg some ((hone s).mpr (h s (List.mem_of_getElem? hs)))

theorem handed_redrawn_int8 :
    let ui := { initial [text "Type:=INT8"] with sec3 := [⟨text " 7", 4⟩] }
    handed Console.plain (.num .int8) (ui.drawSection3Fields Console.plain) =
      handed Console.plain (.num .int8) ui := by
  intro ui
  have hseven : Unmoved .int8 (text " 7") := by
    intro v rest hb
    have hread : Begins (cstr (text " 7")) 7 [] := begins_iff.mpr ⟨false, 7, by decide, rfl⟩
    obtain ⟨rfl, rfl⟩ := hb.unique hread
    exact .inr (iff_of_true (by decide) (show longMin ≤ 7 ∧ 7 ≤ longMax by decide))
  have h := (@handed_redrawn_iff Console.plain (text "INT8") .int8 (by decide)).2 ui (by decide)
    (by decide)
  exact h.mpr (List.forall_mem_singleton.mpr hseven) _ (.single ⟨ui, rfl, rfl, rfl⟩)

/-- `12ab` is sent as 0, and as 12 once it was redrawn. -/
theorem handed_trailing :
    (text "INT8", ElemType.num .int8) ∈ integerTypes ∧
    toNumericVector Console.plain.float (.num .int8) [text "12ab"] =
      ([0] : List (ElemType.num .int8).Val) ∧
    toNumericVector Console.plain.float (.num .int8)
      [formatValueForType Console.plain.float (text "INT8") (text "12ab")] =
        ([12] : List (ElemType.num .int8).Val) ∧
    toNumericVector Console.plain.float (.num .int8)
        [formatValueForType Console.plain.float (text "INT8") (text "12ab")] ≠
      toNumericVector Console.plain.float (.num .int8) [text "12ab"] := by
  refine ⟨by decide, by decide, by decide +kernel, by decide +kernel⟩

end NCursesUI

end Plctagt.Gui
