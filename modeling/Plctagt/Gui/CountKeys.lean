import Plctagt.Gui.Counts
import Plctagt.Gui.Editing

/-! # Typing into the Count field

After every key the text in the Count field is looked at. Where it reads as the last number it stays;
where it does not, the number takes its place, and Section 3 gets as many fields. So the field is the
line of a line editor as long as every text on the way reads as the one before it, or is a number as
it is printed. An empty text reads as 0: clearing the field puts a `0` behind the cursor, unless the
count was 0.
-/
namespace Plctagt.Gui
open Effects Decimal Tag LineEditor Lockstep
set_option autoImplicit false

/-! ## The field and what is looked at -/

/-- What a text reads as. -/
def countNumber (v : Text) : ℤ := (stoi v).getD 0

/-- The Count field while it is edited: the number seen last, the line, and the number of fields of
Section 3. -/
structure CountLine where
  last : ℤ
  line : Line UInt8
  rows : ℕ
  deriving DecidableEq

namespace CountLine

/-- The look at the count. -/
def look (c : CountLine) : CountLine :=
  if countNumber c.line.text = c.last then c
  else
    let n := (max 0 (atoi c.line.text)).toNat
    ⟨countNumber c.line.text, .put (printInt n) (min c.line.cursor (printInt n).length), n⟩

def key (c : CountLine) (e : Edit UInt8) : CountLine := { c with line := c.line.key 3 e }.look

/-- The look finds the last number, or a number as it is printed. -/
def Kept (last : ℤ) (v : Text) : Prop :=
  countNumber v = last ∨ ∃ n : ℕ, (n : ℤ) ≤ intMax ∧ v = printInt n

variable {c : CountLine}

theorem countNumber_printInt {n : ℕ} (h : (n : ℤ) ≤ intMax) : countNumber (printInt n) = n := by
  rw [countNumber, stoi_printNat n h, Option.getD_some]

theorem look_of_eq (h : countNumber c.line.text = c.last) : c.look = c := if_pos h

theorem look_of_printed {n : ℕ} (hn : (n : ℤ) ≤ intMax) (h : c.line.text = printInt n)
    (hne : (n : ℤ) ≠ c.last) : c.look = ⟨n, c.line, n⟩ := by
  have hnumber : countNumber c.line.text = n := by rw [h, countNumber_printInt hn]
  have hatoi : (max 0 (atoi c.line.text)).toNat = n := by
    rw [h, atoi_printNat n hn, max_eq_right (Int.natCast_nonneg n), Int.toNat_natCast]
  have hput : Line.put (printInt n) (min c.line.cursor (printInt n).length) = c.line := by
    rw [← h, min_eq_left c.line.cursor_le, Line.put_text_cursor]
  rw [look, if_neg (hnumber.trans_ne hne), hnumber, hatoi]
  exact congrArg (fun l => CountLine.mk n l n) hput

/-- The line stays just when the text is kept. -/
theorem look_of_kept (h : Kept c.last c.line.text) :
    ∃ rows, c.look = ⟨countNumber c.line.text, c.line, rows⟩ := by
  by_cases heq : countNumber c.line.text = c.last
  · rw [look_of_eq heq, heq]
    exact ⟨c.rows, rfl⟩
  · obtain ⟨n, hn, htext⟩ := h.resolve_left heq
    have hnumber : countNumber c.line.text = n := by rw [htext, countNumber_printInt hn]
    rw [hnumber] at heq ⊢
    exact ⟨n, look_of_printed hn htext heq⟩

theorem kept_of_look (h : c.look.line.text = c.line.text) : Kept c.last c.line.text := by
  by_cases heq : countNumber c.line.text = c.last
  · exact .inl heq
  · rw [look, if_neg heq] at h
    exact .inr ⟨_, Shape.filled_le c.line.text, ((Line.text_put _ _).symm.trans h).symm⟩

/-- The cursor is where the line editor has it, or behind the number. -/
theorem cursor_look : c.look.line.cursor = min c.line.cursor c.look.line.text.length := by
  by_cases heq : countNumber c.line.text = c.last
  · rw [look_of_eq heq, min_eq_left c.line.cursor_le]
  · rw [look, if_neg heq]
    show (Line.put _ _).cursor = min _ (Line.put _ _).text.length
    rw [Line.cursor_put (min_le_right _ _), Line.text_put]

end CountLine

namespace Shape

def withCount (s : Shape) (c : CountLine) : Shape :=
  { s.setCount c.line.text with lastCount := c.last, length := c.rows }

theorem checkCount_setCount (s : Shape) (l : Line UInt8) :
    (s.setCount l.text).checkCount = s.withCount (CountLine.look ⟨s.lastCount, l, s.length⟩) := by
  by_cases heq : countNumber l.text = s.lastCount
  · have heq' : (s.setCount l.text).getCount = (s.setCount l.text).lastCount := heq
    have hlook : CountLine.look ⟨s.lastCount, l, s.length⟩ = ⟨s.lastCount, l, s.length⟩ := if_pos heq
    rw [checkCount_of_eq heq', hlook]
    rfl
  · have heq' : (s.setCount l.text).getCount ≠ (s.setCount l.text).lastCount := heq
    have hvalue : (s.setCount l.text).count.value = l.text := rfl
    rw [checkCount_of_ne heq', CountLine.look, if_neg heq, hvalue]
    generalize (max 0 (atoi l.text)).toNat = n
    rw [withCount, Line.text_put]
    rfl

end Shape

namespace NCursesUI
variable {con : Console} {ui ui' : NCursesUI} {c : CountLine} {key : Key}

/-- The Count field is edited. -/
structure CountEdits (con : Console) (ui : NCursesUI) (c : CountLine) : Prop where
  active : ui.actSec = 1 ∧ ui.actField = 2
  edits : ui.Edits con ui.countField c.line
  last : ui.lastCount = c.last
  rows : ui.sec3.length = c.rows

theorem field_count (ui : NCursesUI) : (ui.fields 1)[2]? = some ui.countField := rfl

theorem cursorPos_checkCountChange : (ui.checkCountChange con).cursorPos = ui.cursorPos := by
  unfold checkCountChange
  dsimp only
  split <;> rfl

/-- One key into the Count field. -/
theorem CountEdits.turn (h : ui.CountEdits con c) {e : Edit UInt8} (he : key.edit = some e) :
    ∃ ui', ui.turn con key = pure ui' ∧ ui'.CountEdits con (c.key e) := by
  have hlooked := h.edits.looked (c.line.key 3 e)
  rw [if_pos h.active] at hlooked
  have hshape : ((ui.withLine (c.line.key 3 e)).checkCountChange con).shape =
      ui.shape.withCount (c.key e) := by
    rw [shape_checkCountChange, shape_withLine, if_pos h.active, Shape.checkCount_setCount]
    show ui.shape.withCount (CountLine.look ⟨ui.lastCount, _, ui.sec3.length⟩) = _
    rw [h.last, h.rows]
    rfl
  have hentry : ((ui.withLine (c.line.key 3 e)).checkCountChange con).sec2 2 =
      { ui.sec2 2 with value := (c.key e).line.text } := congrArg Shape.count hshape
  have hfield : (((ui.withLine (c.line.key 3 e)).checkCountChange con).fields
      ui.actSec)[ui.actField]? = some { ui.countField with value := (c.key e).line.text } := by
    rw [h.active.1, h.active.2, field_count, countField, hentry]
    rfl
  have hcursor : min ((ui.withLine (c.line.key 3 e)).checkCountChange con).cursorPos
      (c.key e).line.text.length = (c.key e).line.cursor := by
    have hlook : (c.key e).line.cursor = min (c.line.key 3 e).cursor (c.key e).line.text.length :=
      CountLine.cursor_look
    rw [cursorPos_checkCountChange, hlook]
    exact (Nat.cast_min ..).symm
  obtain ⟨ui', hturn, hedits, hshape'⟩ := h.edits.turn he hlooked hfield h.edits.typed rfl hcursor
  rw [hshape] at hshape'
  have hentry' : ui'.sec2 2 = { ui.sec2 2 with value := (c.key e).line.text } :=
    congrArg Shape.count hshape'
  have hsec : ui'.actSec = ui.actSec := congrArg Shape.actSec hshape'
  have hactive : ui'.actField = ui.actField := congrArg Shape.actField hshape'
  refine ⟨ui', hturn, ⟨⟨hsec.trans h.active.1, hactive.trans h.active.2⟩, ?_,
    congrArg Shape.lastCount hshape', congrArg Shape.length hshape'⟩⟩
  rw [countField, hentry']
  exact hedits

theorem CountEdits.turns (h : ui.CountEdits con c) {keys : List Key}
    (hkeys : ∀ key ∈ keys, key.edit ≠ none) :
    ∃ ui', ui.turns con keys = pure ui' ∧
      ui'.CountEdits con (keys.foldl (typeKey CountLine.key) c) := by
  induction keys using List.reverseRecOn with
  | nil => exact ⟨ui, rfl, h⟩
  | append_singleton keys key ih =>
    obtain ⟨ui₁, hturns, h₁⟩ := ih fun key hk => hkeys key (List.mem_append_left _ hk)
    obtain ⟨e, he⟩ := Option.ne_none_iff_exists'.mp
      (hkeys key (List.mem_append_right _ List.mem_cons_self))
    obtain ⟨ui', hturn, h'⟩ := h₁.turn he
    refine ⟨ui', ?_, ?_⟩
    · rw [turns_concat, hturns, ret_bind, hturn]
    · rw [List.foldl_concat, typeKey_of_edit _ _ he]
      exact h'

end NCursesUI

/-! ## A number typed into the cleared field -/

namespace CountLine

/-- What F5 leaves behind the cursor. -/
def leftover (last : ℤ) : Text := if last = 0 then [] else [48]

/-- By what that multiplies the number in front of it. -/
def growth (last : ℤ) : ℕ := if last = 0 then 1 else 10

theorem key_clear (c : CountLine) :
    (c.key .clear).last = 0 ∧ (c.key .clear).line = ⟨[], leftover c.last⟩ := by
  by_cases h : c.last = 0
  · have hlook : c.key .clear = { c with line := ⟨[], []⟩ } := look_of_eq h.symm
    rw [hlook, leftover, if_pos h]
    exact ⟨h, rfl⟩
  · have hne : countNumber ([] : Text) ≠ c.last := fun heq => h heq.symm
    have hlook : c.key .clear = ⟨0, .put (printInt 0) 0, 0⟩ := if_neg hne
    rw [hlook, leftover, if_neg h]
    exact ⟨rfl, rfl⟩

/-- The number `m` has been typed before `z`, and the whole text reads as `scale * m`. -/
def typedNumber (z : Text) (scale m : ℕ) : CountLine :=
  ⟨(scale * m : ℕ), ⟨(printNat m).reverse, z⟩, scale * m⟩

/-- With `z` behind it a number reads as `scale` times as much. -/
def Scales (z : Text) (scale : ℕ) : Prop := ∀ m, 0 < m → printNat m ++ z = printNat (scale * m)

theorem scales_leftover (last : ℤ) : Scales (leftover last) (growth last) := by
  intro m hm
  rw [leftover, growth]
  split
  · rw [List.append_nil, Nat.one_mul]
  · have hconcat := printNat_concat hm (by norm_num : 0 < 10)
    rw [Nat.zero_add] at hconcat
    exact hconcat.symm

variable {c : CountLine} {z : Text} {scale m d : ℕ}

/-- There is room for one more digit. -/
theorem key_digit (hz : Scales z scale) {before : Text} (hn : 0 < m) (hm : scale * m < 1000)
    (hbefore : (before.reverse ++ z).length < 3) (hm' : printNat m = before.reverse ++ [digitByte d])
    (hline : c.line = ⟨before, z⟩) (hlast : ((scale * m : ℕ) : ℤ) ≠ c.last) :
    c.key (.char (digitByte d)) = typedNumber z scale m := by
  have hkey : c.line.key 3 (.char (digitByte d)) = ⟨(printNat m).reverse, z⟩ := by
    rw [hline, hm', List.reverse_append, List.reverse_reverse]
    exact if_pos hbefore
  have htext : (c.line.key 3 (.char (digitByte d))).text = printInt (scale * m : ℕ) := by
    rw [hkey, Line.text, List.reverse_reverse]
    exact hz m hn
  have hmax : ((scale * m : ℕ) : ℤ) ≤ intMax := by
    have h1000 : (1000 : ℤ) ≤ intMax := by decide
    omega
  have hlook : c.key (.char (digitByte d)) = ⟨(scale * m : ℕ), _, scale * m⟩ :=
    look_of_printed hmax htext hlast
  rw [hlook, hkey]
  rfl

theorem key_digit_full (hlast : countNumber c.line.text = c.last) (hfull : 3 ≤ c.line.text.length)
    (b : UInt8) : c.key (.char b) = c := by
  have hline : c.line.key 3 (.char b) = c.line := Line.key_char_full hfull b
  rw [key, hline]
  exact look_of_eq hlast

theorem typed_digit (hz : Scales z scale) (hscale : scale = 1 ∨ scale = 10) (hm : 0 < m)
    (hlt : scale * m < 1000) (hd : d < 10) :
    (typedNumber z scale m).key (.char (digitByte d)) =
      typedNumber z scale (if scale * m < 100 then d + 10 * m else m) := by
  have htext : (typedNumber z scale m).line.text = printNat (scale * m) := by
    rw [typedNumber, Line.text, List.reverse_reverse]
    exact hz m hm
  split
  · next hroom =>
    have hlen : (printNat (scale * m)).length ≤ 2 := printNat_length_le _ 2 (by norm_num) hroom
    have hrev : (printNat m).reverse.reverse ++ z = printNat (scale * m) := by
      rw [List.reverse_reverse]
      exact hz m hm
    have hconcat : printNat (d + 10 * m) = (printNat m).reverse.reverse ++ [digitByte d] := by
      rw [List.reverse_reverse]
      exact printNat_concat hm hd
    refine key_digit hz (by omega) ?_ (by rw [hrev]; omega) hconcat rfl ?_
    · rcases hscale with rfl | rfl <;> omega
    · show ((scale * (d + 10 * m) : ℕ) : ℤ) ≠ ((scale * m : ℕ) : ℤ)
      rcases hscale with rfl | rfl <;> omega
  · next hfull =>
    have hlen : ¬(printNat (scale * m)).length ≤ 2 :=
      fun h => hfull ((length_printNat_le_iff (by norm_num)).mp h)
    have hmax : ((scale * m : ℕ) : ℤ) ≤ intMax := by
      have h1000 : (1000 : ℤ) ≤ intMax := by decide
      omega
    refine key_digit_full ?_ (by rw [htext]; omega) _
    rw [htext]
    exact countNumber_printInt hmax

/-- The digits of a number, typed before `z`: those there is room for. -/
theorem type_printNat (hz : Scales z scale) (hscale : scale = 1 ∨ scale = 10) (hzlen : z.length < 3)
    (hlast : c.last = 0) (hline : c.line = ⟨[], z⟩) {n : ℕ} (hn : 0 < n) :
    ∃ m, 0 < m ∧ scale * m < 1000 ∧
      (printNat n).foldl (fun c b => c.key (.char b)) c = typedNumber z scale m ∧
      (scale * n < 1000 → m = n) ∧
      (1000 ≤ scale * n → 100 ≤ scale * m ∧ (scale * n < 10000 → m = n / 10)) := by
  induction n using Nat.strong_induction_on with
  | _ n ih =>
    by_cases h10 : n < 10
    · have hlt : scale * n < 1000 := by rcases hscale with rfl | rfl <;> omega
      have hkey : c.key (.char (digitByte n)) = typedNumber z scale n := by
        have hempty : (([] : Text).reverse ++ z).length < 3 := hzlen
        refine key_digit hz hn hlt hempty (printNat_digit hn h10) hline ?_
        rw [hlast]
        rcases hscale with rfl | rfl <;> omega
      refine ⟨n, hn, hlt, ?_, fun _ => rfl, fun h => by omega⟩
      rw [printNat_digit hn h10]
      exact hkey
    · obtain ⟨m, hm, hlt, hfold, hsame, hlarge⟩ := ih (n / 10) (by omega) (by omega)
      have hdiv : n % 10 + 10 * (n / 10) = n := Nat.mod_add_div n 10
      have hdigits : printNat n = printNat (n / 10) ++ [digitByte (n % 10)] := by
        have hconcat := printNat_concat (m := n / 10) (d := n % 10) (by omega) (by omega)
        rwa [hdiv] at hconcat
      have hkey := typed_digit hz hscale hm hlt (d := n % 10) (by omega)
      rw [hdigits, List.foldl_concat, hfold, hkey]
      split
      · next hroom =>
        have heq : m = n / 10 := hsame (by by_contra h; omega)
        rw [heq, hdiv]
        rw [heq] at hroom
        refine ⟨n, hn, ?_, rfl, fun _ => rfl, fun h => ?_⟩
        · rcases hscale with rfl | rfl <;> omega
        · rcases hscale with rfl | rfl <;> omega
      · next hfull =>
        refine ⟨m, hm, hlt, rfl, fun h => ?_, fun h => ⟨by omega, fun h' => hsame ?_⟩⟩
        · have heq : m = n / 10 := hsame (by rcases hscale with rfl | rfl <;> omega)
          rw [heq] at hfull
          rcases hscale with rfl | rfl <;> omega
        · rcases hscale with rfl | rfl <;> omega

/-- F5 and the digits of a number: the field has that number and Section 3 that many fields. -/
theorem clear_type_iff (c : CountLine) {n : ℕ} (hn : 0 < n) :
    (((printNat n).foldl (fun c b => c.key (.char b)) (c.key .clear)).line.text = printNat n ∧
      ((printNat n).foldl (fun c b => c.key (.char b)) (c.key .clear)).rows = n) ↔
    n < 1000 ∧ (c.last = 0 ∨ 100 ≤ n ∧ 10 ∣ n) := by
  obtain ⟨hlast, hline⟩ := c.key_clear
  have hgrowth : growth c.last = 1 ∨ growth c.last = 10 := by
    rw [growth]
    split
    · exact .inl rfl
    · exact .inr rfl
  have hroom : (leftover c.last).length < 3 := by
    rw [leftover]
    split <;> decide
  obtain ⟨m, hm, hlt, hfold, hsame, hlarge⟩ :=
    type_printNat (scales_leftover c.last) hgrowth hroom hlast hline hn
  have htext : (typedNumber (leftover c.last) (growth c.last) m).line.text =
      printNat (growth c.last * m) := by
    rw [typedNumber, Line.text, List.reverse_reverse]
    exact scales_leftover c.last m hm
  have hvalue : printNat (growth c.last * m) = printNat n ↔ growth c.last * m = n :=
    ⟨printNat_injective, congrArg printNat⟩
  have hrows : (typedNumber (leftover c.last) (growth c.last) m).rows = growth c.last * m := rfl
  rw [hfold, htext, hvalue, hrows, and_self]
  by_cases h0 : c.last = 0
  · have hone : growth c.last = 1 := if_pos h0
    rw [hone] at hlt hsame ⊢
    constructor
    · intro heq
      exact ⟨by omega, .inl h0⟩
    · rintro ⟨h, -⟩
      rw [hsame (by omega)]
      omega
  · have hten : growth c.last = 10 := if_neg h0
    rw [hten] at hlt hsame hlarge ⊢
    constructor
    · intro heq
      have hge : ¬10 * n < 1000 := fun h => by
        have hmn := hsame h
        omega
      exact ⟨by omega, .inr ⟨by omega, m, heq.symm⟩⟩
    · rintro ⟨h, h'⟩
      obtain ⟨hge, k, rfl⟩ := h'.resolve_left h0
      rw [(hlarge (by omega)).2 (by omega)]
      omega

end CountLine

/-! ## Any keys -/

namespace NCursesUI
variable {con : Console} {ui ui' : NCursesUI} {c : CountLine} {l : Line UInt8} {key : Key}

/-- The line editor, and what its text reads as. -/
def countStep (t : ℤ × Line UInt8) (key : Key) : ℤ × Line UInt8 :=
  let l := typeKey (Line.key 3) t.2 key
  (countNumber l.text, l)

theorem foldl_countStep (t : ℤ × Line UInt8) (keys : List Key) :
    (keys.foldl countStep t).2 = keys.foldl (typeKey (Line.key 3)) t.2 := by
  induction keys generalizing t with
  | nil => rfl
  | cons key keys ih => exact ih (countStep t key)

/-- The active field and the cursor are those of the line. -/
def Shows (ui : NCursesUI) (l : Line UInt8) : Prop :=
  (∃ f, (ui.fields ui.actSec)[ui.actField]? = some f ∧ f.value = l.text) ∧ ui.cursorPos = l.cursor

theorem Edits.shows {f : Field} (h : ui.Edits con f l) : ui.Shows l :=
  ⟨⟨f, h.field, h.value⟩, h.cursor⟩

theorem CountEdits.text_eq (h : ui.CountEdits con c) (hshows : ui.Shows l) :
    c.line.text = l.text := by
  obtain ⟨⟨f, hf, hvalue⟩, -⟩ := hshows
  rw [h.edits.field] at hf
  obtain rfl := Option.some.inj hf
  exact h.edits.value.symm.trans hvalue

/-- Before every key the Count field has the line, and the number seen last is the one that goes with
it. -/
def Counts (con : Console) (p : Program NCursesUI) (t : ℤ × Line UInt8) : Prop :=
  ∃ ui' rows, p = pure ui' ∧ ui'.CountEdits con ⟨t.1, t.2, rows⟩

theorem Counts.turn {p : Program NCursesUI} {t : ℤ × Line UInt8} (h : Counts con p t)
    (hkey : key.edit ≠ none) :
    ∃ ui' rows, p >>= NCursesUI.turn con key = pure ui' ∧
      ui'.CountEdits con (CountLine.look ⟨t.1, (countStep t key).2, rows⟩) := by
  obtain ⟨ui₁, rows, rfl, h₁⟩ := h
  obtain ⟨e, he⟩ := Option.ne_none_iff_exists'.mp hkey
  obtain ⟨ui', hturn, h'⟩ := h₁.turn he
  have hline : (countStep t key).2 = t.2.key 3 e := typeKey_of_edit (Line.key 3) t.2 he
  refine ⟨ui', rows, (ret_bind _ _).trans hturn, ?_⟩
  rw [hline]
  exact h'

theorem typing_count_iff (h : ui.CountEdits con c) {keys : List Key}
    (hkeys : ∀ key ∈ keys, key.edit ≠ none) :
    (∀ p, p <+: keys → ∃ ui', ui.turns con p = pure ui' ∧
        ui'.Shows (p.foldl (typeKey (Line.key 3)) c.line)) ↔
      Along countStep (fun t key => CountLine.Kept t.1 (countStep t key).2.text) (c.last, c.line)
        keys := by
  have hshows : ∀ p t, Counts con p t → ∃ ui', p = pure ui' ∧ ui'.Shows t.2 := by
    rintro p t ⟨ui₁, rows, rfl, h₁⟩
    exact ⟨ui₁, rfl, h₁.edits.shows⟩
  have hneeds : ∀ p t, ∀ key ∈ keys, Counts con p t →
      (∃ ui', p >>= turn con key = pure ui' ∧ ui'.Shows (countStep t key).2) →
      CountLine.Kept t.1 (countStep t key).2.text := by
    rintro p t key hkey hcounts ⟨ui₂, hp, hshows⟩
    obtain ⟨ui', rows, hturn, h'⟩ := hcounts.turn (hkeys key hkey)
    obtain rfl := pure_injective (hp.symm.trans hturn)
    exact CountLine.kept_of_look (c := ⟨t.1, (countStep t key).2, rows⟩) (h'.text_eq hshows)
  have hkeeps : ∀ p t, ∀ key ∈ keys, Counts con p t →
      CountLine.Kept t.1 (countStep t key).2.text →
      Counts con (p >>= turn con key) (countStep t key) := by
    intro p t key hkey hcounts hkept
    obtain ⟨ui', rows, hturn, h'⟩ := hcounts.turn (hkeys key hkey)
    obtain ⟨rows', hlook⟩ := CountLine.look_of_kept (c := ⟨t.1, (countStep t key).2, rows⟩) hkept
    rw [hlook] at h'
    exact ⟨ui', rows', hturn, h'⟩
  have hstart : Counts con (pure ui) (c.last, c.line) := ⟨ui, c.rows, rfl, h⟩
  have hiff := prefix_iff hshows hneeds hkeeps hstart
  simp only [foldl_countStep] at hiff
  exact hiff

theorem edit_digit {b : UInt8} (h : isDigit b = true) : (Key.byte b).edit = some (.char b) := by
  obtain ⟨hlo, hhi⟩ : 48 ≤ b ∧ b ≤ 57 := by simpa [isDigit] using h
  have hne : b ≠ 127 := by
    rintro rfl
    exact absurd hhi (by decide)
  have hprintable : 32 ≤ b ∧ b ≤ 126 :=
    ⟨UInt8.le_trans (by decide) hlo, UInt8.le_trans hhi (by decide)⟩
  exact (if_neg hne).trans (if_pos hprintable)

theorem typing_number_iff (h : ui.CountEdits con c) {n : ℕ} (hn : 0 < n) :
    (∃ ui', ui.turns con (.f 5 :: (printNat n).map .byte) = pure ui' ∧
        (ui'.sec2 2).value = printNat n ∧ ui'.sec3.length = n) ↔
      n < 1000 ∧ (c.last = 0 ∨ 100 ≤ n ∧ 10 ∣ n) := by
  have hkeys : ∀ key ∈ Key.f 5 :: (printNat n).map Key.byte, key.edit ≠ none := by
    intro key hkey
    rcases List.mem_cons.mp hkey with rfl | hkey
    · decide
    · obtain ⟨b, hb, rfl⟩ := List.mem_map.mp hkey
      rw [edit_digit (isDigit_of_mem_printNat n b hb)]
      exact Option.some_ne_none _
  have hrun : (Key.f 5 :: (printNat n).map Key.byte).foldl (typeKey CountLine.key) c =
      (printNat n).foldl (fun c b => c.key (.char b)) (c.key .clear) := by
    rw [List.foldl_cons, List.foldl_map]
    refine List.foldl_ext _ _ _ fun c b hb => ?_
    exact typeKey_of_edit _ _ (edit_digit (isDigit_of_mem_printNat n b hb))
  obtain ⟨ui', hturns, h'⟩ := h.turns hkeys
  rw [hrun] at h'
  rw [← c.clear_type_iff hn, ← h'.rows]
  have hvalue : (ui'.sec2 2).value = _ := h'.edits.value
  rw [← hvalue]
  constructor
  · rintro ⟨ui₂, h₂, htext, hrows⟩
    obtain rfl := pure_injective (h₂.symm.trans hturns)
    exact ⟨htext, hrows⟩
  · rintro ⟨htext, hrows⟩
    exact ⟨ui', hturns, htext, hrows⟩

/-- Where a free text field is active: it has a line, editing keys keep it active and never leave the
text, and all along they do what they do to the line, in a line editor whose limit is the field's
width; in the Count field just when every text on the way reads as the one before it or is a number
as it is printed. F5 and the digits of a number put that number into the Count field, and as many
fields into Section 3, just when it has at most three digits and, unless the count was 0, exactly
three of which the last is 0. -/
theorem typing_of_reached (h : ui.Reached con fun _ _ _ => True) (hrun : ui.running = true)
    (hfree : ui.FreeText) {keys : List Key} (hkeys : ∀ key ∈ keys, key.edit ≠ none) :
    ∃ f l, (ui.fields ui.actSec)[ui.actField]? = some f ∧ f.value = l.text ∧
      ui.cursorPos = l.cursor ∧
      (∃ ui', ui.turns con keys = pure ui' ∧ ui'.actSec = ui.actSec ∧
        ui'.actField = ui.actField) ∧
      ((∀ p, p <+: keys → ∃ ui', ui.turns con p = pure ui' ∧
          ui'.Shows (p.foldl (typeKey (Line.key f.width.toNat)) l)) ↔
        (ui.actSec = 1 ∧ ui.actField = 2 →
          Along countStep (fun t key => CountLine.Kept t.1 (countStep t key).2.text)
            (ui.lastCount, l) keys)) ∧
      (ui.actSec = 1 ∧ ui.actField = 2 → ∀ n : ℕ, 0 < n →
        ((∃ ui', ui.turns con (.f 5 :: (printNat n).map .byte) = pure ui' ∧
            (ui'.sec2 2).value = printNat n ∧ ui'.sec3.length = n) ↔
          n < 1000 ∧ (ui.lastCount = 0 ∨ 100 ≤ n ∧ 10 ∣ n))) := by
  obtain ⟨f, l, hedits⟩ := exists_edits h hrun hfree
  refine ⟨f, l, hedits.field, hedits.value, hedits.cursor, ?_⟩
  by_cases hat : ui.actSec = 1 ∧ ui.actField = 2
  · have hf : f = ui.countField := by
      have hfield := hedits.field
      rw [hat.1, hat.2] at hfield
      exact (Option.some.inj hfield).symm
    subst hf
    have hcount : ui.CountEdits con ⟨ui.lastCount, l, ui.sec3.length⟩ := ⟨hat, hedits, rfl, rfl⟩
    obtain ⟨ui', hturns, h'⟩ := hcount.turns hkeys
    refine ⟨⟨ui', hturns, h'.active.1.trans hat.1.symm, h'.active.2.trans hat.2.symm⟩, ?_, ?_⟩
    · exact (typing_count_iff hcount hkeys).trans ⟨fun hall _ => hall, fun hall => hall hat⟩
    · exact fun _ n hn => typing_number_iff hcount hn
  · obtain ⟨ui', f', hturns, hsec, hfield, -, -⟩ := hedits.turns_plain hat hkeys
    refine ⟨⟨ui', hturns, hsec, hfield⟩, iff_of_true (fun p hp => ?_) fun h => absurd h hat,
      fun h => absurd h hat⟩
    obtain ⟨ui₁, f₁, hturns₁, -, -, -, h₁⟩ :=
      hedits.turns_plain hat fun key hk => hkeys key (hp.subset hk)
    exact ⟨ui₁, hturns₁, h₁.shows⟩

theorem eq_put {v : Text} {i : ℕ} (htext : l.text = v) (hcursor : (l.cursor : ℤ) = i) :
    l = .put v i := by
  rw [← Line.put_text_cursor l, htext, Int.ofNat.inj hcursor]

/-- At the Gateway field: Backspace and a `9`. -/
theorem typing_of_reached_gateway :
    ∃ s ui', session Console.plain [] [] (World.bench 1 swappedStrings.1 swappedStrings.2 []) [] =
        some s ∧
      s.1.turns Console.plain [.backspace, .byte 57] = pure ui' ∧
      ui'.Shows (.put (text "192.168.0.109") 13) := by
  have hend : (session Console.plain [] [] (World.bench 1 swappedStrings.1 swappedStrings.2 [])
      []).map (fun s => ((s.1.running, s.1.actSec, s.1.actField), (s.1.sec1 0).value, s.1.cursorPos)) =
      some ((true, 0, 0), text "192.168.0.102", 13) := by decide +kernel
  obtain ⟨s, hs, hval⟩ := Option.map_eq_some_iff.mp hend
  obtain ⟨hat, hval⟩ := Prod.mk.inj hval
  obtain ⟨hrun, hat⟩ := Prod.mk.inj hat
  obtain ⟨hsec, hfield⟩ := Prod.mk.inj hat
  obtain ⟨hvalue, hcursor⟩ := Prod.mk.inj hval
  have hreached : s.1.Reached Console.plain fun _ _ _ => True :=
    reached_session _ hs fun _ _ _ _ => trivial
  have hfree : s.1.FreeText := .inl ⟨hsec, by rw [hfield]; decide⟩
  have hkeys : ∀ key ∈ [Key.backspace, .byte 57], key.edit ≠ none := by decide
  obtain ⟨f, l, hf, htext, hl, -, hiff, -⟩ := typing_of_reached hreached hrun hfree hkeys
  have hnot : ¬(s.1.actSec = 1 ∧ s.1.actField = 2) := by
    rintro ⟨hone, -⟩
    rw [hsec] at hone
    exact absurd hone (by decide)
  obtain ⟨ui', hturns, hshows⟩ := hiff.mpr (fun h => absurd h hnot) _ (List.prefix_refl _)
  rw [hsec, hfield] at hf
  obtain rfl := (Option.some.inj hf).symm
  have hline : l = .put (text "192.168.0.102") 13 :=
    eq_put (htext.symm.trans hvalue) (hl.symm.trans hcursor)
  refine ⟨s, ui', hs, hturns, ?_⟩
  rw [hline] at hshows
  exact hshows

/-- The Count field is 1. F5 and a `5` make it 50, and Section 3 has 50 fields. -/
theorem typing_into_count :
    ∃ (ui : NCursesUI) (l : Line UInt8), (ui.Reached Console.plain fun _ _ _ => True) ∧
      ui.running = true ∧ ui.actSec = 1 ∧ ui.actField = 2 ∧
      (ui.sec2 2).value = l.text ∧ ui.cursorPos = l.cursor ∧
      (∃ ui', ui.turns Console.plain [.f 5, .byte 53] = pure ui' ∧
        (ui'.sec2 2).value = text "50" ∧ ui'.sec3.length = 50) ∧
      (¬∃ ui', ui.turns Console.plain [.f 5, .byte 53] = pure ui' ∧
        ui'.Shows ([.f 5, .byte 53].foldl (typeKey (Line.key 3)) l)) ∧
      ¬∃ ui', ui.turns Console.plain (.f 5 :: (printNat 5).map .byte) = pure ui' ∧
        (ui'.sec2 2).value = printNat 5 ∧ ui'.sec3.length = 5 := by
  have hend : (session Console.plain [] [] (World.bench 1 swappedStrings.1 swappedStrings.2 [])
      [.byte 4, .byte 9, .byte 9, .right]).map (fun s => ((s.1.running, s.1.actSec, s.1.actField),
        ((s.1.sec2 2).value, s.1.cursorPos), s.1.lastCount, s.1.sec3.length)) =
      some ((true, 1, 2), (text "1", 1), 1, 1) := by decide +kernel
  obtain ⟨s, hs, hval⟩ := Option.map_eq_some_iff.mp hend
  obtain ⟨hat, hval⟩ := Prod.mk.inj hval
  obtain ⟨hcount, hval⟩ := Prod.mk.inj hval
  obtain ⟨hrun, hat⟩ := Prod.mk.inj hat
  obtain ⟨hsec, hfield⟩ := Prod.mk.inj hat
  obtain ⟨hvalue, hcursor⟩ := Prod.mk.inj hcount
  obtain ⟨hlast, hrows⟩ := Prod.mk.inj hval
  have hreached : s.1.Reached Console.plain fun _ _ _ => True :=
    reached_session _ hs fun _ _ _ _ => trivial
  have hfree : s.1.FreeText := .inr (.inl ⟨hsec, .inr hfield⟩)
  obtain ⟨f, l, hedits⟩ := exists_edits hreached hrun hfree
  have hf := hedits.field
  rw [hsec, hfield, field_count] at hf
  obtain rfl := Option.some.inj hf
  have hl : l = .put (text "1") 1 :=
    eq_put (hedits.value.symm.trans hvalue) (hedits.cursor.symm.trans hcursor)
  have hedited : s.1.CountEdits Console.plain ⟨1, .put (text "1") 1, 1⟩ :=
    ⟨⟨hsec, hfield⟩, hl ▸ hedits, hlast, hrows⟩
  obtain ⟨ui', hturns, h'⟩ := hedited.turns (by decide : ∀ key ∈ [Key.f 5, .byte 53], key.edit ≠ none)
  have hfold : [Key.f 5, .byte 53].foldl (typeKey CountLine.key) ⟨1, .put (text "1") 1, 1⟩ =
      ⟨50, ⟨[53], [48]⟩, 50⟩ := by decide +kernel
  rw [hfold] at h'
  refine ⟨s.1, l, hreached, hrun, hsec, hfield, hedits.value, hedits.cursor,
    ⟨ui', hturns, h'.edits.value, h'.rows⟩, ?_, ?_⟩
  · rintro ⟨ui₂, hturns₂, hshows⟩
    obtain rfl := pure_injective (hturns₂.symm.trans hturns)
    exact absurd (h'.text_eq hshows) (by rw [hl]; decide)
  · rw [typing_number_iff hedited (by norm_num)]
    decide

end NCursesUI

end Plctagt.Gui
