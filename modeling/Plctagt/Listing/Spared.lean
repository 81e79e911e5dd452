import Plctagt.Listing.Visit

/-! # Halts that a step never ends in

Only `get_tag_list` runs a loop without a bound, and only the two pushes store into the queue. The
rest of a listing exits, or reads where it should not.
-/
namespace Plctagt.Listing
open Decimal Tag
set_option autoImplicit false

/-- The step does not end in the halt `e`. -/
def Spares {α : Type} (e : Halt) (x : Except Halt α) : Prop := x ≠ .error e

section Spares
variable {α β : Type} {e : Halt}

theorem spares_ok (a : α) : Spares e (.ok a) := by
  intro h
  cases h

theorem spares_error {e' : Halt} (h : e ≠ e') : Spares e (.error e' : Except Halt α) := by
  intro he
  cases he
  exact h rfl

theorem spares_bind {x : Except Halt α} {f : α → Except Halt β} (hx : Spares e x)
    (hf : ∀ a, Spares e (f a)) : Spares e (x >>= f) := by
  cases x with
  | error e' =>
    intro h
    cases h
    exact hx rfl
  | ok a => exact hf a

end Spares

section Parts
variable {e : Halt} (hexit : e ≠ .exit) (hundefined : e ≠ .undefined)

include hundefined in
theorem spares_defined {α : Type} (x : Option α) : Spares e (defined x) := by
  cases x with
  | none => exact spares_error hundefined
  | some a => exact spares_ok a

include hexit hundefined

theorem spares_openTag (plc : Plc) (base tagName : Text) : Spares e (openTag plc base tagName) := by
  unfold openTag
  dsimp only
  split_ifs
  · exact spares_error hundefined
  · exact spares_error hexit
  · exact spares_ok _

/-! ## Templates -/

theorem spares_templateString (plc : Plc) (tagString : Text) (offset : ℤ) :
    Spares e (templateString plc tagString offset) := by
  apply spares_bind (spares_defined hundefined _)
  intro nameLen
  split_ifs
  · exact spares_error hexit
  · apply spares_bind (spares_defined hundefined _)
    intro x
    dsimp only
    split_ifs
    · exact spares_error hexit
    · exact spares_ok _

theorem spares_fieldNames (plc : Plc) (tagString : Text) (fields : List UdtField) (offset : ℤ) :
    Spares e (fieldNames plc tagString fields offset) := by
  induction fields generalizing offset with
  | nil => exact spares_ok []
  | cons field fields ih =>
    unfold fieldNames
    dsimp only
    split_ifs
    · apply spares_bind (spares_defined hundefined _)
      intro nameLen
      split_ifs
      · exact spares_error hexit
      · apply spares_bind (spares_templateString hexit hundefined plc tagString offset)
        intro nameStr
        apply spares_bind (spares_defined hundefined _)
        intro total
        exact spares_bind (ih _) fun _ => spares_ok _
      · exact spares_bind (ih _) fun _ => spares_ok _
    · exact spares_ok _

theorem spares_templateNames (plc : Plc) (tagString : Text) (fields : List UdtField) (offset : ℤ) :
    Spares e (templateNames plc tagString fields offset) := by
  apply spares_bind (spares_templateString hexit hundefined plc tagString offset)
  intro nameStr
  apply spares_bind (spares_defined hundefined _)
  intro total
  exact spares_bind (spares_fieldNames hexit hundefined plc tagString fields _) fun _ => spares_ok _

theorem visit_spares (plc : Plc) (base : Text) (id : UInt16) :
    (visit plc base id).ending ≠ some (.halt e) := by
  unfold visit
  cases hopen : openTag plc base (udtName id) with
  | error e' =>
    intro h
    cases h
    exact spares_openTag hexit hundefined plc base _ hopen
  | ok x =>
    dsimp only
    split_ifs
    · simp
    · simpa using hexit.symm
    unfold templateVisit
    dsimp only
    split_ifs
    · simpa using hexit.symm
    · simpa using hexit.symm
    cases hnames : templateNames plc x.1 (descriptors (plc.tag x.1)
        (getUint16 (plc.tag x.1) 10).toNat 14) (14 + 8 * (getUint16 (plc.tag x.1) 10).toNat) with
    | error e' =>
      intro h
      cases h
      exact spares_templateNames hexit hundefined plc _ _ _ hnames
    | ok y => simp

/-! ## The tag list -/

omit hexit in
theorem spares_processTagEntry (plc : Plc) (tagString : Text) (offset : ℤ)
    (parent : Option Text) : Spares e (processTagEntry plc tagString offset parent) := by
  apply spares_bind (spares_defined hundefined _)
  intro tagNameLen
  split
  · exact spares_ok _
  apply spares_bind (spares_defined hundefined _)
  intro x
  dsimp only
  split
  · exact spares_ok _
  apply spares_bind (spares_defined hundefined _)
  intro total
  split
  · exact spares_ok _
  · exact spares_ok _

omit hexit in
theorem spares_exportEntries (heap : ℕ → UInt16) (i : ℕ) (tags : List TagNode) :
    Spares e (exportEntries heap i tags) := by
  induction tags generalizing i with
  | nil => exact spares_ok []
  | cons tag tags ih =>
    unfold exportEntries
    apply spares_bind
    · cases tags.head? with
      | none => exact spares_ok []
      | some next => exact spares_defined hundefined _
    intro nextName
    apply spares_bind (spares_defined hundefined _)
    intro name
    exact spares_bind (ih _) fun _ => spares_ok _

variable (hturns : e ≠ .turns)
include hturns

theorem spares_getTagList (plc : Plc) (turns : ℕ) (tagString : Text) (parent : Option Text)
    (tagList : List TagNode) : Spares e (getTagList plc turns tagString parent tagList) := by
  have hloop : ∀ payloadSize offset tagList,
      Spares e (tagEntries plc tagString parent payloadSize turns offset tagList) := by
    intro payloadSize
    induction turns with
    | zero =>
      intro offset tagList
      exact spares_error hturns
    | succ turns ih =>
      intro offset tagList
      unfold tagEntries
      apply spares_bind (spares_processTagEntry hundefined plc tagString offset parent)
      intro x
      dsimp only
      split_ifs
      · exact ih _ _
      · exact spares_ok _
  unfold getTagList
  dsimp only
  split_ifs
  · exact spares_error hexit
  · exact spares_error hexit
  · exact hloop _ _ _

theorem spares_programTags (plc : Plc) (turns : ℕ) (base : Text) (entries tagList : List TagNode) :
    Spares e (programTags plc turns base entries tagList) := by
  induction entries generalizing tagList with
  | nil => exact spares_ok tagList
  | cons entry entries ih =>
    apply spares_bind (spares_defined hundefined _)
    intro name
    split_ifs
    · apply spares_bind (spares_openTag hexit hundefined plc base _)
      intro x
      dsimp only
      split_ifs
      · exact spares_error hexit
      · exact spares_bind (spares_getTagList hexit hundefined hturns plc turns _ _ _) ih
    · exact ih _

theorem spares_tagListing (plc : Plc) (turns : ℕ) (gateway path : Text) :
    Spares e (tagListing plc turns gateway path) := by
  apply spares_bind
  · unfold setupTagString
    split_ifs
    · exact spares_error hexit
    · exact spares_error hexit
    · exact spares_ok _
  intro base
  apply spares_bind (spares_openTag hexit hundefined plc base _)
  intro x
  dsimp only
  split_ifs
  · exact spares_error hexit
  apply spares_bind (spares_getTagList hexit hundefined hturns plc turns _ _ _)
  intro controller
  exact spares_bind (spares_programTags hexit hundefined hturns plc turns base _ _)
    fun _ => spares_ok _

end Parts

end Plctagt.Listing
