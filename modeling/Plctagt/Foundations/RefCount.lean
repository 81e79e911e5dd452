import Mathlib.Data.Multiset.AddSub
import Mathlib.Logic.Function.Basic

/-! # Counted references

Objects that carry the number of references to them, and the references there are. The heap is
`Balanced` when each object counts its references and is gone when there is none: then what is
referred to is there, and what is there is referred to.
-/
namespace Plctagt.RefCount
set_option autoImplicit false

/-- An object with its count. -/
structure Counted (β : Type) where
  count : ℕ
  value : β

abbrev Heap (π β : Type) := π → Option (Counted β)

section Balanced
variable {π β : Type} [DecidableEq π]

def counted (n : ℕ) : Option ℕ := if n = 0 then none else some n

def Balanced (heap : Heap π β) (owners : Multiset π) : Prop :=
  ∀ p, (heap p).map Counted.count = counted (owners.count p)

variable {heap : Heap π β} {owners : Multiset π} {p : π} {o : Counted β}

theorem balanced_empty : Balanced (fun _ => none : Heap π β) 0 := fun p => by
  rw [Multiset.count_zero]
  rfl

theorem Balanced.mem_iff (h : Balanced heap owners) : p ∈ owners ↔ heap p ≠ none := by
  rw [← Multiset.count_ne_zero]
  have hp := h p
  rw [counted] at hp
  split_ifs at hp with hzero
  · exact iff_of_false (not_not.mpr hzero) (not_not.mpr (Option.map_eq_none_iff.mp hp))
  · refine iff_of_true hzero fun hnone => ?_
    rw [hnone] at hp
    exact Option.some_ne_none _ hp.symm

theorem Balanced.exists_object (h : Balanced heap owners) (hp : p ∈ owners) : ∃ o, heap p = some o :=
  Option.ne_none_iff_exists'.mp (h.mem_iff.mp hp)

theorem Balanced.count_eq (h : Balanced heap owners) (ho : heap p = some o) :
    o.count = owners.count p := by
  have hp := h p
  rw [ho, counted] at hp
  split_ifs at hp
  · exact absurd hp (Option.some_ne_none _)
  · exact Option.some.inj hp

theorem Balanced.count_pos (h : Balanced heap owners) (ho : heap p = some o) : 0 < o.count := by
  rw [h.count_eq ho]
  exact Multiset.count_pos.mpr (h.mem_iff.mpr (by rw [ho]; exact Option.some_ne_none o))

/-- One object is written, and the references to the others are the same. -/
theorem Balanced.update (h : Balanced heap owners) {owners' : Multiset π} {x : Option (Counted β)}
    (hsame : ∀ q ≠ p, owners'.count q = owners.count q)
    (hx : x.map Counted.count = counted (owners'.count p)) :
    Balanced (Function.update heap p x) owners' := by
  intro q
  by_cases hq : q = p
  · rw [hq, Function.update_self]
    exact hx
  · rw [Function.update_of_ne hq, hsame q hq]
    exact h q

theorem Balanced.alloc (h : Balanced heap owners) (hp : heap p = none) (v : β) :
    Balanced (Function.update heap p (some ⟨1, v⟩)) (p ::ₘ owners) := by
  have hnot : p ∉ owners := fun hmem => h.mem_iff.mp hmem hp
  refine h.update (fun q hq => Multiset.count_cons_of_ne hq owners) ?_
  rw [Multiset.count_cons_self, Multiset.count_eq_zero.mpr hnot]
  rfl

theorem Balanced.retain (h : Balanced heap owners) (ho : heap p = some o) :
    Balanced (Function.update heap p (some { o with count := o.count + 1 })) (p ::ₘ owners) := by
  refine h.update (fun q hq => Multiset.count_cons_of_ne hq owners) ?_
  rw [Multiset.count_cons_self, counted, if_neg (Nat.succ_ne_zero _), ← h.count_eq ho]
  rfl

/-- The last reference takes the object with it. -/
theorem Balanced.release (h : Balanced heap owners) (ho : heap p = some o) :
    Balanced (Function.update heap p
      (if o.count - 1 = 0 then none else some { o with count := o.count - 1 })) (owners.erase p) := by
  refine h.update (fun q hq => Multiset.count_erase_of_ne hq owners) ?_
  rw [Multiset.count_erase_self, counted, ← h.count_eq ho]
  split_ifs <;> rfl

theorem Balanced.write (h : Balanced heap owners) (ho : heap p = some o) (v : β) :
    Balanced (Function.update heap p (some { o with value := v })) owners := by
  refine h.update (fun q _ => rfl) ?_
  rw [← h p, ho]
  rfl

end Balanced
end Plctagt.RefCount
