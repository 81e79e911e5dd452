import Mathlib

/-! # Removing by moving the last element

An element is removed by putting the last one in its place. Done from the highest position down,
this removes what stood at the positions in the first place, whatever the positions are: the elements
behind the current one have been looked at already, so only their order changes.
-/
namespace Plctagt.SwapRemove
set_option autoImplicit false

variable {α : Type}

/-- The last element takes the place `i`. -/
def swapRemove (l : List α) (i : ℕ) : List α :=
  match l.getLast? with
  | none => l
  | some back => (l.set i back).dropLast

/-- The positions of the elements with `p`, from the first on. -/
def positions (p : α → Bool) (l : List α) : List ℕ :=
  l.zipIdx.filterMap fun x => if p x.1 then some x.2 else none

theorem positions_append_singleton (p : α → Bool) (l : List α) (a : α) :
    positions p (l ++ [a]) = positions p l ++ if p a then [l.length] else [] := by
  rw [positions, List.zipIdx_append, List.filterMap_append, List.zipIdx_singleton, Nat.zero_add]
  congr 1
  by_cases h : p a = true
  · simp [h]
  · simp [h]

theorem positions_map {β : Type} (f : α → β) (p : β → Bool) (l : List α) :
    positions p (l.map f) = positions (fun a => p (f a)) l := by
  unfold positions
  rw [List.zipIdx_map, List.filterMap_map]
  rfl

theorem swapRemove_append (l : List α) (a : α) (r : List α) :
    ∃ r', r'.Perm r ∧ swapRemove (l ++ a :: r) l.length = l ++ r' := by
  induction r using List.reverseRecOn with
  | nil =>
    refine ⟨[], .refl _, ?_⟩
    simp [swapRemove]
  | append_singleton r b =>
    refine ⟨b :: r, (List.perm_append_singleton b r).symm, ?_⟩
    have hlast : (l ++ a :: (r ++ [b])).getLast? = some b := by
      rw [← List.cons_append, ← List.append_assoc, List.getLast?_append, List.getLast?_singleton]
      rfl
    have hset : (l ++ a :: (r ++ [b])).set l.length b = (l ++ b :: r) ++ [b] := by
      rw [List.set_append_right _ _ le_rfl, Nat.sub_self, List.set_cons_zero, List.append_assoc]
      rfl
    unfold swapRemove
    rw [hlast]
    show ((l ++ a :: (r ++ [b])).set l.length b).dropLast = _
    rw [hset, List.dropLast_concat]

/-- The removals of the positions in `l`, with the elements behind `l` looked at already. -/
theorem foldl_swapRemove_append (p : α → Bool) (l r : List α) :
    ((positions p l).reverse.foldl swapRemove (l ++ r)).Perm ((l.filter fun a => !p a) ++ r) := by
  induction l using List.reverseRecOn generalizing r with
  | nil => exact .refl _
  | append_singleton l a ih =>
    rw [positions_append_singleton, List.append_assoc, List.singleton_append]
    cases hp : p a with
    | false =>
      have hfilter : (l ++ [a]).filter (fun a => !p a) ++ r = l.filter (fun a => !p a) ++ a :: r := by
        simp [hp]
      rw [if_neg Bool.false_ne_true, List.append_nil, hfilter]
      exact ih (a :: r)
    | true =>
      have hfilter : (l ++ [a]).filter (fun a => !p a) = l.filter (fun a => !p a) := by simp [hp]
      obtain ⟨r', hr', hremove⟩ := swapRemove_append l a r
      rw [if_pos rfl, List.reverse_append, List.reverse_singleton, List.singleton_append,
        List.foldl_cons, hremove, hfilter]
      exact (ih r').trans (List.Perm.append_left _ hr')

/-- Removing the positions of the elements with `p`, from the last one down, leaves the others. -/
theorem foldl_swapRemove_perm (p : α → Bool) (l : List α) :
    ((positions p l).reverse.foldl swapRemove l).Perm (l.filter fun a => !p a) := by
  have h := foldl_swapRemove_append p l []
  rwa [List.append_nil, List.append_nil] at h

end Plctagt.SwapRemove
