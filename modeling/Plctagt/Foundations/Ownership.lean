import Mathlib

/-! # Handles in a trace

Events acquire handles, use them and release them. A trace is disciplined when each handle, once
acquired, is released, and nothing uses it after its first release; so it is released once.
-/
namespace Plctagt.Ownership
set_option autoImplicit false

variable {ε η : Type} [DecidableEq η] (acquires releases uses : ε → Option η)

/-- The handle is released, and its first release is its last use. -/
def Settled (h : η) : List ε → Prop
  | [] => False
  | ev :: tr => if releases ev = some h then ∀ e ∈ tr, uses e ≠ some h else Settled h tr

def Disciplined : List ε → Prop
  | [] => True
  | ev :: tr => (∀ h, acquires ev = some h → Settled releases uses h tr) ∧ Disciplined tr

instance decidableSettled (h : η) : (tr : List ε) → Decidable (Settled releases uses h tr)
  | [] => .isFalse id
  | ev :: tr =>
    have := decidableSettled h tr
    inferInstanceAs (Decidable (if releases ev = some h then ∀ e ∈ tr, uses e ≠ some h else _))

instance decidableDisciplined : (tr : List ε) → Decidable (Disciplined acquires releases uses tr)
  | [] => .isTrue trivial
  | ev :: tr =>
    have := decidableDisciplined tr
    decidable_of_iff ((∀ h ∈ acquires ev, Settled releases uses h tr) ∧
      Disciplined acquires releases uses tr) Iff.rfl

/-! ## One handle -/

section Settled
variable {releases uses} {h : η}

theorem settled_append {tr₁ : List ε} (hkept : ∀ e ∈ tr₁, releases e ≠ some h) (tr₂ : List ε) :
    Settled releases uses h (tr₁ ++ tr₂) ↔ Settled releases uses h tr₂ := by
  induction tr₁ with
  | nil => rfl
  | cons ev tr₁ ih =>
    rw [List.cons_append, Settled, if_neg (hkept ev List.mem_cons_self)]
    exact ih fun e he => hkept e (List.mem_cons_of_mem ev he)

theorem settled_cons {ev : ε} (hrel : releases ev = some h) (tr : List ε) :
    Settled releases uses h (ev :: tr) ↔ ∀ e ∈ tr, uses e ≠ some h := by
  rw [Settled, if_pos hrel]

theorem settled_iff (tr : List ε) :
    Settled releases uses h tr ↔ ∃ before ev after, tr = before ++ ev :: after ∧
      releases ev = some h ∧ (∀ e ∈ before, releases e ≠ some h) ∧ ∀ e ∈ after, uses e ≠ some h := by
  constructor
  · intro hs
    induction tr with
    | nil => exact hs.elim
    | cons ev tr ih =>
      by_cases hrel : releases ev = some h
      · exact ⟨[], ev, tr, rfl, hrel, by simp, (settled_cons hrel tr).mp hs⟩
      · rw [Settled, if_neg hrel] at hs
        obtain ⟨before, ev', after, rfl, hrel', hbefore, hafter⟩ := ih hs
        exact ⟨ev :: before, ev', after, rfl, hrel',
          List.forall_mem_cons.mpr ⟨hrel, hbefore⟩, hafter⟩
  · rintro ⟨before, ev, after, rfl, hrel, hbefore, hafter⟩
    rw [settled_append hbefore, settled_cons hrel]
    exact hafter

theorem not_settled_of_kept {tr : List ε} (hkept : ∀ e ∈ tr, releases e ≠ some h) :
    ¬Settled releases uses h tr := by
  intro hs
  obtain ⟨before, ev, after, rfl, hrel, -, -⟩ := (settled_iff tr).mp hs
  exact hkept ev (by simp) hrel

theorem not_settled_of_used_again {tr₁ tr₂ : List ε} (hrel : ∃ e ∈ tr₁, releases e = some h)
    (huse : ∃ e ∈ tr₂, uses e = some h) : ¬Settled releases uses h (tr₁ ++ tr₂) := by
  obtain ⟨e₂, he₂, huse⟩ := huse
  induction tr₁ with
  | nil => simp at hrel
  | cons ev tr₁ ih =>
    rw [List.cons_append, Settled]
    by_cases hev : releases ev = some h
    · rw [if_pos hev]
      intro hs
      exact hs e₂ (List.mem_append_right tr₁ he₂) huse
    · rw [if_neg hev]
      apply ih
      obtain ⟨e, he, hrel⟩ := hrel
      rcases List.mem_cons.mp he with rfl | he
      · exact absurd hrel hev
      · exact ⟨e, he, hrel⟩

theorem settled_of_nodup {tr : List ε} (hall : ∀ e ∈ tr, ∀ h, uses e = some h → releases e = some h)
    (hnodup : (tr.filterMap releases).Nodup) (hmem : h ∈ tr.filterMap releases) :
    Settled releases uses h tr := by
  induction tr with
  | nil => simp at hmem
  | cons ev tr ih =>
    have htail := fun e he => hall e (List.mem_cons_of_mem ev he)
    by_cases hrel : releases ev = some h
    · rw [settled_cons hrel]
      rw [List.filterMap_cons_some hrel, List.nodup_cons] at hnodup
      intro e he huse
      exact hnodup.1 (List.mem_filterMap.mpr ⟨e, he, htail e he h huse⟩)
    · rw [Settled, if_neg hrel]
      apply ih htail
      · cases hev : releases ev with
        | none =>
          rwa [List.filterMap_cons_none hev] at hnodup
        | some h' =>
          rw [List.filterMap_cons_some hev, List.nodup_cons] at hnodup
          exact hnodup.2
      · obtain ⟨e, he, he'⟩ := List.mem_filterMap.mp hmem
        rcases List.mem_cons.mp he with rfl | he
        · exact absurd he' hrel
        · exact List.mem_filterMap.mpr ⟨e, he, he'⟩

end Settled

/-! ## All handles -/

variable {acquires releases uses}

theorem disciplined_of_none {tr : List ε} (h : ∀ e ∈ tr, acquires e = none) :
    Disciplined acquires releases uses tr := by
  induction tr with
  | nil => trivial
  | cons ev tr ih =>
    refine ⟨fun x hx => ?_, ih fun e he => h e (List.mem_cons_of_mem ev he)⟩
    rw [h ev List.mem_cons_self] at hx
    cases hx

theorem disciplined_append_iff {tr₁ tr₂ : List ε} (h₁ : ∀ e ∈ tr₁, releases e = none)
    (h₂ : ∀ e ∈ tr₂, acquires e = none) :
    Disciplined acquires releases uses (tr₁ ++ tr₂) ↔
      ∀ h ∈ tr₁.filterMap acquires, Settled releases uses h tr₂ := by
  induction tr₁ with
  | nil =>
    refine iff_of_true (disciplined_of_none h₂) ?_
    simp
  | cons ev tr₁ ih =>
    have htail := fun e he => h₁ e (List.mem_cons_of_mem ev he)
    have hkept : ∀ h, Settled releases uses h (tr₁ ++ tr₂) ↔ Settled releases uses h tr₂ := by
      intro h
      apply settled_append
      intro e he
      rw [htail e he]
      simp
    rw [List.cons_append, Disciplined, ih htail]
    simp only [hkept]
    cases hev : acquires ev with
    | none => simp [List.filterMap_cons_none hev]
    | some h => simp [List.filterMap_cons_some hev]

end Plctagt.Ownership
