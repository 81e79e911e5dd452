import Mathlib

/-! # A run beside a reference run

Two machines take the same inputs, one after another. What is compared (`S`) may agree before an input
and not after it. When the condition on which the machines go on to agree (`R`) is known for one input
(`C`, on the state of the reference), and nothing is compared as equal without it, they compare as
equal through a whole run just when it holds all along the run of the reference.
-/
namespace Plctagt.Lockstep
set_option autoImplicit false

variable {σ τ α : Type}

/-- `C` holds of every input of the run and the state it comes to. -/
def Along (g : τ → α → τ) (C : τ → α → Prop) : τ → List α → Prop
  | _, [] => True
  | t, a :: as => C t a ∧ Along g C (g t a) as

theorem prefix_iff {R S : σ → τ → Prop} {f : σ → α → σ} {g : τ → α → τ} {C : τ → α → Prop}
    {as : List α} (hS : ∀ s t, R s t → S s t)
    (hneeds : ∀ s t, ∀ a ∈ as, R s t → S (f s a) (g t a) → C t a)
    (hkeeps : ∀ s t, ∀ a ∈ as, R s t → C t a → R (f s a) (g t a)) {s : σ} {t : τ} (h : R s t) :
    (∀ p, p <+: as → S (p.foldl f s) (p.foldl g t)) ↔ Along g C t as := by
  induction as generalizing s t with
  | nil =>
    refine iff_of_true (fun p hp => ?_) trivial
    obtain rfl := List.prefix_nil.mp hp
    exact hS s t h
  | cons a as ih =>
    have htail : ∀ s t, R s t → ((∀ p, p <+: as → S (p.foldl f s) (p.foldl g t)) ↔ Along g C t as) :=
      fun s t => ih (fun s t b hb => hneeds s t b (List.mem_cons_of_mem a hb))
        (fun s t b hb => hkeeps s t b (List.mem_cons_of_mem a hb))
    constructor
    · intro hall
      have ha : C t a := hneeds s t a List.mem_cons_self h (hall [a] ⟨as, rfl⟩)
      refine ⟨ha, (htail _ _ (hkeeps s t a List.mem_cons_self h ha)).mp fun p hp => ?_⟩
      exact hall (a :: p) (List.cons_prefix_cons.mpr ⟨rfl, hp⟩)
    · rintro ⟨ha, has⟩ p hp
      cases p with
      | nil => exact hS s t h
      | cons b p =>
        obtain ⟨rfl, htl⟩ := List.cons_prefix_cons.mp hp
        exact (htail _ _ (hkeeps s t b List.mem_cons_self h ha)).mpr has p htl

end Plctagt.Lockstep
