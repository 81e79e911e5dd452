import Mathlib

/-! # Programs that call an outside component

A program returns, stops with a fault, or makes a call and goes on with whatever the reply is.
The same program is read in two ways.

* `Runs p tr o`: with some replies, `p` makes exactly the calls of the trace `tr` and ends in `o`.
  No reply is ruled out, so a fact about all runs is a fact about every outcome of every call.
* `eval serve p s`: the replies come from a component with a state of its own.

`runs_eval` says that the second reading is one of the first. `Meets` carries the rules a proof
about all runs is built from.
-/
namespace Plctagt.Effects
set_option autoImplicit false

/-- Calls `C`, with replies `R`; faults `F`. -/
inductive Prog (C : Type) (R : C → Type) (F : Type) (α : Type) : Type
  | ret (a : α)
  | stop (f : F)
  | call (c : C) (k : R c → Prog C R F α)

variable {C : Type} {R : C → Type} {F α β γ : Type}

/-! ## The monad -/

def Prog.bind : Prog C R F α → (α → Prog C R F β) → Prog C R F β
  | .ret a, f => f a
  | .stop e, _ => .stop e
  | .call c k, f => .call c fun r => (k r).bind f

instance : Monad (Prog C R F) where
  pure := .ret
  bind := .bind

def perform (c : C) : Prog C R F (R c) := .call c .ret

theorem ret_bind (a : α) (f : α → Prog C R F β) : (pure a : Prog C R F α) >>= f = f a := rfl

theorem bind_ret (p : Prog C R F α) : p.bind .ret = p := by
  induction p with
  | ret a => rfl
  | stop e => rfl
  | call c k ih => exact congrArg (Prog.call c) (funext ih)

theorem bind_bind (p : Prog C R F α) (f : α → Prog C R F β) (g : β → Prog C R F γ) :
    (p.bind f).bind g = p.bind fun a => (f a).bind g := by
  induction p with
  | ret a => rfl
  | stop e => rfl
  | call c k ih => exact congrArg (Prog.call c) (funext ih)

instance : LawfulMonad (Prog C R F) :=
  LawfulMonad.mk' _ bind_ret (fun _ _ => rfl) bind_bind

/-! ## All runs -/

/-- One call with the reply it got. -/
abbrev Event (R : C → Type) := Σ c, R c

/-- `p` makes exactly the calls of `tr`, with those replies, and ends in `o`. -/
def Runs : Prog C R F α → List (Event R) → Except F α → Prop
  | .ret a, tr, o => tr = [] ∧ o = .ok a
  | .stop e, tr, o => tr = [] ∧ o = .error e
  | .call c k, tr, o => ∃ r tr', tr = ⟨c, r⟩ :: tr' ∧ Runs (k r) tr' o

@[simp] theorem runs_pure (a : α) (tr : List (Event R)) (o : Except F α) :
    Runs (pure a) tr o ↔ tr = [] ∧ o = .ok a := Iff.rfl

@[simp] theorem runs_stop (e : F) (tr : List (Event R)) (o : Except F α) :
    Runs (.stop e : Prog C R F α) tr o ↔ tr = [] ∧ o = .error e := Iff.rfl

@[simp] theorem runs_call (c : C) (k : R c → Prog C R F α) (tr : List (Event R))
    (o : Except F α) :
    Runs (.call c k) tr o ↔ ∃ r tr', tr = ⟨c, r⟩ :: tr' ∧ Runs (k r) tr' o := Iff.rfl

@[simp] theorem runs_perform_bind (c : C) (f : R c → Prog C R F α) (tr : List (Event R))
    (o : Except F α) :
    Runs (perform c >>= f) tr o ↔ ∃ r tr', tr = ⟨c, r⟩ :: tr' ∧ Runs (f r) tr' o := Iff.rfl

/-- A run of a sequence: the first part ends well and the rest runs from there, or the first part
faults. -/
theorem runs_bind (p : Prog C R F α) (f : α → Prog C R F β) (tr : List (Event R))
    (o : Except F β) :
    Runs (p >>= f) tr o ↔
      (∃ tr₁ tr₂ a, tr = tr₁ ++ tr₂ ∧ Runs p tr₁ (.ok a) ∧ Runs (f a) tr₂ o) ∨
      ∃ e, o = .error e ∧ Runs p tr (.error e) := by
  induction p generalizing tr with
  | ret a =>
    constructor
    · intro h
      exact .inl ⟨[], tr, a, rfl, ⟨rfl, rfl⟩, h⟩
    · rintro (⟨tr₁, tr₂, b, rfl, ⟨rfl, h⟩, hr⟩ | ⟨e, -, -, h⟩)
      · cases h
        exact hr
      · cases h
  | stop e =>
    constructor
    · rintro ⟨rfl, rfl⟩
      exact .inr ⟨e, rfl, rfl, rfl⟩
    · rintro (⟨tr₁, tr₂, b, rfl, ⟨rfl, h⟩, hr⟩ | ⟨e', rfl, rfl, h⟩)
      · cases h
      · cases h
        exact ⟨rfl, rfl⟩
  | call c k ih =>
    constructor
    · rintro ⟨r, tr', rfl, h⟩
      rcases (ih r tr').mp h with ⟨tr₁, tr₂, a, rfl, h1, h2⟩ | ⟨e, rfl, h1⟩
      · exact .inl ⟨⟨c, r⟩ :: tr₁, tr₂, a, rfl, ⟨r, tr₁, rfl, h1⟩, h2⟩
      · exact .inr ⟨e, rfl, r, tr', rfl, h1⟩
    · rintro (⟨tr₁, tr₂, a, rfl, ⟨r, tr', rfl, h1⟩, h2⟩ | ⟨e, rfl, r, tr', rfl, h1⟩)
      · exact ⟨r, tr' ++ tr₂, rfl, (ih r _).mpr (.inl ⟨tr', tr₂, a, rfl, h1, h2⟩)⟩
      · exact ⟨r, tr', rfl, (ih r _).mpr (.inr ⟨e, rfl, h1⟩)⟩

/-- Replies decide a run: one that begins with the calls of the first part goes on with the rest. -/
theorem Runs.bind_iff {p : Prog C R F α} {tr₁ : List (Event R)} {a : α}
    (h : Runs p tr₁ (.ok a)) (f : α → Prog C R F β) (tr₂ : List (Event R)) (o : Except F β) :
    Runs (p >>= f) (tr₁ ++ tr₂) o ↔ Runs (f a) tr₂ o := by
  induction p generalizing tr₁ with
  | ret b =>
    obtain ⟨rfl, hb⟩ := h
    cases hb
    exact Iff.rfl
  | stop e => cases h.2
  | call c k ih =>
    obtain ⟨r, tr', rfl, h⟩ := h
    constructor
    · rintro ⟨r', tr'', heq, hr⟩
      cases heq
      exact (ih r h).mp hr
    · intro hr
      exact ⟨r, tr' ++ tr₂, rfl, (ih r h).mpr hr⟩

/-- Where every call has a reply, every program has a run. -/
theorem exists_runs (hreply : ∀ c, Nonempty (R c)) (p : Prog C R F α) : ∃ tr o, Runs p tr o := by
  induction p with
  | ret a => exact ⟨[], .ok a, rfl, rfl⟩
  | stop e => exact ⟨[], .error e, rfl, rfl⟩
  | call c k ih =>
    obtain ⟨r⟩ := hreply c
    obtain ⟨tr, o, h⟩ := ih r
    exact ⟨⟨c, r⟩ :: tr, o, r, tr, rfl, h⟩

/-! ## Rules for all runs -/

/-- Every run of `p` ends with a trace and an outcome that satisfy `Q`. -/
def Meets (p : Prog C R F α) (Q : List (Event R) → Except F α → Prop) : Prop :=
  ∀ tr o, Runs p tr o → Q tr o

theorem Meets.weaken {p : Prog C R F α} {P Q : List (Event R) → Except F α → Prop}
    (h : Meets p P) (hPQ : ∀ tr o, P tr o → Q tr o) : Meets p Q :=
  fun tr o hr => hPQ tr o (h tr o hr)

theorem meets_pure {a : α} {Q : List (Event R) → Except F α → Prop} (h : Q [] (.ok a)) :
    Meets (pure a) Q := by
  rintro tr o ⟨rfl, rfl⟩
  exact h

theorem meets_stop {e : F} {Q : List (Event R) → Except F α → Prop} (h : Q [] (.error e)) :
    Meets (.stop e) Q := by
  rintro tr o ⟨rfl, rfl⟩
  exact h

theorem meets_call {c : C} {k : R c → Prog C R F α} {Q : List (Event R) → Except F α → Prop}
    (h : ∀ r, Meets (k r) fun tr o => Q (⟨c, r⟩ :: tr) o) : Meets (.call c k) Q := by
  rintro tr o ⟨r, tr', rfl, hr⟩
  exact h r tr' o hr

theorem meets_bind {p : Prog C R F α} {f : α → Prog C R F β}
    {P : List (Event R) → Except F α → Prop} {Q : List (Event R) → Except F β → Prop}
    (hp : Meets p P)
    (hok : ∀ tr₁ a, P tr₁ (.ok a) → Meets (f a) fun tr₂ o => Q (tr₁ ++ tr₂) o)
    (herr : ∀ tr e, P tr (.error e) → Q tr (.error e)) : Meets (p >>= f) Q := by
  intro tr o hr
  rcases (runs_bind p f tr o).mp hr with ⟨tr₁, tr₂, a, rfl, h1, h2⟩ | ⟨e, rfl, h1⟩
  · exact hok tr₁ a (hp _ _ h1) tr₂ o h2
  · exact herr tr e (hp _ _ h1)

/-- Every result of `p` satisfies `T`, and every fault satisfies `E`. -/
def Yields (p : Prog C R F α) (T : α → Prop) (E : F → Prop) : Prop :=
  Meets p fun _ o =>
    match o with
    | .ok a => T a
    | .error e => E e

def Calls (p : Prog C R F α) (S : C → Prop) : Prop := Meets p fun tr _ => ∀ ev ∈ tr, S ev.1

section Rules
variable {p : Prog C R F α} {f : α → Prog C R F β} {S : C → Prop} {E : F → Prop} {T : α → Prop}

@[simp] theorem yields_pure (a : α) : Yields (pure a : Prog C R F α) T E ↔ T a := by
  constructor
  · intro h
    exact h [] (.ok a) ⟨rfl, rfl⟩
  · intro h
    exact meets_pure h

@[simp] theorem yields_stop (e : F) : Yields (.stop e : Prog C R F α) T E ↔ E e := by
  constructor
  · intro h
    exact h [] (.error e) ⟨rfl, rfl⟩
  · intro h
    exact meets_stop h

theorem yields_perform {c : C} {T : R c → Prop} (h : ∀ r, T r) :
    Yields (perform c : Prog C R F (R c)) T E :=
  meets_call fun r => meets_pure (h r)

theorem Yields.bind {U : β → Prop} (hp : Yields p T E) (hf : ∀ a, T a → Yields (f a) U E) :
    Yields (p >>= f) U E :=
  meets_bind hp (fun _ a h => hf a h) fun _ _ h => h

theorem yields_perform_bind {U : β → Prop} {c : C} {f : R c → Prog C R F β}
    (hf : ∀ r, Yields (f r) U E) : Yields (perform c >>= f) U E :=
  (yields_perform (T := fun _ => True) fun _ => trivial).bind fun r _ => hf r

theorem Yields.weaken {T' : α → Prop} {E' : F → Prop} (hp : Yields p T E)
    (hT : ∀ a, T a → T' a) (hE : ∀ e, E e → E' e) : Yields p T' E' := by
  refine Meets.weaken hp fun _ o h => ?_
  cases o with
  | ok a => exact hT a h
  | error e => exact hE e h

@[simp] theorem calls_pure (a : α) : Calls (pure a : Prog C R F α) S :=
  meets_pure fun _ h => absurd h List.not_mem_nil

@[simp] theorem calls_stop (e : F) : Calls (.stop e : Prog C R F α) S :=
  meets_stop fun _ h => absurd h List.not_mem_nil

theorem calls_perform {c : C} (h : S c) : Calls (perform c : Prog C R F (R c)) S := by
  apply meets_call
  intro r
  apply meets_pure
  intro ev hev
  obtain rfl := List.mem_singleton.mp hev
  exact h

theorem Calls.bind (hp : Calls p S) (hf : ∀ a, Calls (f a) S) : Calls (p >>= f) S := by
  refine meets_bind hp (fun tr₁ a h₁ => (hf a).weaken fun tr₂ _ h₂ => ?_) fun _ _ h => h
  intro ev hev
  rcases List.mem_append.mp hev with hev | hev
  · exact h₁ ev hev
  · exact h₂ ev hev

theorem Calls.weaken {S' : C → Prop} (hp : Calls p S) (h : ∀ c, S c → S' c) : Calls p S' :=
  Meets.weaken hp fun _ _ hev ev hmem => h _ (hev ev hmem)

end Rules

/-! ## Sessions -/

section Sessions
variable {σ K : Type} (starts : σ → Prop) (turn : K → σ → Prog C R F σ)
  (allowed : σ → K → List (Event R) → Prop)

/-- The states a session comes to: it begins in a state of `starts`, and goes on by turns that end
well. `allowed` restricts the turns, by the state before, the input and the calls. -/
inductive Reached : σ → Prop
  | start (s : σ) (h : starts s) : Reached s
  | turn (s s' : σ) (k : K) (tr : List (Event R)) (h : Reached s) (ha : allowed s k tr)
      (hr : Runs (turn k s) tr (.ok s')) : Reached s'

variable {starts turn allowed}

theorem Reached.invariant {I : σ → Prop} (hstart : ∀ s, starts s → I s)
    (hturn : ∀ s s' k tr, I s → allowed s k tr → Runs (turn k s) tr (.ok s') → I s') {s : σ}
    (h : Reached starts turn allowed s) : I s := by
  induction h with
  | start s h => exact hstart s h
  | turn s s' k tr _ ha hr ih => exact hturn s s' k tr ih ha hr

end Sessions

/-! ## A component with a state -/

/-- Run against a component that answers from its state. -/
def eval {S : Type} (serve : (c : C) → S → R c × S) : Prog C R F α → S → Except F α × S
  | .ret a, s => (.ok a, s)
  | .stop e, s => (.error e, s)
  | .call c k, s => eval serve (k (serve c s).1) (serve c s).2

section Eval
variable {S : Type} (serve : (c : C) → S → R c × S)

@[simp] theorem eval_pure (a : α) (s : S) :
    eval serve (pure a : Prog C R F α) s = (.ok a, s) := rfl

@[simp] theorem eval_stop (e : F) (s : S) :
    eval serve (.stop e : Prog C R F α) s = (.error e, s) := rfl

@[simp] theorem eval_perform_bind (c : C) (f : R c → Prog C R F α) (s : S) :
    eval serve (perform c >>= f) s = eval serve (f (serve c s).1) (serve c s).2 := rfl

theorem eval_bind (p : Prog C R F α) (f : α → Prog C R F β) (s : S) :
    eval serve (p >>= f) s =
      match eval serve p s with
      | (.ok a, s') => eval serve (f a) s'
      | (.error e, s') => (.error e, s') := by
  induction p generalizing s with
  | ret a => rfl
  | stop e => rfl
  | call c k ih => exact ih _ _

theorem eval_bind_ok {p : Prog C R F α} {s s' : S} {a : α} (f : α → Prog C R F β)
    (h : eval serve p s = (.ok a, s')) : eval serve (p >>= f) s = eval serve (f a) s' := by
  rw [eval_bind, h]

theorem eval_bind_error {p : Prog C R F α} {s s' : S} {e : F} (f : α → Prog C R F β)
    (h : eval serve p s = (.error e, s')) : eval serve (p >>= f) s = (.error e, s') := by
  rw [eval_bind, h]

def trace : Prog C R F α → S → List (Event R)
  | .ret _, _ => []
  | .stop _, _ => []
  | .call c k, s => ⟨c, (serve c s).1⟩ :: trace (k (serve c s).1) (serve c s).2

@[simp] theorem trace_pure (a : α) (s : S) : trace serve (pure a : Prog C R F α) s = [] := rfl

@[simp] theorem trace_stop (e : F) (s : S) : trace serve (.stop e : Prog C R F α) s = [] := rfl

@[simp] theorem trace_perform_bind (c : C) (f : R c → Prog C R F α) (s : S) :
    trace serve (perform c >>= f) s =
      ⟨c, (serve c s).1⟩ :: trace serve (f (serve c s).1) (serve c s).2 := rfl

theorem runs_trace (p : Prog C R F α) (s : S) : Runs p (trace serve p s) (eval serve p s).1 := by
  induction p generalizing s with
  | ret a => exact ⟨rfl, rfl⟩
  | stop e => exact ⟨rfl, rfl⟩
  | call c k ih => exact ⟨(serve c s).1, trace serve (k _) _, rfl, ih _ _⟩

theorem runs_eval (p : Prog C R F α) (s : S) : ∃ tr, Runs p tr (eval serve p s).1 :=
  ⟨trace serve p s, runs_trace serve p s⟩

end Eval

end Plctagt.Effects
