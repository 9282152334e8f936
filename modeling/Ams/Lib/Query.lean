/-
Programs that read an environment they do not own.

A latched piece of code works on data nobody else can touch, but between two of
its instructions other threads move on, so what it reads outside the latch may
be newer at each read. `Query` is such a program with the reads left open: a tree
that ends in a result or asks a question and goes on with the answer. One tree
serves two readings. `Query.eval` answers every question from one state, which is
the program run with nothing in between; a scheduler that answers one question
per step, from whatever the state is by then, gives every interleaving.

`Query.Ensures` is the matching program logic. The environment may move along a
relation `rely` before each read and before the result is used, and the program
ensures `Q` when every such execution ends in a result that satisfies `Q` in the
state where it is used. It is stable under `rely` by construction, which is what
makes it an invariant of a system in which the program is suspended half-way.
-/
import Mathlib.Tactic

set_option autoImplicit false

namespace Ams.Lib

/-- A program over questions `ι`, the question `q` having answers in `ρ q`. -/
inductive Query (ι : Type) (ρ : ι → Type) (α : Type) where
  | ret (a : α)
  | ask (q : ι) (k : ρ q → Query ι ρ α)

namespace Query

variable {ι : Type} {ρ : ι → Type} {α β σ : Type}

/-- Run `f` on the result. -/
def bind : Query ι ρ α → (α → Query ι ρ β) → Query ι ρ β
  | ret a, f => f a
  | ask q k, f => ask q fun r => bind (k r) f

/-- The result when every question is answered by `answer`. -/
def eval (answer : ∀ q, ρ q) : Query ι ρ α → α
  | ret a => a
  | ask q k => eval answer (k (answer q))

@[simp] theorem eval_ask (answer : ∀ q, ρ q) (q : ι) (k : ρ q → Query ι ρ α) :
    (ask q k).eval answer = (k (answer q)).eval answer := rfl

/-- Every execution from `s`, with the environment moving along `rely`, ends in a
result that satisfies `Q`. -/
def Ensures (rely : σ → σ → Prop) (answer : σ → ∀ q, ρ q) (Q : σ → α → Prop) :
    Query ι ρ α → σ → Prop
  | ret a, s => ∀ t, rely s t → Q t a
  | ask q k, s => ∀ t, rely s t → Ensures rely answer Q (k (answer t q)) t

section Rules

variable {rely : σ → σ → Prop} {answer : σ → ∀ q, ρ q} {Q : σ → α → Prop}

variable {g : Query ι ρ α}

/-- The environment may move while the program is suspended. -/
theorem Ensures.stable (htrans : ∀ r s t, rely r s → rely s t → rely r t) {s t : σ}
    (h : Ensures rely answer Q g s) (hst : rely s t) : Ensures rely answer Q g t := by
  cases g with
  | ret a =>
    intro u htu
    exact h u (htrans s t u hst htu)
  | ask q k =>
    intro u htu
    exact h u (htrans s t u hst htu)

/-- The program asks its question now. -/
theorem Ensures.asked (hrefl : ∀ s, rely s s) {q : ι} {k : ρ q → Query ι ρ α} {s : σ}
    (h : Ensures rely answer Q (ask q k) s) : Ensures rely answer Q (k (answer s q)) s :=
  h s (hrefl s)

/-- The program has ended and its result is used now. -/
theorem Ensures.returned (hrefl : ∀ s, rely s s) {a : α} {s : σ}
    (h : Ensures rely answer Q (ret a) s) : Q s a :=
  h s (hrefl s)

/-- The rule of consequence. The result is used in a state later than the one the
program starts in, so that much may be assumed. -/
theorem Ensures.conseq {P : σ → α → Prop} (htrans : ∀ r s t, rely r s → rely s t → rely r t)
    {s : σ} (h : Ensures rely answer Q g s) (hQP : ∀ t a, rely s t → Q t a → P t a) :
    Ensures rely answer P g s := by
  induction g generalizing s with
  | ret a =>
    intro t hst
    exact hQP t a hst (h t hst)
  | ask q k ih =>
    intro t hst
    apply ih (answer t q) (h t hst)
    intro u a htu hQ
    exact hQP u a (htrans s t u hst htu) hQ

/-- The rule of sequencing. -/
theorem Ensures.bind {P : σ → β → Prop} (hrefl : ∀ s, rely s s)
    (htrans : ∀ r s t, rely r s → rely s t → rely r t) {f : α → Query ι ρ β} {s : σ}
    (hg : Ensures rely answer Q g s) (hf : ∀ t a, rely s t → Q t a → Ensures rely answer P (f a) t) :
    Ensures rely answer P (g.bind f) s := by
  induction g generalizing s with
  | ret a => exact hf s a (hrefl s) (hg.returned hrefl)
  | ask q k ih =>
    intro t hst
    apply ih (answer t q) (hg t hst)
    intro u a htu hQ
    exact hf u a (htrans s t u hst htu) hQ

/-- A program that ensures `Q` against every environment does so when it runs
undisturbed. -/
theorem Ensures.eval (hrefl : ∀ s, rely s s) {s : σ} (h : Ensures rely answer Q g s) :
    Q s (g.eval (answer s)) := by
  induction g with
  | ret a => exact h.returned hrefl
  | ask q k ih => exact ih (answer s q) (h.asked hrefl)

end Rules

end Query

end Ams.Lib
