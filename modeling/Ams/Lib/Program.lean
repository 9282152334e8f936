/-
Programs that read an environment they do not own and may fail.

A `Program` is a `Query` whose result is a value or a failure, so that do-notation covers
both: a question suspends the program, a failure ends it. `Yields` is `Query.Ensures` for
such programs, and says that every execution ends in a value. Failing is therefore excluded
by it, and so is running out of a bound on a loop when the program reports that as a failure.

`Asks P` says that no execution asks a question outside `P`. Two environments that agree on
`P` then give the same result, which is how a program is shown not to depend on data it
never reads.
-/
import Ams.Lib.Query

set_option autoImplicit false

namespace Ams.Lib

variable {ι : Type} {ρ : ι → Type} {ε α β σ : Type}

instance : Monad (Query ι ρ) where
  pure := Query.ret
  bind := Query.bind

/-- A program over questions `ι` that fails in `ε`. -/
abbrev Program (ε ι : Type) (ρ : ι → Type) (α : Type) := ExceptT ε (Query ι ρ) α

namespace Program

/-- Ask a question. -/
def ask (q : ι) : Program ε ι ρ (ρ q) := ExceptT.mk (.ask q fun r => .ret (.ok r))

/-- A computation that asks nothing. -/
def ofExcept (x : Except ε α) : Program ε ι ρ α := ExceptT.mk (.ret x)

/-- The result when every question is answered by `answer`. -/
def eval (answer : ∀ q, ρ q) (p : Program ε ι ρ α) : Except ε α := Query.eval answer p.run

/-! ## Ending in a value -/

/-- Every execution from `s`, with the environment moving along `rely`, ends in a value that
satisfies `Q`. -/
def Yields (rely : σ → σ → Prop) (answer : σ → ∀ q, ρ q) (Q : σ → α → Prop)
    (p : Program ε ι ρ α) (s : σ) : Prop :=
  Query.Ensures rely answer (fun t r => ∃ a, r = .ok a ∧ Q t a) p.run s

section Yields

variable {rely : σ → σ → Prop} {answer : σ → ∀ q, ρ q} {Q : σ → α → Prop}

theorem yields_pure {a : α} {s : σ} (h : ∀ t, rely s t → Q t a) :
    Yields rely answer Q (pure a : Program ε ι ρ α) s := fun t hst => ⟨a, rfl, h t hst⟩

theorem yields_ofExcept {x : Except ε α} {a : α} {s : σ} (hx : x = .ok a)
    (h : ∀ t, rely s t → Q t a) : Yields rely answer Q (ofExcept x : Program ε ι ρ α) s :=
  fun t hst => ⟨a, hx, h t hst⟩

theorem yields_ofExcept_bind {x : Except ε β} {b : β} {f : β → Program ε ι ρ α} {s : σ}
    (hx : x = .ok b) (h : Yields rely answer Q (f b) s) :
    Yields rely answer Q (ofExcept x >>= f) s := by
  subst hx
  exact h

theorem yields_ask_bind {q : ι} {f : ρ q → Program ε ι ρ α} {s : σ}
    (h : ∀ t, rely s t → Yields rely answer Q (f (answer t q)) t) :
    Yields rely answer Q (ask q >>= f) s := h

variable {p : Program ε ι ρ α}

theorem Yields.bind {P : σ → β → Prop} (hrefl : ∀ s, rely s s)
    (htrans : ∀ r s t, rely r s → rely s t → rely r t) {f : α → Program ε ι ρ β} {s : σ}
    (hp : Yields rely answer Q p s) (hf : ∀ t a, rely s t → Q t a → Yields rely answer P (f a) t) :
    Yields rely answer P (p >>= f) s := by
  change Query.Ensures rely answer _ (Query.bind p (ExceptT.bindCont f)) s
  refine Query.Ensures.bind hrefl htrans hp ?_
  rintro t _ hst ⟨a, rfl, hQ⟩
  exact hf t a hst hQ

theorem Yields.conseq {P : σ → α → Prop} (htrans : ∀ r s t, rely r s → rely s t → rely r t) {s : σ}
    (hp : Yields rely answer Q p s) (hQP : ∀ t a, rely s t → Q t a → P t a) :
    Yields rely answer P p s := by
  refine Query.Ensures.conseq htrans hp ?_
  rintro t _ hst ⟨a, rfl, hQ⟩
  exact ⟨a, rfl, hQP t a hst hQ⟩

/-- A program that yields against every environment does so when it runs undisturbed. -/
theorem Yields.eval (hrefl : ∀ s, rely s s) {s : σ} (hp : Yields rely answer Q p s) :
    ∃ a, Program.eval (answer s) p = .ok a ∧ Q s a :=
  Query.Ensures.eval hrefl hp

end Yields

end Program

/-! ## The questions a program asks -/

/-- Every question of the tree satisfies `P`. -/
def Query.Asks (P : ι → Prop) : Query ι ρ α → Prop
  | .ret _ => True
  | .ask q k => P q ∧ ∀ r, Query.Asks P (k r)

theorem Query.Asks.bind {P : ι → Prop} {g : Query ι ρ α} {f : α → Query ι ρ β}
    (hg : Query.Asks P g) (hf : ∀ a, Query.Asks P (f a)) : Query.Asks P (g.bind f) := by
  induction g with
  | ret a => exact hf a
  | ask q k ih => exact ⟨hg.1, fun r => ih r (hg.2 r)⟩

theorem Query.Asks.eval_congr {P : ι → Prop} {g : Query ι ρ α} (hg : Query.Asks P g)
    {a b : ∀ q, ρ q} (hab : ∀ q, P q → a q = b q) : g.eval a = g.eval b := by
  induction g with
  | ret r => rfl
  | ask q k ih =>
    rw [Query.eval_ask, Query.eval_ask, ← hab q hg.1]
    exact ih (a q) (hg.2 (a q))

namespace Program

variable {P : ι → Prop}

/-- No execution asks a question outside `P`. -/
def Asks (P : ι → Prop) (p : Program ε ι ρ α) : Prop := Query.Asks P p.run

theorem asks_pure (a : α) : Asks P (pure a : Program ε ι ρ α) := trivial

theorem asks_ofExcept (x : Except ε α) : Asks P (ofExcept x : Program ε ι ρ α) := trivial

theorem asks_ask {q : ι} (h : P q) : Asks P (ask q : Program ε ι ρ (ρ q)) := ⟨h, fun _ => trivial⟩

theorem Asks.bind {p : Program ε ι ρ α} {f : α → Program ε ι ρ β} (hp : Asks P p)
    (hf : ∀ a, Asks P (f a)) : Asks P (p >>= f) := by
  change Query.Asks P (Query.bind p (ExceptT.bindCont f))
  refine Query.Asks.bind hp ?_
  rintro (e | a)
  · exact trivial
  · exact hf a

/-- Environments that agree on what is asked give the same result. -/
theorem Asks.eval_congr {p : Program ε ι ρ α} (hp : Asks P p) {a b : ∀ q, ρ q}
    (hab : ∀ q, P q → a q = b q) : Program.eval a p = Program.eval b p :=
  Query.Asks.eval_congr hp hab

end Program

end Ams.Lib
