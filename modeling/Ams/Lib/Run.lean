/-
Runs of a transition system given by a partial step function.

A system is a function `step : σ → ℓ → Option σ`: the label says which step is
taken, with every choice a scheduler could make spelled out in it, and `none`
says the step is not enabled. All nondeterminism therefore sits in the labels,
and a statement quantified over every label list is a statement about every
schedule.

Four rules are all the systems of this development use. `run_invariant` is the
induction "kept by a step, so kept by a run"; `run_relates` is the same for a
relation between the first and the last state of a run, which is how a fact
about *later* states is stated; `AllSteps` restricts a run to steps that meet a
condition on the state before them, for properties that hold only on such runs;
and `run_history` is for what depends on all the states a run went through.
-/
import Mathlib.Tactic

set_option autoImplicit false

namespace Ams.Lib

section Run

variable {σ ℓ : Type*} {step : σ → ℓ → Option σ}

/-- Take the steps of a list in order; `none` as soon as one is not enabled. -/
def run (step : σ → ℓ → Option σ) : σ → List ℓ → Option σ
  | s, [] => some s
  | s, l :: ls => (step s l).bind fun t => run step t ls

@[simp] theorem run_nil (s : σ) : run step s [] = some s := rfl

theorem run_cons (s : σ) (l : ℓ) (ls : List ℓ) :
    run step s (l :: ls) = (step s l).bind fun t => run step t ls := rfl

/-- The first step of a run, taken apart. -/
theorem run_cons_eq_some {s u : σ} {l : ℓ} {ls : List ℓ} :
    run step s (l :: ls) = some u ↔ ∃ t, step s l = some t ∧ run step t ls = some u := by
  rw [run_cons, Option.bind_eq_some_iff]

theorem run_append (s : σ) (ls ms : List ℓ) :
    run step s (ls ++ ms) = (run step s ls).bind fun t => run step t ms := by
  induction ls generalizing s with
  | nil => rfl
  | cons l ls ih =>
    rw [List.cons_append, run_cons, run_cons, Option.bind_assoc]
    congr 1
    funext t
    exact ih t

/-- A run through `ls ++ ms` passes through the state reached by `ls`. -/
theorem run_append_eq_some {s u : σ} {ls ms : List ℓ} :
    run step s (ls ++ ms) = some u ↔ ∃ t, run step s ls = some t ∧ run step t ms = some u := by
  rw [run_append, Option.bind_eq_some_iff]

/-- A step with a guard, when it is taken. -/
theorem guarded {c : Prop} [Decidable c] {s t : σ} (h : (if c then some s else none) = some t) :
    c ∧ t = s := by
  split_ifs at h with hc
  exact ⟨hc, (Option.some.inj h).symm⟩

/-- Every step of the run meets `P`, judged in the state the step starts from. -/
def AllSteps (step : σ → ℓ → Option σ) (P : σ → ℓ → Prop) : σ → List ℓ → Prop
  | _, [] => True
  | s, l :: ls => P s l ∧ ∀ t, step s l = some t → AllSteps step P t ls

theorem allSteps_true (s : σ) (ls : List ℓ) : AllSteps step (fun _ _ => True) s ls := by
  induction ls generalizing s with
  | nil => trivial
  | cons l ls ih => exact ⟨trivial, fun t _ => ih t⟩

/-- A condition on the labels alone. -/
theorem allSteps_of_mem {P : σ → ℓ → Prop} {ls : List ℓ} (h : ∀ l ∈ ls, ∀ s, P s l) (s : σ) :
    AllSteps step P s ls := by
  induction ls generalizing s with
  | nil => trivial
  | cons l ls ih =>
    exact ⟨h l (.head _) s, fun t _ => ih (fun k hk => h k (.tail _ hk)) t⟩

theorem AllSteps.and {P Q : σ → ℓ → Prop} {s : σ} {ls : List ℓ} (hp : AllSteps step P s ls)
    (hq : AllSteps step Q s ls) : AllSteps step (fun s l => P s l ∧ Q s l) s ls := by
  induction ls generalizing s with
  | nil => trivial
  | cons l ls ih => exact ⟨⟨hp.1, hq.1⟩, fun t ht => ih (hp.2 t ht) (hq.2 t ht)⟩

/-- On a given run the condition can be checked. -/
instance decidableAllSteps {P : σ → ℓ → Prop} [∀ s l, Decidable (P s l)] :
    ∀ (s : σ) (ls : List ℓ), Decidable (AllSteps step P s ls)
  | _, [] => isTrue trivial
  | s, l :: ls =>
    match hstep : step s l with
    | none => decidable_of_iff (P s l) (by simp [AllSteps, hstep])
    | some t =>
      have : Decidable (AllSteps step P t ls) := decidableAllSteps t ls
      decidable_of_iff (P s l ∧ AllSteps step P t ls) (by simp [AllSteps, hstep])

/-- The invariant rule for runs whose steps all meet a condition. -/
theorem run_invariant_of_allSteps (P : σ → ℓ → Prop) (I : σ → Prop)
    (hstep : ∀ s l t, I s → P s l → step s l = some t → I t) :
    ∀ {ls : List ℓ} {s u : σ}, I s → AllSteps step P s ls → run step s ls = some u → I u := by
  intro ls
  induction ls with
  | nil =>
    intro s u hs _ hrun
    rw [run_nil, Option.some.injEq] at hrun
    rwa [← hrun]
  | cons l ls ih =>
    intro s u hs hall hrun
    obtain ⟨t, hst, htu⟩ := run_cons_eq_some.mp hrun
    exact ih (hstep s l t hs hall.1 hst) (hall.2 t hst) htu

/-- **The invariant rule.** What every step keeps, every run keeps. -/
theorem run_invariant (I : σ → Prop)
    (hstep : ∀ s l t, I s → step s l = some t → I t) :
    ∀ {ls : List ℓ} {s u : σ}, I s → run step s ls = some u → I u := by
  intro ls s u hs hrun
  exact run_invariant_of_allSteps (fun _ _ => True) I (fun s l t hI _ => hstep s l t hI) hs
    (allSteps_true s ls) hrun

/-- **The relation rule.** A reflexive and transitive relation that every step
from a state of the invariant respects relates the two ends of every run. -/
theorem run_relates (I : σ → Prop) (R : σ → σ → Prop)
    (hrefl : ∀ s, R s s) (htrans : ∀ s t u, R s t → R t u → R s u)
    (hinv : ∀ s l t, I s → step s l = some t → I t)
    (hstep : ∀ s l t, I s → step s l = some t → R s t) :
    ∀ {ls : List ℓ} {s u : σ}, I s → run step s ls = some u → R s u := by
  intro ls s u hs hrun
  refine (run_invariant (fun t => I t ∧ R s t) (fun t l v ht hst => ?_) ⟨hs, hrefl s⟩ hrun).2
  exact ⟨hinv t l v ht.1 hst, htrans s t v ht.2 (hstep t l v ht.1 hst)⟩

/-- The states a run passes through after its first. -/
def visited (step : σ → ℓ → Option σ) : σ → List ℓ → List σ
  | _, [] => []
  | s, l :: ls =>
    match step s l with
    | none => []
    | some t => t :: visited step t ls

/-- The invariant rule for properties of the states passed through so far. -/
theorem run_history (P : σ → ℓ → Prop) (J : List σ → σ → Prop)
    (hstep : ∀ hs s l t, J hs s → P s l → step s l = some t → J (hs ++ [t]) t) :
    ∀ {ls : List ℓ} {hs : List σ} {s u : σ}, J hs s → AllSteps step P s ls →
      run step s ls = some u → J (hs ++ visited step s ls) u := by
  intro ls
  induction ls with
  | nil =>
    intro hs s u hJ _ hrun
    rw [run_nil, Option.some.injEq] at hrun
    rw [visited, List.append_nil, ← hrun]
    exact hJ
  | cons l ls ih =>
    intro hs s u hJ hall hrun
    obtain ⟨t, hst, htu⟩ := run_cons_eq_some.mp hrun
    have hrest := ih (hstep hs s l t hJ hall.1 hst) (hall.2 t hst) htu
    rw [List.append_assoc, List.singleton_append] at hrest
    simp only [visited, hst]
    exact hrest

/-! ## Runs on given labels -/

section Given

variable {τ β : Type*} {o : Option σ} {b : β}

/-- A run whose last state is known by what is computed of it. -/
theorem exists_of_map_eq {P : σ → Prop} (f : σ → β) (h : o.map f = some b)
    (hP : ∀ s, o = some s → f s = b → P s) : ∃ s, o = some s ∧ P s := by
  obtain ⟨s, hs, hval⟩ := Option.map_eq_some_iff.mp h
  exact ⟨s, hs, hP s hs hval⟩

/-- The same with one more step. -/
theorem exists_of_bind_map_eq {g : σ → Option τ} {P : σ → τ → Prop} (f : σ → τ → β)
    (h : (o.bind fun s => (g s).map (f s)) = some b)
    (hP : ∀ s t, o = some s → g s = some t → f s t = b → P s t) :
    ∃ s t, o = some s ∧ g s = some t ∧ P s t := by
  obtain ⟨s, hs, hrest⟩ := Option.bind_eq_some_iff.mp h
  obtain ⟨t, ht, hval⟩ := Option.map_eq_some_iff.mp hrest
  exact ⟨s, t, hs, ht, hP s t hs ht hval⟩

end Given

end Run

end Ams.Lib
