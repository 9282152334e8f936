/-
Computations that may fail, taken apart.

A do-block in `Except` that succeeded ran all of its steps. These rules peel the
steps off one at a time, so that a proof about a successful call names what each
step returned and never unfolds the monad. `FailsIn P` is the other side: whatever a
computation fails with satisfies `P`. It composes in the same way, so that a kind of
failure is excluded step by step.
-/
import Mathlib.Tactic

set_option autoImplicit false

namespace Ams.Lib

variable {ε α β : Type}

theorem bind_eq_ok {x : Except ε α} {f : α → Except ε β} {b : β} :
    (x >>= f) = .ok b ↔ ∃ a, x = .ok a ∧ f a = .ok b := by
  cases x with
  | error e => simp [bind, Except.bind]
  | ok a => simp [bind, Except.bind]

theorem pure_eq_ok {a b : α} : (pure a : Except ε α) = .ok b ↔ a = b := by
  simp [pure, Except.pure]

/-- A check that fails with an error, and what comes after it. -/
theorem ite_error_eq_ok {c : Prop} [Decidable c] {e : ε} {x : Except ε α} {a : α} :
    (if c then .error e else x) = .ok a ↔ ¬ c ∧ x = .ok a := by
  by_cases h : c
  · simp [h]
  · simp [h]

/-- A check that throws when it fails, and what comes after it. -/
theorem ite_throw_eq_ok {c : Prop} [Decidable c] {e : ε} {k : PUnit → Except ε β} {b : β} :
    (if c then (throw e >>= k) else k ⟨⟩) = .ok b ↔ ¬ c ∧ k ⟨⟩ = .ok b := by
  by_cases h : c
  · simp [h, bind, Except.bind, throw, throwThe, MonadExceptOf.throw]
  · simp [h]

/-- A check: the failure `e` if `c` holds. -/
def failIf (c : Prop) [Decidable c] (e : ε) : Except ε PUnit.{1} := if c then .error e else .ok ⟨⟩

@[simp] theorem failIf_eq_ok {c : Prop} [Decidable c] {e : ε} {u : PUnit} :
    failIf c e = .ok u ↔ ¬ c := by
  unfold failIf
  split_ifs with h
  · simp [h]
  · simp [h]

theorem failIf_of_not {c : Prop} [Decidable c] {e : ε} (h : ¬ c) : failIf c e = .ok ⟨⟩ :=
  failIf_eq_ok.mpr h

theorem ok_bind (a : α) (f : α → Except ε β) : ((.ok a : Except ε α) >>= f) = f a := rfl

/-- A check, and what comes after it. -/
theorem failIf_bind_eq_ok {c : Prop} [Decidable c] {e : ε} {k : PUnit → Except ε β} {b : β} :
    (failIf c e >>= k) = .ok b ↔ ¬ c ∧ k ⟨⟩ = .ok b := by
  rw [bind_eq_ok]
  constructor
  · rintro ⟨u, hc, hk⟩
    exact ⟨failIf_eq_ok.mp hc, hk⟩
  · rintro ⟨hc, hk⟩
    exact ⟨⟨⟩, failIf_eq_ok.mpr hc, hk⟩

/-- A loop of checks succeeds when every check does. -/
theorem forM_eq_ok {f : α → Except ε PUnit.{1}} {l : List α} {u : PUnit} :
    l.forM f = .ok u ↔ ∀ a ∈ l, f a = .ok ⟨⟩ := by
  induction l with
  | nil => simp [List.forM, pure, Except.pure]
  | cons a l ih =>
    rw [List.forM, bind_eq_ok]
    constructor
    · rintro ⟨v, hv, hrest⟩ b hb
      rcases List.mem_cons.mp hb with rfl | hb
      · exact hv
      · exact ih.mp hrest b hb
    · intro hall
      refine ⟨⟨⟩, hall a (.head _), ih.mpr fun b hb => ?_⟩
      exact hall b (List.mem_cons_of_mem a hb)

/-- A loop that counts up keeps an invariant that each of its rounds keeps. -/
theorem foldlM_range_eq_ok {f : β → ℕ → Except ε β} {n : ℕ} {s t : β} (I : ℕ → β → Prop)
    (h0 : I 0 s) (hstep : ∀ i s t, i < n → I i s → f s i = .ok t → I (i + 1) t)
    (h : (List.range n).foldlM f s = .ok t) : I n t := by
  induction n generalizing t with
  | zero => exact pure_eq_ok.mp h ▸ h0
  | succ n ih =>
    rw [List.range_succ, List.foldlM_append, bind_eq_ok] at h
    obtain ⟨u, hu, hlast⟩ := h
    simp only [List.foldlM_cons, List.foldlM_nil, bind_pure] at hlast
    have hn := ih (fun i s t hi => hstep i s t (Nat.lt_succ_of_lt hi)) hu
    exact hstep n u t (Nat.lt_succ_self n) hn hlast

/-- The computation has failed with `P`, or returned with `Q`. -/
def EndsWith (r : Except ε α) (P : ε → Prop) (Q : α → Prop) : Prop :=
  match r with
  | .error e => P e
  | .ok a => Q a

/-! ## Failures -/

/-- Whatever the computation fails with satisfies `P`. -/
def FailsIn (P : ε → Prop) (x : Except ε α) : Prop := ∀ e, x = .error e → P e

section FailsIn

variable {P : ε → Prop}

theorem FailsIn.ok (a : α) : FailsIn P (.ok a : Except ε α) := fun _ h => nomatch h

theorem FailsIn.error {e : ε} (h : P e) : FailsIn P (.error e : Except ε α) := fun _ heq =>
  Except.error.inj heq ▸ h

theorem FailsIn.of_eq_ok {x : Except ε α} {a : α} (h : x = .ok a) : FailsIn P x := h ▸ .ok a

theorem FailsIn.failIf {c : Prop} [Decidable c] {e : ε} (h : P e) : FailsIn P (failIf c e) := by
  unfold Lib.failIf
  split_ifs
  · exact .error h
  · exact .ok _

theorem FailsIn.bind {x : Except ε α} {f : α → Except ε β} (hx : FailsIn P x)
    (hf : ∀ a, x = .ok a → FailsIn P (f a)) : FailsIn P (x >>= f) := by
  cases x with
  | error e => exact .error (hx e rfl)
  | ok a => exact hf a rfl

theorem FailsIn.forM {f : α → Except ε PUnit} {l : List α} (h : ∀ a ∈ l, FailsIn P (f a)) :
    FailsIn P (l.forM f) := by
  induction l with
  | nil => exact .ok _
  | cons a l ih =>
    rw [List.forM]
    apply FailsIn.bind (h a (.head _))
    intro _ _
    exact ih fun b hb => h b (List.mem_cons_of_mem a hb)

theorem FailsIn.foldlM {f : β → α → Except ε β} {l : List α}
    (h : ∀ b, ∀ a ∈ l, FailsIn P (f b a)) {b : β} : FailsIn P (l.foldlM f b) := by
  induction l generalizing b with
  | nil => exact .ok b
  | cons a l ih =>
    rw [List.foldlM_cons]
    apply FailsIn.bind (h b a (.head _))
    intro c _
    exact ih fun b' a' ha' => h b' a' (List.mem_cons_of_mem a ha')

/-- A round of a loop that counts up may use the invariant of the rounds before it. -/
theorem FailsIn.foldlM_range {f : β → ℕ → Except ε β} {n : ℕ} {s : β} (I : ℕ → β → Prop)
    (h0 : I 0 s) (hstep : ∀ i s t, i < n → I i s → f s i = .ok t → I (i + 1) t)
    (h : ∀ i s, i < n → I i s → FailsIn P (f s i)) : FailsIn P ((List.range n).foldlM f s) := by
  induction n with
  | zero => exact .ok _
  | succ n ih =>
    have hstep' : ∀ i s t, i < n → I i s → f s i = .ok t → I (i + 1) t :=
      fun i s t hi => hstep i s t (Nat.lt_succ_of_lt hi)
    rw [List.range_succ, List.foldlM_append]
    apply FailsIn.bind (ih hstep' fun i s hi => h i s (Nat.lt_succ_of_lt hi))
    intro u hu
    simp only [List.foldlM_cons, List.foldlM_nil, bind_pure]
    exact h n u (Nat.lt_succ_self n) (foldlM_range_eq_ok I h0 hstep' hu)

end FailsIn

end Ams.Lib
