/-
Chains threaded through a set of cells by a partial successor function.

A cell may name a next one. Code that walks such links cannot rely on their being
well formed, so it counts its hops and gives up after as many as there are cells.
The functions here are those walks, with the count as fuel: forward to the first
cell that satisfies a test (`first`), forward collecting the whole trail (`trail`),
and backward along a reverse map to the head (`ascend`).

They never give up when the links climb in some order and stay within a list of
cells no longer than the fuel: `ends_of_climbing`. When the links are also
injective, a set of whole chains that start at cells without a predecessor is
closed in both directions, and two heads never share a cell.
-/
import Mathlib.Tactic
import Mathlib.Logic.Relation

set_option autoImplicit false

namespace Ams.Lib

open Relation

section Chain

variable {α : Type} {next prev : α → Option α}

/-- `b` is on the chain that starts at `a`. -/
abbrev Reach (next : α → Option α) : α → α → Prop := ReflTransGen fun a b => next a = some b

/-- The chain from `a` has at most `n` cells. -/
def Ends (next : α → Option α) : ℕ → α → Prop
  | 0, _ => False
  | n + 1, a => ∀ b, next a = some b → Ends next n b

/-- The first cell of the chain that passes the test: `none` is out of fuel, and
`some none` is the end of the chain. -/
def first (next : α → Option α) (test : α → Bool) : ℕ → α → Option (Option α)
  | 0, _ => none
  | n + 1, a =>
    if test a then some (some a)
    else
      match next a with
      | none => some none
      | some b => first next test n b

/-- The cells of the chain, in order; `none` is out of fuel. -/
def trail (next : α → Option α) : ℕ → α → Option (List α)
  | 0, _ => none
  | n + 1, a =>
    match next a with
    | none => some [a]
    | some b => (trail next n b).map (a :: ·)

/-- Back along `prev` until a cell passes the test or has no predecessor. -/
def ascend (prev : α → Option α) (test : α → Bool) : ℕ → α → Option α
  | 0, _ => none
  | n + 1, a =>
    if test a then some a
    else
      match prev a with
      | none => some a
      | some b => ascend prev test n b

/-! ## Walks end -/

variable {n : ℕ}

/-- A chain that climbs in some order and stays within `cells` is no longer than
that list. -/
theorem ends_of_climbing {β : Type} [Preorder β] {rank : α → β} {cells : List α} {a : α}
    (hcells : ∀ b, Reach next a b → b ∈ cells)
    (hrank : ∀ b c, Reach next a b → next b = some c → rank b < rank c) (hn : cells.length ≤ n) :
    Ends next n a := by
  classical
  induction n generalizing cells a with
  | zero =>
    have hmem := hcells a ReflTransGen.refl
    rw [List.eq_nil_of_length_eq_zero (Nat.le_zero.mp hn)] at hmem
    simp at hmem
  | succ n ih =>
    intro b hb
    have hstep : Reach next a b := ReflTransGen.single hb
    -- what follows `b` ranks above `a`, so the chain never comes back to it
    have habove : ∀ c, Reach next b c → rank a < rank c := by
      intro c hc
      induction hc with
      | refl => exact hrank a b ReflTransGen.refl hb
      | tail hbc hcd ih' => exact lt_trans ih' (hrank _ _ (hstep.trans hbc) hcd)
    apply @ih (cells.erase a) b
    · intro c hc
      refine (List.mem_erase_of_ne ?_).mpr (hcells c (hstep.trans hc))
      rintro rfl
      exact lt_irrefl _ (habove c hc)
    · exact fun c d hc hcd => hrank c d (hstep.trans hc) hcd
    · rw [List.length_erase_of_mem (hcells a ReflTransGen.refl)]
      omega

theorem Ends.mono {m : ℕ} {a : α} (h : Ends next n a) (hnm : n ≤ m) : Ends next m a := by
  induction n generalizing a m with
  | zero => exact absurd h id
  | succ n ih =>
    obtain ⟨k, rfl⟩ : ∃ k, m = k + 1 := ⟨m - 1, by omega⟩
    exact fun b hb => ih (h b hb) (Nat.le_of_succ_le_succ hnm)

theorem first_eq_some_some {test : α → Bool} {a c : α} (h : first next test n a = some (some c)) :
    Reach next a c ∧ test c = true := by
  induction n generalizing a with
  | zero => simp [first] at h
  | succ n ih =>
    rw [first] at h
    split_ifs at h with ha
    · rw [Option.some.injEq, Option.some.injEq] at h
      rw [← h]
      exact ⟨ReflTransGen.refl, ha⟩
    · split at h
      · cases h
      · next b hb =>
        obtain ⟨hreach, hc⟩ := ih h
        exact ⟨hreach.head hb, hc⟩

theorem Ends.first {a : α} (h : Ends next n a) (test : α → Bool) :
    ∃ r, first next test n a = some r := by
  induction n generalizing a with
  | zero => exact absurd h id
  | succ n ih =>
    rw [Lib.first]
    split_ifs
    · exact ⟨some a, rfl⟩
    · cases hb : next a with
      | none => exact ⟨none, rfl⟩
      | some b => exact ih (h b hb)

/-- The walk stops at `c` if nothing before `c` passes the test. -/
theorem Ends.first_eq {test : α → Bool} {a c : α} (hac : Reach next a c) (hc : test c = true) :
    ∀ {n : ℕ}, Ends next n a →
      (∀ b d, Reach next a b → next b = some d → Reach next d c → test b = false) →
      Lib.first next test n a = some (some c) := by
  induction hac using ReflTransGen.head_induction_on with
  | refl =>
    intro n h _
    cases n with
    | zero => exact absurd h id
    | succ n => rw [Lib.first, if_pos hc]
  | head hab hbc ih =>
    rename_i a b
    intro n h hbefore
    cases n with
    | zero => exact absurd h id
    | succ n =>
      have ha := hbefore a b ReflTransGen.refl hab hbc
      rw [Lib.first, if_neg (by rw [ha]; exact Bool.false_ne_true), hab]
      exact ih (h b hab) fun d e hd => hbefore d e (hd.head hab)

/-- A chain that ends does not come back. -/
theorem Ends.not_cyclic {a b : α} (h : Ends next n a) (hab : next a = some b) :
    ¬ Reach next b a := by
  intro hba
  induction n generalizing a b with
  | zero => exact absurd h id
  | succ n ih =>
    rcases hba.cases_head with rfl | ⟨c, hbc, hca⟩
    · exact ih (h b hab) hab ReflTransGen.refl
    · exact ih (h b hab) hbc (hca.tail hab)

/-- Nothing before the cell a walk stops at passes the test. -/
theorem Ends.first_before {test : α → Bool} {a c : α} (h : Ends next n a)
    (hc : Lib.first next test n a = some (some c)) {b d : α} (hab : Reach next a b)
    (hbd : next b = some d) (hdc : Reach next d c) : test b = false := by
  induction n generalizing a with
  | zero => exact absurd h id
  | succ n ih =>
    rw [Lib.first] at hc
    split_ifs at hc with ha
    · -- the walk stopped at once, so what is before `c` would be after it
      rw [Option.some.injEq, Option.some.injEq] at hc
      rw [← hc] at hdc
      rcases hab.cases_head with rfl | ⟨e, hae, heb⟩
      · exact absurd hdc (h.not_cyclic hbd)
      · exact absurd ((heb.tail hbd).trans hdc) (h.not_cyclic hae)
    · rcases hab.cases_head with rfl | ⟨e, hae, heb⟩
      · exact Bool.eq_false_iff.mpr ha
      · simp only [hae] at hc
        exact ih (h e hae) hc heb

theorem Ends.trail {a : α} (h : Ends next n a) :
    ∃ l, trail next n a = some l ∧ ∀ b, b ∈ l ↔ Reach next a b := by
  induction n generalizing a with
  | zero => exact absurd h id
  | succ n ih =>
    cases hb : next a with
    | none =>
      refine ⟨[a], by simp [Lib.trail, hb], fun b => ?_⟩
      rw [List.mem_singleton]
      constructor
      · rintro rfl
        exact ReflTransGen.refl
      · intro hab
        rcases hab.cases_head with rfl | ⟨c, hc, -⟩
        · rfl
        · rw [hb] at hc
          simp at hc
    | some b =>
      obtain ⟨l, hl, hmem⟩ := ih (h b hb)
      refine ⟨a :: l, by simp [Lib.trail, hb, hl], fun c => ?_⟩
      rw [List.mem_cons, hmem]
      constructor
      · rintro (rfl | hbc)
        · exact ReflTransGen.refl
        · exact hbc.head hb
      · intro hac
        rcases hac.cases_head with rfl | ⟨d, hd, hdc⟩
        · exact .inl rfl
        · rw [hb, Option.some.injEq] at hd
          rw [hd]
          exact .inr hdc

theorem trail_congr {next' : α → Option α} {a : α} (h : ∀ b, Reach next a b → next' b = next b) :
    trail next' n a = trail next n a := by
  induction n generalizing a with
  | zero => rfl
  | succ n ih =>
    rw [trail, trail, h a ReflTransGen.refl]
    cases hb : next a with
    | none => rfl
    | some b =>
      simp only
      rw [ih fun c hc => h c (hc.head hb)]

variable {l : List α}

theorem trail_succ_eq_some {a : α} : trail next (n + 1) a = some l ↔
    next a = none ∧ l = [a] ∨
      ∃ b l', next a = some b ∧ trail next n b = some l' ∧ l = a :: l' := by
  rw [trail]
  cases next a <;> simp [eq_comm]

/-- More fuel changes nothing. -/
theorem trail_mono {m : ℕ} {a : α} (h : trail next n a = some l) (hnm : n ≤ m) :
    trail next m a = some l := by
  induction n generalizing a m l with
  | zero => exact absurd h (by simp [trail])
  | succ n ih =>
    obtain ⟨k, rfl⟩ : ∃ k, m = k + 1 := ⟨m - 1, by omega⟩
    rw [trail_succ_eq_some] at h ⊢
    rcases h with hend | ⟨b, l', hb, hl', hl⟩
    · exact .inl hend
    · exact .inr ⟨b, l', hb, ih hl' (Nat.le_of_succ_le_succ hnm), hl⟩

/-- As much fuel as there are cells is enough. -/
theorem trail_length {a : α} (h : trail next n a = some l) :
    trail next l.length a = some l := by
  induction n generalizing a l with
  | zero => exact absurd h (by simp [trail])
  | succ n ih =>
    rcases trail_succ_eq_some.mp h with ⟨hb, rfl⟩ | ⟨b, l', hb, hl', rfl⟩
    · exact trail_succ_eq_some.mpr (.inl ⟨hb, rfl⟩)
    · exact trail_succ_eq_some.mpr (.inr ⟨b, l', hb, ih hl', rfl⟩)

/-- Links of cells off the chain do not matter. -/
theorem trail_of_agree {next' : α → Option α} {a : α} (h : trail next n a = some l)
    (hagree : ∀ b ∈ l, next' b = next b) :
    trail next' n a = some l := by
  induction n generalizing a l with
  | zero => exact absurd h (by simp [trail])
  | succ n ih =>
    rw [trail_succ_eq_some] at h ⊢
    rcases h with ⟨hb, rfl⟩ | ⟨b, l', hb, hl', rfl⟩
    · exact .inl ⟨(hagree a (.head _)).trans hb, rfl⟩
    · exact .inr ⟨b, l', (hagree a (.head _)).trans hb,
        ih hl' fun c hc => hagree c (.tail _ hc), rfl⟩

/-- A cell linked behind the last one. -/
theorem trail_link [DecidableEq α] {a q : α} (h : trail next n a = some l) (hnodup : l.Nodup)
    (hne : l ≠ []) (hq : q ∉ l) (hend : next q = none) :
    trail (Function.update next (l.getLast hne) (some q)) (n + 1) a = some (l ++ [q]) := by
  induction n generalizing a l with
  | zero => exact absurd h (by simp [trail])
  | succ n ih =>
    rcases trail_succ_eq_some.mp h with ⟨hb, rfl⟩ | ⟨b, l', hb, hl', rfl⟩
    · have hqa : q ≠ a := fun heq => hq (by simp [heq])
      simp [trail, Function.update_of_ne hqa, hend]
    · have hne' : l' ≠ [] := by
        rintro rfl
        cases n with
        | zero => exact absurd hl' (by simp [trail])
        | succ n => exact absurd hl' (by simp [trail_succ_eq_some])
      have hlast : (a :: l').getLast hne = l'.getLast hne' := List.getLast_cons hne'
      have ha : a ≠ l'.getLast hne' := by
        rintro heq
        have hmem := List.getLast_mem hne'
        rw [← heq] at hmem
        exact (List.nodup_cons.mp hnodup).1 hmem
      have hrec := ih hl' (List.nodup_cons.mp hnodup).2 hne'
        (fun hm => hq (.tail _ hm))
      rw [hlast]
      exact trail_succ_eq_some.mpr
        (.inr ⟨b, _, by rw [Function.update_of_ne ha, hb], hrec, rfl⟩)

/-- The head found by going back is the start of a chain through `a`. -/
theorem Ends.ascend {a : α} (h : Ends prev n a) (test : α → Bool)
    (hprev : ∀ b c, prev b = some c → next c = some b) :
    ∃ r, ascend prev test n a = some r ∧ Reach next r a ∧ (test r = true ∨ prev r = none) := by
  induction n generalizing a with
  | zero => exact absurd h id
  | succ n ih =>
    rw [Lib.ascend]
    split_ifs with ha
    · exact ⟨a, rfl, ReflTransGen.refl, .inl ha⟩
    · cases hb : prev a with
      | none => exact ⟨a, rfl, ReflTransGen.refl, .inr hb⟩
      | some b =>
        obtain ⟨r, hr, hreach, hstop⟩ := ih (h b hb)
        exact ⟨r, hr, hreach.tail (hprev a b hb), hstop⟩

/-! ## Injective links -/

/-- Going back from a cell of a chain stays on the chain, up to its head. -/
theorem Reach.pred (hinj : ∀ a b c, next a = some c → next b = some c → a = b) {r x y : α}
    (hhead : ∀ z, next z ≠ some r) (hxy : next x = some y) (hry : Reach next r y) :
    Reach next r x := by
  rcases hry.cases_tail with rfl | ⟨z, hrz, hzy⟩
  · exact absurd hxy (hhead x)
  · rw [hinj x z y hxy hzy]
    exact hrz

/-- Two heads of chains that meet are the same. -/
theorem Reach.head_unique (hinj : ∀ a b c, next a = some c → next b = some c → a = b) {r t c : α}
    (hr : ∀ z, next z ≠ some r) (ht : ∀ z, next z ≠ some t) (hrc : Reach next r c)
    (htc : Reach next t c) : r = t := by
  induction htc with
  | refl =>
    rcases hrc.cases_tail with rfl | ⟨z, -, hz⟩
    · rfl
    · exact absurd hz (ht z)
  | tail htb hbc ih => exact ih (hrc.pred hinj hr hbc)

end Chain

end Ams.Lib
