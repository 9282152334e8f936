/-
Cycles of a relation.

`IsCycle E c` is a cycle as a program reports it: a list of distinct nodes, each with an
edge to the next and the last with one to the first. That a relation has a cycle at all is
`Relation.TransGen E a a` for some `a`. The two directions a search needs are
`IsCycle.transGen`, what it reports is there, and `not_transGen_self_of_closed`, what it
has left behind is on no cycle.
-/
import Mathlib.Logic.Relation
import Mathlib.Data.List.Chain
import Mathlib.Tactic

set_option autoImplicit false

namespace Ams.Lib

open Relation

variable {α : Type*} {E : α → α → Prop}

/-- A list of distinct nodes with an edge from each to the next and from the last to the
first. -/
structure IsCycle (E : α → α → Prop) (c : List α) : Prop where
  ne_nil : c ≠ []
  nodup : c.Nodup
  chain : c.IsChain E
  closing : E (c.getLast ne_nil) (c.head ne_nil)

instance [DecidableEq α] [DecidableRel E] (c : List α) : Decidable (IsCycle E c) :=
  if hne : c = [] then isFalse fun h => h.ne_nil hne
  else
    if h : c.Nodup ∧ c.IsChain E ∧ E (c.getLast hne) (c.head hne) then
      isTrue ⟨hne, h.1, h.2.1, h.2.2⟩
    else isFalse fun hc => h ⟨hc.nodup, hc.chain, hc.closing⟩

/-- Along a chain the last node is reached from the first. -/
theorem reflTransGen_of_isChain {c : List α} (hc : c.IsChain E) (hne : c ≠ []) :
    ReflTransGen E (c.head hne) (c.getLast hne) := by
  induction c with
  | nil => exact absurd rfl hne
  | cons a c ih =>
    cases c with
    | nil => exact .refl
    | cons b c =>
      obtain ⟨hab, htail⟩ := List.isChain_cons_cons.mp hc
      have hrest := ih htail (List.cons_ne_nil b c)
      rw [List.getLast_cons (List.cons_ne_nil b c)]
      exact ReflTransGen.head hab hrest

/-- A node of a reported cycle reaches itself. -/
theorem IsCycle.transGen {c : List α} (h : IsCycle E c) :
    TransGen E (c.head h.ne_nil) (c.head h.ne_nil) :=
  TransGen.tail' (reflTransGen_of_isChain h.chain h.ne_nil) h.closing

/-- From inside a set that edges do not leave, only the set is reached. -/
theorem mem_of_reflTransGen {S : α → Prop} (hclosed : ∀ a, S a → ∀ b, E a b → S b) {a b : α}
    (ha : S a) (hab : ReflTransGen E a b) : S b := by
  induction hab with
  | refl => exact ha
  | tail _ hstep ih => exact hclosed _ ih _ hstep

/-- A node outside a set that edges do not leave, all of whose edges go into the set, is on
no cycle. -/
theorem not_transGen_self_of_closed {S : α → Prop} (hclosed : ∀ a, S a → ∀ b, E a b → S b)
    {a : α} (ha : ¬ S a) (hinto : ∀ b, E a b → S b) : ¬ TransGen E a a := by
  intro hcycle
  obtain ⟨b, hab, hba⟩ := TransGen.head'_iff.mp hcycle
  exact ha (mem_of_reflTransGen hclosed (hinto b hab) hba)

end Ams.Lib
