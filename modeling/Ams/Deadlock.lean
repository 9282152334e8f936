/-
The deadlock detector's cycle search, `find_cycles` of `pg-txn/src/deadlock.rs`.

The search is a depth-first one with an explicit stack, restarted at every node that is
still white. A node is gray while it is on the stack and black once all of its edges have
been looked at; a gray successor closes a cycle. Three facts carry the result. The stack is
a path of the graph, so what is cut out of it is a cycle (`Search.Inv.cycles`). Until a
cycle is reported, no edge leaves the black nodes and none of them is on a cycle
(`Search.Inv.closed`, `Search.Inv.acyclic`): a node turns black when all of its successors
are black already. And every pass of the loop uses up one unit of `Search.remaining`, so
the loop ends.

`path` and `next_child` of the source are one stack of pairs here, the top first. The hash
maps are functions: a missing colour is white and a missing adjacency list is empty. The
loop has fuel, and `none` stands for a loop out of fuel or for the `expect` on a gray node
that is not on the path.
-/
import Ams.Types
import Ams.Lib.Cycle
import Mathlib.Data.List.Sort
import Mathlib.Algebra.BigOperators.Group.Finset.Basic
import Mathlib.Algebra.Order.BigOperators.Group.Finset

set_option autoImplicit false

namespace Ams.Deadlock

open Ams.Lib Relation
open List (map_cons mem_append mem_cons mem_map sum_cons)
open Function (update update_self update_of_ne)

/-! ## The search -/

/-- `Vec::dedup`: of equal neighbours one stays. -/
def dedup : List TxnId → List TxnId
  | a :: b :: l => if a = b then dedup (b :: l) else a :: dedup (b :: l)
  | l => l

/-- The successors of a node, sorted. -/
def adjacency (edges : List (TxnId × TxnId)) (node : TxnId) : List TxnId :=
  dedup (((edges.filter (·.1 = node)).map Prod.snd).insertionSort (· ≤ ·))

/-- The keys of the adjacency map, sorted. -/
def nodes (edges : List (TxnId × TxnId)) : List TxnId :=
  ((edges.map Prod.fst).dedup).insertionSort (· ≤ ·)

inductive Color where
  | White | Gray | Black
deriving DecidableEq, Repr

/-- The state of the search. A stack entry is a node of `path` with its cursor in
`next_child`, the top of the stack first. -/
structure Search where
  color : TxnId → Color
  stack : List (TxnId × ℕ)
  cycles : List (List TxnId)

namespace Search

def new : Search := ⟨fun _ => .White, [], []⟩

/-- `path`, from the start node to the top of the stack. -/
def path (s : Search) : List TxnId := (s.stack.map Prod.fst).reverse

variable (edges : List (TxnId × TxnId))

/-- One pass of the `while` loop. -/
def visit (s : Search) : Option Search :=
  match s.stack with
  | [] => some s
  | (node, cursor) :: rest =>
    match (adjacency edges node)[cursor]? with
    | some next =>
      let stack := (node, cursor + 1) :: rest
      match s.color next with
      | .Gray =>
        match s.path.idxOf? next with
        | some pos => some { s with stack := stack, cycles := s.cycles ++ [s.path.drop pos] }
        | none => none
      | .White => some { s with
          color := update s.color next .Gray
          stack := (next, 0) :: stack }
      | .Black => some { s with stack := stack }
    | none => some { s with color := update s.color node .Black, stack := rest }

/-- The `while` loop. -/
def loop : ℕ → Search → Option Search
  | fuel, s =>
    match s.stack, fuel with
    | [], _ => some s
    | _ :: _, 0 => none
    | _ :: _, fuel + 1 => (s.visit edges).bind (loop fuel)

/-- The body of the `for` loop over the nodes. -/
def explore (fuel : ℕ) (s : Search) (start : TxnId) : Option Search :=
  if s.color start ≠ .White then some s
  else loop edges fuel { s with
    color := update s.color start .Gray
    stack := [(start, 0)] }

end Search

def find_cycles (fuel : ℕ) (edges : List (TxnId × TxnId)) : Option (List (List TxnId)) :=
  ((nodes edges).foldlM (Search.explore edges fuel) Search.new).map Search.cycles

/-! ## Adjacency -/

/-- The directed graph of an edge list. -/
def HasEdge (edges : List (TxnId × TxnId)) (a b : TxnId) : Prop := (a, b) ∈ edges

instance (edges : List (TxnId × TxnId)) : DecidableRel (HasEdge edges) := fun a b =>
  inferInstanceAs (Decidable ((a, b) ∈ edges))

theorem mem_dedup {a : TxnId} (l : List TxnId) : a ∈ dedup l ↔ a ∈ l := by
  fun_induction dedup l with
  | case1 b l ih =>
    rw [ih]
    simp
  | case2 b c l hne ih => rw [mem_cons, ih, @mem_cons _ b]
  | case3 l hl => exact Iff.rfl

@[simp] theorem mem_adjacency {edges : List (TxnId × TxnId)} {a b : TxnId} :
    b ∈ adjacency edges a ↔ HasEdge edges a b := by
  unfold adjacency HasEdge
  rw [mem_dedup, List.mem_insertionSort, mem_map]
  constructor
  · rintro ⟨⟨x, y⟩, hmem, rfl⟩
    obtain ⟨hin, hx⟩ := List.mem_filter.mp hmem
    have heq : x = a := of_decide_eq_true hx
    rwa [heq] at hin
  · intro hin
    exact ⟨(a, b), List.mem_filter.mpr ⟨hin, decide_eq_true rfl⟩, rfl⟩

@[simp] theorem mem_nodes {edges : List (TxnId × TxnId)} {a : TxnId} :
    a ∈ nodes edges ↔ ∃ b, HasEdge edges a b := by
  unfold nodes HasEdge
  rw [List.mem_insertionSort, List.mem_dedup, mem_map]
  constructor
  · rintro ⟨⟨x, y⟩, hmem, rfl⟩
    exact ⟨y, hmem⟩
  · rintro ⟨b, hmem⟩
    exact ⟨(a, b), hmem, rfl⟩

/-! ## What one pass does -/

namespace Search

variable {edges : List (TxnId × TxnId)} {s t : Search}

/-- The four passes, for a stack with a top. -/
inductive Visits (edges : List (TxnId × TxnId)) (s : Search) (node : TxnId) (cursor : ℕ)
    (rest : List (TxnId × ℕ)) : Search → Prop
  | closes (next : TxnId) (pos : ℕ) (hnext : (adjacency edges node)[cursor]? = some next)
      (hcolor : s.color next = .Gray) (hpos : s.path.idxOf? next = some pos) :
      Visits edges s node cursor rest
        { s with stack := (node, cursor + 1) :: rest, cycles := s.cycles ++ [s.path.drop pos] }
  | pushes (next : TxnId) (hnext : (adjacency edges node)[cursor]? = some next)
      (hcolor : s.color next = .White) :
      Visits edges s node cursor rest { s with
        color := update s.color next .Gray
        stack := (next, 0) :: (node, cursor + 1) :: rest }
  | passes (next : TxnId) (hnext : (adjacency edges node)[cursor]? = some next)
      (hcolor : s.color next = .Black) :
      Visits edges s node cursor rest { s with stack := (node, cursor + 1) :: rest }
  | pops (hdone : (adjacency edges node)[cursor]? = none) :
      Visits edges s node cursor rest
        { s with color := update s.color node .Black, stack := rest }

variable {node : TxnId} {cursor : ℕ} {rest : List (TxnId × ℕ)}

theorem visits_of_visit (hstack : s.stack = (node, cursor) :: rest) (hst : s.visit edges = some t) :
    Visits edges s node cursor rest t := by
  unfold visit at hst
  rw [hstack] at hst
  simp only at hst
  split at hst
  · rename_i next hnext
    split at hst
    · rename_i hcolor
      split at hst
      · rename_i pos hpos
        exact Option.some.inj hst ▸ .closes next pos hnext hcolor hpos
      · simp at hst
    · rename_i hcolor
      exact Option.some.inj hst ▸ .pushes next hnext hcolor
    · rename_i hcolor
      exact Option.some.inj hst ▸ .passes next hnext hcolor
  · rename_i hdone
    exact Option.some.inj hst ▸ .pops hdone

/-! ## The invariant -/

/-- Of the stack, top first: the successors a cursor has passed are black, except that the
last one may be the entry above. -/
def Scanned (edges : List (TxnId × TxnId)) (color : TxnId → Color) :
    Option TxnId → List (TxnId × ℕ) → Prop
  | _, [] => True
  | above, (node, cursor) :: rest =>
    (∀ b ∈ (adjacency edges node).take cursor, color b = .Black ∨ above = some b) ∧
      Scanned edges color (some node) rest

/-- More black nodes do no harm. -/
theorem Scanned.mono {color color' : TxnId → Color} (hle : ∀ n, color n = .Black → color' n = .Black)
    {above : Option TxnId} {stack : List (TxnId × ℕ)} (h : Scanned edges color above stack) :
    Scanned edges color' above stack := by
  induction stack generalizing above with
  | nil => trivial
  | cons e rest ih =>
    refine ⟨fun b hb => ?_, ih h.2⟩
    exact (h.1 b hb).imp_left (hle b)

/-- The entry above the stack is black now. -/
theorem Scanned.popped {color : TxnId → Color} {above : TxnId} (hblack : color above = .Black)
    {stack : List (TxnId × ℕ)} (h : Scanned edges color (some above) stack) :
    Scanned edges color none stack := by
  cases stack with
  | nil => trivial
  | cons e rest =>
    refine ⟨fun b hb => .inl ?_, h.2⟩
    rcases h.1 b hb with hb | heq
    · exact hb
    · rwa [← Option.some.inj heq]

structure Inv (edges : List (TxnId × TxnId)) (s : Search) : Prop where
  gray : ∀ n, s.color n = .Gray ↔ n ∈ s.stack.map Prod.fst
  nodup : (s.stack.map Prod.fst).Nodup
  chain : (s.stack.map Prod.fst).IsChain fun b a => HasEdge edges a b
  cycles : ∀ c ∈ s.cycles, IsCycle (HasEdge edges) c
  closed : s.cycles = [] → ∀ n, s.color n = .Black → ∀ m, HasEdge edges n m → s.color m = .Black
  acyclic : s.cycles = [] → ∀ n, s.color n = .Black → ¬ TransGen (HasEdge edges) n n
  scanned : s.cycles = [] → Scanned edges s.color none s.stack

theorem inv_new : Inv edges new where
  gray n := by simp [new]
  nodup := List.nodup_nil
  chain := List.isChain_nil
  cycles c hc := absurd hc (by simp [new])
  closed _ n hn := absurd hn (by simp [new])
  acyclic _ n hn := absurd hn (by simp [new])
  scanned _ := trivial

/-- The path from a gray successor of the top back up to the top. -/
theorem isCycle_drop {p : List TxnId} {next : TxnId} {pos : ℕ} (hnodup : p.Nodup)
    (hchain : p.IsChain (HasEdge edges)) (hpos : p.idxOf? next = some pos)
    (htop : ∀ a, p.getLast? = some a → HasEdge edges a next) :
    IsCycle (HasEdge edges) (p.drop pos) := by
  obtain ⟨hlt, hat, -⟩ := List.idxOf?_eq_some_iff.mp hpos
  have hne : p.drop pos ≠ [] := by
    rw [ne_eq, List.drop_eq_nil_iff]
    omega
  refine ⟨hne, hnodup.sublist (List.drop_sublist pos p), hchain.drop pos, ?_⟩
  have hhead : (p.drop pos).head hne = next := by
    rw [List.head_drop]
    exact hat
  have hlast : p.getLast? = some ((p.drop pos).getLast hne) := by
    rw [List.getLast_drop, List.getLast?_eq_some_getLast]
  rw [hhead]
  exact htop _ hlast

theorem mem_take_succ {l : List TxnId} {i : ℕ} {a b : TxnId} (hi : l[i]? = some a)
    (hb : b ∈ l.take (i + 1)) : b ∈ l.take i ∨ b = a := by
  rw [List.take_add_one, hi] at hb
  rcases mem_append.mp hb with hb | hb
  · exact .inl hb
  · exact .inr (List.mem_singleton.mp hb)

/-- The top entry has gone past a black successor or put a new entry above itself. -/
theorem Scanned.advance {color : TxnId → Color} {next : TxnId} {above : Option TxnId}
    (h : Scanned edges color none ((node, cursor) :: rest))
    (hnext : (adjacency edges node)[cursor]? = some next)
    (hok : color next = .Black ∨ above = some next) :
    Scanned edges color above ((node, cursor + 1) :: rest) := by
  refine ⟨fun b hb => ?_, h.2⟩
  rcases mem_take_succ hnext hb with hb | rfl
  · exact .inl ((h.1 b hb).resolve_right (by simp))
  · exact hok

theorem Inv.visits (h : s.Inv edges) (hstack : s.stack = (node, cursor) :: rest)
    (hv : Visits edges s node cursor rest t) :
    Inv edges t := by
  have hgray := h.gray
  have hnodup := h.nodup
  have hchain := h.chain
  have hscanned := h.scanned
  rw [hstack] at hnodup hchain hscanned
  simp only [hstack] at hgray
  cases hv with
  | closes next pos hnext hcolor hpos =>
    have hedge : HasEdge edges node next := mem_adjacency.mp (List.mem_of_getElem? hnext)
    have hcycle : IsCycle (HasEdge edges) (s.path.drop pos) := by
      apply isCycle_drop (List.nodup_reverse.mpr h.nodup) _ hpos
      · intro a ha
        rw [hstack, map_cons, List.reverse_cons, List.getLast?_concat] at ha
        rwa [← Option.some.inj ha]
      · rw [List.isChain_reverse]
        exact h.chain
    have hne : s.cycles ++ [s.path.drop pos] ≠ [] := by simp
    exact {
      gray := hgray
      nodup := hnodup
      chain := hchain
      cycles := fun c hc => by
        rcases mem_append.mp hc with hc | hc
        · exact h.cycles c hc
        · rwa [List.mem_singleton.mp hc]
      closed := fun hnil => absurd hnil hne
      acyclic := fun hnil => absurd hnil hne
      scanned := fun hnil => absurd hnil hne }
  | pushes next hnext hcolor =>
    have hedge : HasEdge edges node next := mem_adjacency.mp (List.mem_of_getElem? hnext)
    have hfresh : next ∉ ((node, cursor) :: rest).map Prod.fst := fun hmem =>
      absurd ((hgray next).mpr hmem) (by simp [hcolor])
    have hblack : ∀ n, s.color n = .Black ↔ update s.color next .Gray n = .Black := by
      intro n
      by_cases hn : n = next
      · rw [hn, update_self, hcolor]
        simp
      · rw [update_of_ne hn]
    exact {
      gray := fun n => by
        change update s.color next .Gray n = .Gray ↔ n ∈ next :: _
        by_cases hn : n = next
        · rw [hn, update_self]
          simp
        · rw [update_of_ne hn, hgray n, mem_cons, or_iff_right hn]
          rfl
      nodup := List.nodup_cons.mpr ⟨hfresh, hnodup⟩
      chain := List.isChain_cons_cons.mpr ⟨hedge, hchain⟩
      cycles := h.cycles
      closed := fun hnil n hn m hm =>
        (hblack m).mp (h.closed hnil n ((hblack n).mpr hn) m hm)
      acyclic := fun hnil n hn => h.acyclic hnil n ((hblack n).mpr hn)
      scanned := fun hnil => by
        have hold := (hscanned hnil).mono fun n hn => (hblack n).mp hn
        refine ⟨fun b hb => absurd hb (by simp), ?_⟩
        exact hold.advance hnext (.inr rfl) }
  | passes next hnext hcolor =>
    exact {
      gray := hgray
      nodup := hnodup
      chain := hchain
      cycles := h.cycles
      closed := h.closed
      acyclic := h.acyclic
      scanned := fun hnil => (hscanned hnil).advance hnext (.inl hcolor) }
  | pops hdone =>
    obtain ⟨hout, hrest⟩ := List.nodup_cons.mp hnodup
    have hnodegray : s.color node = .Gray := (hgray node).mpr (.head _)
    have hblack : ∀ n, s.color n = .Black → update s.color node .Black n = .Black := by
      intro n hn
      by_cases heq : n = node
      · rw [heq, update_self]
      · rwa [update_of_ne heq]
    -- the cursor is at the end: with no cycle reported, every successor is black
    have hinto : s.cycles = [] → ∀ m, HasEdge edges node m → s.color m = .Black := by
      intro hnil m hm
      have hlen : (adjacency edges node).length ≤ cursor := List.getElem?_eq_none_iff.mp hdone
      have hmem : m ∈ (adjacency edges node).take cursor := by
        rw [List.take_of_length_le hlen]
        exact mem_adjacency.mpr hm
      exact ((hscanned hnil).1 m hmem).resolve_right (by simp)
    exact {
      gray := fun n => by
        change update s.color node .Black n = .Gray ↔ _
        by_cases hn : n = node
        · rw [hn, update_self]
          exact ⟨fun hc => absurd hc (by simp), fun hmem => absurd hmem hout⟩
        · rw [update_of_ne hn, hgray n, map_cons, mem_cons, or_iff_right hn]
      nodup := hrest
      chain := hchain.tail
      cycles := h.cycles
      closed := fun hnil n hn m hm => by
        apply hblack
        by_cases heq : n = node
        · rw [heq] at hm
          exact hinto hnil m hm
        · change update s.color node .Black n = _ at hn
          rw [update_of_ne heq] at hn
          exact h.closed hnil n hn m hm
      acyclic := fun hnil n hn => by
        by_cases heq : n = node
        · rw [heq]
          apply not_transGen_self_of_closed (h.closed hnil) _ (hinto hnil)
          rw [hnodegray]
          simp
        · change update s.color node .Black n = _ at hn
          rw [update_of_ne heq] at hn
          exact h.acyclic hnil n hn
      scanned := fun hnil => by
        have hold := (hscanned hnil).2.mono hblack
        exact hold.popped (update_self ..) }

/-- The `expect` never fires: a gray node is on the path. -/
theorem Inv.visit_isSome (h : s.Inv edges) : ∃ t, s.visit edges = some t := by
  unfold visit
  split
  · exact ⟨s, rfl⟩
  · rename_i node cursor rest hstack
    split
    · rename_i next hnext
      simp only
      split
      · rename_i hcolor
        have hmem : next ∈ s.path := List.mem_reverse.mpr ((h.gray next).mp hcolor)
        obtain ⟨pos, hpos⟩ := Option.isSome_iff_exists.mp (List.isSome_idxOf?.mpr hmem)
        rw [hpos]
        exact ⟨_, rfl⟩
      · exact ⟨_, rfl⟩
      · exact ⟨_, rfl⟩
    · exact ⟨_, rfl⟩

/-- A colour once given is not taken back. -/
theorem Visits.nonwhite (hv : Visits edges s node cursor rest t) {n : TxnId}
    (hn : s.color n ≠ .White) :
    t.color n ≠ .White := by
  cases hv with
  | closes next pos hnext hcolor hpos => exact hn
  | pushes next hnext hcolor =>
    have hne : n ≠ next := fun heq => hn (heq ▸ hcolor)
    change update s.color next .Gray n ≠ .White
    rwa [update_of_ne hne]
  | passes next hnext hcolor => exact hn
  | pops hdone =>
    change update s.color node .Black n ≠ .White
    by_cases hne : n = node
    · rw [hne, update_self]
      simp
    · rwa [update_of_ne hne]

/-! ## The loop ends -/

/-- Every node of an edge. -/
def endpoints (edges : List (TxnId × TxnId)) : Finset TxnId :=
  (edges.map Prod.fst ++ edges.map Prod.snd).toFinset

theorem mem_endpoints {a b : TxnId} (h : HasEdge edges a b) :
    a ∈ endpoints edges ∧ b ∈ endpoints edges := by
  unfold endpoints
  rw [List.mem_toFinset, List.mem_toFinset, mem_append, mem_append]
  exact ⟨.inl (mem_map.mpr ⟨(a, b), h, rfl⟩), .inr (mem_map.mpr ⟨(a, b), h, rfl⟩)⟩

/-- What a node costs: a pass for each of its successors and one for its pop. -/
def cost (edges : List (TxnId × TxnId)) (n : TxnId) : ℕ := (adjacency edges n).length + 1

/-- The passes that are left: of the white nodes, and of the entries on the stack. -/
def remaining (edges : List (TxnId × TxnId)) (s : Search) : ℕ :=
  (∑ n ∈ endpoints edges with s.color n = .White, cost edges n) +
    (s.stack.map fun e => (adjacency edges e.1).length - e.2 + 1).sum

/-- A white node that is coloured leaves the sum. -/
theorem sum_white_update (color : TxnId → Color) {n : TxnId} (hn : n ∈ endpoints edges)
    (hwhite : color n = .White) :
    cost edges n + ∑ m ∈ endpoints edges with update color n .Gray m = .White,
      cost edges m = ∑ m ∈ endpoints edges with color m = .White, cost edges m := by
  have herase : (endpoints edges).filter (fun m => update color n .Gray m = .White) =
      ((endpoints edges).filter (fun m => color m = .White)).erase n := by
    ext m
    rw [Finset.mem_erase, Finset.mem_filter, Finset.mem_filter]
    by_cases hm : m = n
    · rw [hm, update_self]
      simp
    · rw [update_of_ne hm]
      simp [hm]
  rw [herase]
  exact Finset.add_sum_erase _ _ (Finset.mem_filter.mpr ⟨hn, hwhite⟩)

/-- Every pass uses up one. -/
theorem Visits.remaining_lt (h : s.Inv edges) (hstack : s.stack = (node, cursor) :: rest)
    (hv : Visits edges s node cursor rest t) :
    t.remaining edges < s.remaining edges := by
  have hcursor : ∀ next, (adjacency edges node)[cursor]? = some next →
      cursor < (adjacency edges node).length := fun next hnext =>
    (List.getElem?_eq_some_iff.mp hnext).1
  unfold remaining
  rw [hstack]
  cases hv with
  | closes next pos hnext hcolor hpos =>
    have hlt := hcursor next hnext
    simp only [map_cons, sum_cons]
    omega
  | pushes next hnext hcolor =>
    have hlt := hcursor next hnext
    have hin := (mem_endpoints (mem_adjacency.mp (List.mem_of_getElem? hnext))).2
    have hsum := sum_white_update s.color hin hcolor
    unfold cost at hsum
    unfold cost
    simp only [map_cons, sum_cons] at hsum ⊢
    omega
  | passes next hnext hcolor =>
    have hlt := hcursor next hnext
    simp only [map_cons, sum_cons]
    omega
  | pops hdone =>
    have hgray : s.color node = .Gray := by
      rw [h.gray, hstack]
      exact .head _
    have hsame : (endpoints edges).filter
        (fun m => update s.color node .Black m = .White) =
        (endpoints edges).filter (fun m => s.color m = .White) := by
      apply Finset.filter_congr
      intro m _
      by_cases hm : m = node
      · rw [hm, update_self, hgray]
        simp
      · rw [update_of_ne hm]
    simp only [hsame, map_cons, sum_cons]
    omega

theorem loop_nil {fuel : ℕ} (hnil : s.stack = []) : loop edges fuel s = some s := by
  unfold loop
  rw [hnil]

theorem loop_cons {fuel : ℕ} {e : TxnId × ℕ} (hstack : s.stack = e :: rest) :
    loop edges (fuel + 1) s = (s.visit edges).bind (loop edges fuel) := by
  conv_lhs => unfold loop
  rw [hstack]

/-- **The loop ends**, with an empty stack, for every amount of fuel from `remaining` on. -/
theorem Inv.loop {need : ℕ} (h : s.Inv edges) (hneed : s.remaining edges ≤ need) :
    ∃ t, (∀ fuel, need ≤ fuel → loop edges fuel s = some t) ∧ t.Inv edges ∧ t.stack = [] ∧
      ∀ n, s.color n ≠ .White → t.color n ≠ .White := by
  induction need generalizing s with
  | zero =>
    cases hstack : s.stack with
    | nil => exact ⟨s, fun fuel _ => loop_nil hstack, h, hstack, fun _ hn => hn⟩
    | cons e rest =>
      -- an entry on the stack has a pass left
      exfalso
      unfold remaining at hneed
      rw [hstack, map_cons, sum_cons] at hneed
      omega
  | succ need ih =>
    cases hstack : s.stack with
    | nil => exact ⟨s, fun fuel _ => loop_nil hstack, h, hstack, fun _ hn => hn⟩
    | cons e rest =>
      obtain ⟨node, cursor⟩ := e
      obtain ⟨u, hu⟩ := h.visit_isSome
      have hv := visits_of_visit hstack hu
      have hlt := hv.remaining_lt h hstack
      obtain ⟨t, ht, hinv, hnil, hcolor⟩ := ih (h.visits hstack hv) (by omega)
      refine ⟨t, fun fuel hfuel => ?_, hinv, hnil, fun n hn => hcolor n (hv.nonwhite hn)⟩
      obtain ⟨k, rfl⟩ : ∃ k, fuel = k + 1 := ⟨fuel - 1, by omega⟩
      rw [loop_cons hstack, hu, Option.bind_some]
      exact ht k (by omega)

/-! ## The whole search -/

/-- The passes of one start node at most. -/
def budget (edges : List (TxnId × TxnId)) : ℕ := ∑ n ∈ endpoints edges, cost edges n

/-- Between two start nodes the stack is empty. -/
theorem Inv.explore (h : s.Inv edges) (hnil : s.stack = []) {start : TxnId}
    (hstart : start ∈ nodes edges) :
    ∃ t, (∀ fuel, budget edges ≤ fuel → explore edges fuel s start = some t) ∧ t.Inv edges ∧
      t.stack = [] ∧ t.color start ≠ .White ∧ ∀ n, s.color n ≠ .White → t.color n ≠ .White := by
  by_cases hcolor : s.color start = .White
  · let u : Search := { s with
      color := update s.color start .Gray
      stack := [(start, 0)] }
    have hblack : ∀ n, u.color n = .Black ↔ s.color n = .Black := by
      intro n
      change update s.color start .Gray n = .Black ↔ _
      by_cases hn : n = start
      · rw [hn, update_self, hcolor]
        simp
      · rw [update_of_ne hn]
    have hu : u.Inv edges := {
      gray := fun n => by
        change update s.color start .Gray n = .Gray ↔ n ∈ [start]
        by_cases hn : n = start
        · rw [hn, update_self]
          simp
        · rw [update_of_ne hn, h.gray n, hnil]
          simp [hn]
      nodup := List.nodup_singleton start
      chain := List.isChain_singleton start
      cycles := h.cycles
      closed := fun hc n hn m hm => (hblack m).mpr (h.closed hc n ((hblack n).mp hn) m hm)
      acyclic := fun hc n hn => h.acyclic hc n ((hblack n).mp hn)
      scanned := fun _ => ⟨fun b hb => absurd hb (by simp), trivial⟩ }
    obtain ⟨b, hb⟩ := mem_nodes.mp hstart
    have hsum := sum_white_update s.color (mem_endpoints hb).1 hcolor
    have hle : ∑ m ∈ endpoints edges with s.color m = .White, cost edges m ≤ budget edges :=
      Finset.sum_le_sum_of_subset (Finset.filter_subset _ _)
    have hneed : u.remaining edges ≤ budget edges := by
      refine le_trans (le_of_eq ?_) (hsum.trans_le hle)
      unfold remaining cost
      simp only [u, map_cons, List.map_nil, sum_cons, List.sum_nil]
      omega
    obtain ⟨t, ht, hinv, hempty, hkeep⟩ := hu.loop hneed
    refine ⟨t, fun fuel hfuel => ?_, hinv, hempty, ?_, fun n hn => ?_⟩
    · unfold Search.explore
      rw [if_neg (not_not.mpr hcolor)]
      exact ht fuel hfuel
    · apply hkeep
      change update s.color start .Gray start ≠ .White
      rw [update_self]
      simp
    · apply hkeep
      have hne : n ≠ start := fun heq => hn (heq ▸ hcolor)
      change update s.color start .Gray n ≠ .White
      rwa [update_of_ne hne]
  · refine ⟨s, fun fuel _ => ?_, h, hnil, hcolor, fun _ hn => hn⟩
    unfold Search.explore
    rw [if_pos hcolor]

/-- The `for` loop over a list of start nodes. -/
theorem Inv.explore_all {starts : List TxnId} (h : s.Inv edges) (hnil : s.stack = [])
    (hstarts : starts ⊆ nodes edges) :
    ∃ t, (∀ fuel, budget edges ≤ fuel →
        starts.foldlM (Search.explore edges fuel) s = some t) ∧
      t.Inv edges ∧ t.stack = [] ∧ (∀ n ∈ starts, t.color n ≠ .White) ∧
      ∀ n, s.color n ≠ .White → t.color n ≠ .White := by
  induction starts generalizing s with
  | nil => exact ⟨s, fun _ _ => rfl, h, hnil, fun _ hn => absurd hn (by simp), fun _ hn => hn⟩
  | cons start starts ih =>
    obtain ⟨u, hu, huinv, hunil, hustart, hukeep⟩ :=
      h.explore hnil (hstarts (.head _))
    obtain ⟨t, ht, htinv, htnil, htall, htkeep⟩ :=
      ih huinv hunil fun n hn => hstarts (.tail _ hn)
    refine ⟨t, fun fuel hfuel => ?_, htinv, htnil, fun n hn => ?_, fun n hn =>
      htkeep n (hukeep n hn)⟩
    · rw [List.foldlM_cons, hu fuel hfuel]
      exact ht fuel hfuel
    · rcases mem_cons.mp hn with rfl | hn
      · exact htkeep n hustart
      · exact htall n hn

end Search

/-- **The cycle search.** For every edge list the search ends: from some amount of fuel on it
gives one and the same list. Everything it reports is a cycle of the graph, a non-empty list
of distinct nodes with an edge from each to the next and from the last to the first, and it
reports one if and only if the graph has one. -/
theorem find_cycles_correct (edges : List (TxnId × TxnId)) :
    ∃ cycles, (∃ enough, ∀ fuel, enough ≤ fuel → find_cycles fuel edges = some cycles) ∧
      (∀ c ∈ cycles, IsCycle (HasEdge edges) c) ∧
      (cycles ≠ [] ↔ ∃ n, TransGen (HasEdge edges) n n) := by
  obtain ⟨t, hrun, hinv, hnil, hall, -⟩ :=
    (Search.inv_new : Search.Inv edges Search.new).explore_all rfl (List.Subset.refl (nodes edges))
  refine ⟨t.cycles, ⟨Search.budget edges, fun fuel hfuel => ?_⟩, hinv.cycles, ?_, ?_⟩
  · unfold find_cycles
    rw [hrun fuel hfuel, Option.map_some]
  · intro hne
    obtain ⟨c, hc⟩ := List.exists_mem_of_ne_nil _ hne
    exact ⟨_, (hinv.cycles c hc).transGen⟩
  · rintro ⟨n, hcycle⟩ hempty
    -- a node of a cycle has an edge, so the search has been through it
    obtain ⟨m, hedge, -⟩ := TransGen.head'_iff.mp hcycle
    have hwhite : t.color n ≠ .White := hall n (mem_nodes.mpr ⟨m, hedge⟩)
    have hgray : t.color n ≠ .Gray := by
      rw [ne_eq, hinv.gray, hnil]
      simp
    cases hcolor : t.color n with
    | White => exact hwhite hcolor
    | Gray => exact hgray hcolor
    | Black => exact hinv.acyclic hempty n hcolor hcycle

/-- A ring with a tail: the tail is not part of the cycle. -/
example : find_cycles 9 [(1, 2), (2, 3), (3, 2)] = some [[2, 3]] := by decide +kernel

end Ams.Deadlock
