/-
The algorithm cores of HNSW, `pg-am-hnsw/src/graph.rs`: the beam search on one level and the
selection of neighbours.

The source writes them once, over a trait `GraphAccess`, for the graph in memory and for the
graph in pages. Here the trait's methods are the questions of a `Program`: a core asks for a
distance or for a neighbour list and goes on with the answer. Answering from one state gives
the sequential code, and answering each question from whatever the state is by then gives the
search that runs while others insert.

A binary heap is the ascending list of its elements: `Cand` is totally ordered, so the order in
which equal elements leave a heap cannot be seen. The visited bitset is the list of marked
identifiers, with the number of words it has, since an identifier past the last word is a panic.
The loop of the search runs on a bound. Running out of it is a failure like a panic, and the
same theorem excludes both.
-/
import Ams.HnswTypes
import Ams.Lib.Program

set_option autoImplicit false

namespace Ams.HnswAm

open Ams.Lib Ams.Lib.Program
open List (append_assoc forall_mem_cons length_cons nodup_cons not_mem_nil)

variable {D : Type}

/-! ## Candidates -/

structure Cand (D : Type) where
  dist : D
  id : NodeId
deriving DecidableEq, Repr

/-- The key of the order: distance first, then identifier. -/
def Cand.key (c : Cand D) : Lex (D × NodeId) := toLex (c.dist, c.id)

theorem Cand.key_injective : Function.Injective (Cand.key (D := D)) := by
  rintro ⟨d, i⟩ ⟨d', i'⟩ h
  obtain ⟨rfl, rfl⟩ := Prod.mk.inj (toLex.injective h)
  rfl

instance [LinearOrder D] : LinearOrder (Cand D) := LinearOrder.lift' Cand.key Cand.key_injective

theorem Cand.dist_le [LinearOrder D] {a b : Cand D} (h : a ≤ b) : a.dist ≤ b.dist := by
  rcases (Prod.Lex.le_iff (x := a.key) (y := b.key)).mp h with h | h
  · exact h.le
  · exact h.1.le

/-! ## Reading the graph -/

/-- The questions of `GraphAccess`. -/
inductive Ask where
  | dist_to_query (query : List F32) (node : NodeId)
  | dist_between (a b : NodeId)
  | for_each_neighbor (node : NodeId) (level : ℕ)
deriving DecidableEq, Repr

/-- A distance, or the list of neighbours in the order they are enumerated. -/
def Ask.Answer (D : Type) : Ask → Type
  | .dist_to_query _ _ => Result D
  | .dist_between _ _ => Result D
  | .for_each_neighbor _ _ => Result (List NodeId)

/-- A program over a graph. -/
abbrev Core (D α : Type) := Program Failure Ask (Ask.Answer D) α

def dist_to_query (query : List F32) (node : NodeId) : Core D D := do
  let r ← Program.ask (Ask.dist_to_query query node)
  Program.ofExcept r

def dist_between (a b : NodeId) : Core D D := do
  let r ← Program.ask (Ask.dist_between a b)
  Program.ofExcept r

def for_each_neighbor (node : NodeId) (level : ℕ) : Core D (List NodeId) := do
  let r ← Program.ask (Ask.for_each_neighbor node level)
  Program.ofExcept r

/-! ## The beam search -/

structure Visited where
  words : ℕ
  ids : List NodeId
deriving DecidableEq, Repr

/-- `vec![0u64; n / 64 + 1]`. -/
def Visited.new (n : ℕ) : Visited := ⟨n / 64 + 1, []⟩

def Visited.test (v : Visited) (e : NodeId) : Result Bool :=
  if e / 64 < v.words then .ok (e ∈ v.ids) else .error .panic

def Visited.set (v : Visited) (e : NodeId) : Result Visited :=
  if e / 64 < v.words then .ok { v with ids := e :: v.ids } else .error .panic

section Order

variable [LinearOrder D]

/-- `BinaryHeap::push`. -/
def push (c : Cand D) (heap : List (Cand D)) : List (Cand D) := heap.orderedInsert (· ≤ ·) c

/-- The variables of `search_layer`. -/
structure Beam (D : Type) where
  visited : Visited
  candidates : List (Cand D)
  results : List (Cand D)

/-- The loop over the entry points. -/
def seed (query : List F32) : List NodeId → Beam D → Core D (Beam D)
  | [], b => pure b
  | ep :: eps, b => do
    let visited ← Program.ofExcept (b.visited.set ep)
    let dist ← dist_to_query query ep
    let c : Cand D := ⟨dist, ep⟩
    seed query eps ⟨visited, push c b.candidates, push c b.results⟩

/-- Admit a candidate into a beam that is not full, or in place of the worst. -/
def admission (ef : ℕ) (cand : Cand D) (b : Beam D) : Result (Beam D) := do
  let admitted ← if b.results.length < ef then pure true else do
    let worst ← expect b.results.getLast?
    pure (decide (cand < worst))
  if admitted then
    let results := push cand b.results
    return ⟨b.visited, push cand b.candidates,
      if ef < results.length then results.dropLast else results⟩
  else return b

/-- The loop over the collected neighbours. -/
def relax (n : ℕ) (query : List F32) (ef : ℕ) : List NodeId → Beam D → Core D (Beam D)
  | [], b => pure b
  | e :: pending, b =>
    -- a node allocated after the view was taken is invisible to this search
    if n ≤ e then relax n query ef pending b
    else do
      let seen ← Program.ofExcept (b.visited.test e)
      if seen then relax n query ef pending b
      else do
        let visited ← Program.ofExcept (b.visited.set e)
        let dist ← dist_to_query query e
        let b ← Program.ofExcept (admission ef ⟨dist, e⟩ { b with visited })
        relax n query ef pending b

/-- The loop over the frontier, for at most `fuel` iterations. -/
def expand (n : ℕ) (query : List F32) (ef level : ℕ) : ℕ → Beam D → Core D (Beam D)
  | 0, _ => Program.ofExcept (.error .panic)
  | fuel + 1, b =>
    match b.candidates with
    | [] => pure b
    | c :: rest => do
      let worst ← Program.ofExcept (expect b.results.getLast?)
      -- distances only: the nearest candidate is beyond the worst kept result
      if worst.dist < c.dist then pure b
      else do
        let pending ← for_each_neighbor c.id level
        let b ← relax n query ef pending { b with candidates := rest }
        expand n query ef level fuel b

/-- `n` is the node count of the view. -/
def search_layer (n : ℕ) (query : List F32) (entry_points : List NodeId) (ef level : ℕ) :
    Core D (List (Cand D)) := do
  Program.ofExcept (failIf (ef < 1) .panic)
  let b ← seed query entry_points ⟨Visited.new n, [], []⟩
  let b ← expand n query ef level (n + 1) b
  return b.results

/-- The greedy descent (`ef = 1`) through the levels. -/
def greedy_descent (n : ℕ) (query : List F32) : List ℕ → NodeId → Core D NodeId
  | [], ep => pure ep
  | l :: ls, ep => do
    let w ← search_layer n query [ep] 1 l
    let c ← Program.ofExcept (index w 0)
    greedy_descent n query ls c.id

/-! ## Neighbour selection -/

/-- Some kept element is strictly closer to the candidate than the reference is. -/
def shadowed (c : Cand D) : List (Cand D) → Core D Bool
  | [] => pure false
  | r :: kept => do
    let dist ← dist_between c.id r.id
    if dist < c.dist then pure true else shadowed c kept

/-- The main loop of the heuristic. -/
def prune (limit : ℕ) :
    List (Cand D) → List (Cand D) → List (Cand D) → Core D (List (Cand D) × List (Cand D))
  | [], kept, occluded => pure (kept, occluded)
  | c :: sorted, kept, occluded =>
    if kept.length = limit then pure (kept, occluded)
    else do
      if ← shadowed c kept then prune limit sorted kept (occluded ++ [c])
      else prune limit sorted (kept ++ [c]) occluded

/-- `keep_pruned = true`: fill up with the occluded. -/
def refill (limit : ℕ) (out : List (Cand D)) : List (Cand D) → List (Cand D)
  | [] => out
  | c :: occluded => if out.length = limit then out else refill limit (out ++ [c]) occluded

def sorted_ids (cs : List (Cand D)) : List NodeId := (cs.map Cand.id).insertionSort (· ≤ ·)

def select_neighbors (selection : NeighborSelection) (candidates : List (Cand D)) (limit : ℕ) :
    Core D (List NodeId) := do
  let sorted := candidates.insertionSort (· ≤ ·)
  if sorted.length ≤ limit then return sorted_ids sorted
  else
    match selection with
    | .Simple => return sorted_ids (sorted.take limit)
    | .Heuristic =>
      let (kept, occluded) ← prune limit sorted [] []
      return sorted_ids (refill limit kept occluded)

/-- The entries of a list as candidates of its owner, for `shrink`. -/
def owner_cands (owner : NodeId) : List NodeId → Core D (List (Cand D))
  | [] => pure []
  | c :: list => do
    let dist ← dist_between owner c
    let cands ← owner_cands owner list
    return ⟨dist, c⟩ :: cands

/-- The new list of `shrink`: the same selection over the list, seen from its owner. -/
def shrunk (selection : NeighborSelection) (owner : NodeId) (list : List NodeId) (limit : ℕ) :
    Core D (List NodeId) := do
  let cands ← owner_cands owner list
  select_neighbors selection cands limit

/-! ## What the search finds -/

/-- What a search relies on at a level: `G s` are the nodes it may come to in `s`, and `d` is
their distance to the query. The nodes stay, their neighbours below `n` are among them, and
nothing fails at them. -/
structure Searchable {σ : Type} (rely : σ → σ → Prop) (answer : σ → ∀ q, Ask.Answer D q)
    (n : ℕ) (query : List F32) (level : ℕ) (G : σ → NodeId → Prop) (d : NodeId → D) : Prop where
  refl : ∀ s, rely s s
  trans : ∀ r s t, rely r s → rely s t → rely r t
  stable : ∀ s t e, rely s t → G s e → G t e
  lt : ∀ s e, G s e → e < n
  dist : ∀ s e, G s e → answer s (.dist_to_query query e) = .ok (d e)
  neighbors : ∀ s e, G s e → ∃ list, answer s (.for_each_neighbor e level) = .ok list ∧
    ∀ x ∈ list, x < n → G s x

/-- `b` is in the list of `a`. -/
def Edge (answer : ∀ q, Ask.Answer D q) (level : ℕ) (a b : NodeId) : Prop :=
  ∃ list, answer (.for_each_neighbor a level) = .ok list ∧ b ∈ list

abbrev Reaches (answer : ∀ q, Ask.Answer D q) (level : ℕ) : NodeId → NodeId → Prop :=
  Relation.ReflTransGen (Edge answer level)

/-- What a search returns: at least one and at most `ef` nodes, in strictly ascending order. -/
structure Found (G : NodeId → Prop) (d : NodeId → D) (ef : ℕ) (w : List (Cand D)) : Prop where
  ne_nil : w ≠ []
  ascending : w.Pairwise (· < ·)
  length_le : w.length ≤ ef
  mem : ∀ c ∈ w, G c.id ∧ c.dist = d c.id

/-- The invariant of the loops. -/
structure BeamOk (n : ℕ) (G : NodeId → Prop) (d : NodeId → D) (ef : ℕ) (b : Beam D) : Prop where
  words : b.visited.words = n / 64 + 1
  nodup : b.visited.ids.Nodup
  lt : ∀ e ∈ b.visited.ids, e < n
  candidates : ∀ c ∈ b.candidates, G c.id
  found : ∀ c ∈ b.results, G c.id ∧ c.dist = d c.id
  marked : ∀ c ∈ b.results, c.id ∈ b.visited.ids
  ascending : b.results.Pairwise (· < ·)
  length_le : b.results.length ≤ ef

/-- What is done of a search that has to come to the nodes of `S` and, from a node it keeps,
along `E`: a node that has been seen is kept, or the beam is full of nearer ones. The nodes
that are still to be looked at come from `S` and from results that are no candidates any
more, and are in `todo`. -/
structure Explores (n : ℕ) (d : NodeId → D) (ef : ℕ) (S : NodeId → Prop) (E : NodeId → NodeId → Prop)
    (todo : List NodeId) (b : Beam D) : Prop where
  sorted : b.candidates.Pairwise (· ≤ ·)
  weighed : ∀ e ∈ b.visited.ids,
    ⟨d e, e⟩ ∈ b.results ∨ b.results.length = ef ∧ ∀ c ∈ b.results, c < ⟨d e, e⟩
  owed : ∀ x, (S x ∨ ∃ c ∈ b.results, c ∉ b.candidates ∧ E c.id x) → x < n →
    x ∈ b.visited.ids ∨ x ∈ todo

/-- A node of `S` or along `E` from a node of `w` is in `w`, unless `w` is full of nearer ones. -/
def Explored (n : ℕ) (d : NodeId → D) (ef : ℕ) (S : NodeId → Prop) (E : NodeId → NodeId → Prop)
    (w : List (Cand D)) : Prop :=
  ∀ x < n, (S x ∨ ∃ c ∈ w, E c.id x) → ⟨d x, x⟩ ∈ w ∨ w.length = ef ∧ ∀ c ∈ w, c < ⟨d x, x⟩

/-- The candidates left and the nodes not yet seen, which bound the iterations left. -/
def Beam.work (n : ℕ) (b : Beam D) : ℕ := b.candidates.length + (n - b.visited.ids.length)

omit [LinearOrder D] in
theorem Beam.work_mk (n : ℕ) (v : Visited) (cs rs : List (Cand D)) :
    Beam.work n ⟨v, cs, rs⟩ = cs.length + (n - v.ids.length) := rfl

theorem length_push (c : Cand D) (heap : List (Cand D)) :
    (push c heap).length = heap.length + 1 := List.orderedInsert_length _ _ _

theorem mem_push {c x : Cand D} {heap : List (Cand D)} :
    x ∈ push c heap ↔ x = c ∨ x ∈ heap := List.mem_orderedInsert _

/-- A new element keeps the order strict. -/
theorem pairwise_push {c : Cand D} {heap : List (Cand D)} (h : heap.Pairwise (· < ·))
    (hc : c ∉ heap) : (push c heap).Pairwise (· < ·) := by
  have hle : (push c heap).Pairwise (· ≤ ·) :=
    List.Pairwise.orderedInsert c heap (h.imp le_of_lt)
  have hnodup : (push c heap).Nodup := by
    refine (List.perm_orderedInsert (· ≤ ·) c heap).nodup_iff.mpr (nodup_cons.mpr ⟨hc, ?_⟩)
    exact h.imp ne_of_lt
  exact hle.imp₂ (fun _ _ hle hne => lt_of_le_of_ne hle hne) hnodup

section Search

variable {σ : Type} {rely : σ → σ → Prop} {answer : σ → ∀ q, Ask.Answer D q} {n : ℕ}
  {query : List F32} {level ef : ℕ} {G : σ → NodeId → Prop} {d : NodeId → D} {s t : σ}
  {E : NodeId → NodeId → Prop}

omit [LinearOrder D] in
theorem Searchable.dist_yields (hS : Searchable rely answer n query level G d) {e : NodeId}
    (he : G s e) : Yields rely answer (fun _ x => x = d e) (dist_to_query query e) s := by
  refine yields_ask_bind fun t hst => ?_
  exact yields_ofExcept (hS.dist t e (hS.stable s t e hst he)) fun _ _ => rfl

omit [LinearOrder D] in
theorem Searchable.neighbors_yields (hS : Searchable rely answer n query level G d)
    (hE : ∀ s e, E e ≤ Edge (answer s) level e) {e : NodeId} (he : G s e) :
    Yields rely answer (fun t list => (∀ x ∈ list, x < n → G t x) ∧ ∀ x, E e x → x ∈ list)
      (for_each_neighbor e level) s := by
  refine yields_ask_bind fun t hst => ?_
  obtain ⟨list, hlist, hall⟩ := hS.neighbors t e (hS.stable s t e hst he)
  refine yields_ofExcept hlist fun u htu =>
    ⟨fun x hx hlt => hS.stable t u x htu (hall x hx hlt), fun x hx => ?_⟩
  obtain ⟨list', hlist', hmem⟩ := hE t e x hx
  exact Except.ok.inj (hlist.symm.trans hlist') ▸ hmem

theorem BeamOk.stable (hS : Searchable rely answer n query level G d) (hst : rely s t) {b : Beam D}
    (hb : BeamOk n (G s) d ef b) : BeamOk n (G t) d ef b where
  words := hb.words
  nodup := hb.nodup
  lt := hb.lt
  candidates c hc := hS.stable s t _ hst (hb.candidates c hc)
  found c hc := ⟨hS.stable s t _ hst (hb.found c hc).1, (hb.found c hc).2⟩
  marked := hb.marked
  ascending := hb.ascending
  length_le := hb.length_le

/-! ### One node -/

variable {g S : NodeId → Prop} {todo : List NodeId} {e : NodeId} {b : Beam D}

theorem BeamOk.set_eq (hb : BeamOk n g d ef b) (hlt : e < n) :
    b.visited.set e = .ok ⟨b.visited.words, e :: b.visited.ids⟩ := by
  unfold Visited.set
  rw [if_pos]
  rw [hb.words]
  exact Nat.lt_succ_of_le (Nat.div_le_div_right hlt.le)

theorem BeamOk.test_eq (hb : BeamOk n g d ef b) (hlt : e < n) :
    b.visited.test e = .ok (decide (e ∈ b.visited.ids)) := by
  unfold Visited.test
  rw [if_pos]
  rw [hb.words]
  exact Nat.lt_succ_of_le (Nat.div_le_div_right hlt.le)

/-- Marking a node uses up one of those not yet seen. -/
theorem BeamOk.length_lt (hb : BeamOk n g d ef b) (hlt : e < n) (he : e ∉ b.visited.ids) :
    b.visited.ids.length < n := by
  have hnodup : (e :: b.visited.ids).Nodup := nodup_cons.mpr ⟨he, hb.nodup⟩
  have hsub : (e :: b.visited.ids) ⊆ List.range n := by
    intro x hx
    rcases List.mem_cons.mp hx with rfl | hx
    · exact List.mem_range.mpr hlt
    · exact List.mem_range.mpr (hb.lt x hx)
  have hle := (List.Nodup.subperm hnodup hsub).length_le
  rwa [length_cons, List.length_range] at hle

/-- The beam after a node has been marked. -/
theorem BeamOk.mark (hb : BeamOk n g d ef b) (hlt : e < n) (he : e ∉ b.visited.ids) :
    BeamOk n g d ef ⟨⟨b.visited.words, e :: b.visited.ids⟩, b.candidates, b.results⟩ where
  words := hb.words
  nodup := nodup_cons.mpr ⟨he, hb.nodup⟩
  lt := forall_mem_cons.mpr ⟨hlt, hb.lt⟩
  candidates := hb.candidates
  found := hb.found
  marked c hc := List.mem_cons_of_mem e (hb.marked c hc)
  ascending := hb.ascending
  length_le := hb.length_le

/-- The results after a node that was marked last has been pushed and the worst evicted. -/
theorem BeamOk.seat {v : Visited} {cs rs results : List (Cand D)}
    (hb : BeamOk n g d ef ⟨v, cs, rs⟩) (he : g e) (hev : e ∈ v.ids) (hers : ∀ c ∈ rs, c.id ≠ e)
    (hsub : results.Sublist (push ⟨d e, e⟩ rs)) (hlen : results.length ≤ ef) :
    BeamOk n g d ef ⟨v, push ⟨d e, e⟩ cs, results⟩ := by
  have hnew : (⟨d e, e⟩ : Cand D) ∉ rs := fun hmem => hers _ hmem rfl
  have hcase : ∀ c ∈ results, c = ⟨d e, e⟩ ∨ c ∈ rs := fun c hc => mem_push.mp (hsub.subset hc)
  refine ⟨hb.words, hb.nodup, hb.lt, ?_, ?_, ?_, ?_, hlen⟩
  · intro c hc
    rcases mem_push.mp hc with rfl | hc
    · exact he
    · exact hb.candidates c hc
  · intro c hc
    rcases hcase c hc with rfl | hc
    · exact ⟨he, rfl⟩
    · exact hb.found c hc
  · intro c hc
    rcases hcase c hc with rfl | hc
    · exact hev
    · exact hb.marked c hc
  · exact (pairwise_push hb.ascending hnew).sublist hsub

/-- A node is looked at and pushed, and at most the worst result is evicted. -/
theorem Explores.seat {v : Visited} {rs : List (Cand D)} (hx : Explores n d ef S E (e :: todo) b)
    (hv : v.ids = e :: b.visited.ids) (hsub : rs ⊆ push ⟨d e, e⟩ b.results)
    (hkept : ∀ c ∈ push ⟨d e, e⟩ b.results, c ∈ rs ∨ rs.length = ef ∧ ∀ x ∈ rs, x < c)
    (hfull : b.results.length = ef → rs.length = ef ∧ ∃ c ∈ b.results, ⟨d e, e⟩ < c) :
    Explores n d ef S E todo ⟨v, push ⟨d e, e⟩ b.candidates, rs⟩ where
  sorted := List.Pairwise.orderedInsert _ _ hx.sorted
  weighed := by
    intro x hxv
    rw [hv] at hxv
    rcases List.mem_cons.mp hxv with rfl | hxv
    · exact hkept _ (mem_push.mpr (.inl rfl))
    · rcases hx.weighed x hxv with hmem | ⟨hlen, hbelow⟩
      · exact hkept _ (mem_push.mpr (.inr hmem))
      · obtain ⟨hlen, worst, hworst, hlt⟩ := hfull hlen
        refine .inr ⟨hlen, fun c hc => ?_⟩
        rcases mem_push.mp (hsub hc) with rfl | hc
        · exact hlt.trans (hbelow worst hworst)
        · exact hbelow c hc
  owed := by
    intro x hown hlt
    have hold : x ∈ b.visited.ids ∨ x ∈ e :: todo := by
      refine hx.owed x (hown.imp_right ?_) hlt
      rintro ⟨c, hc, hnot, hE⟩
      rw [mem_push, not_or] at hnot
      exact ⟨c, (mem_push.mp (hsub hc)).resolve_left hnot.1, hnot.2, hE⟩
    rw [hv]
    simp only [List.mem_cons] at hold ⊢
    tauto

/-- A node is looked at that needs no work. -/
theorem Explores.skip (hx : Explores n d ef S E (e :: todo) b) (he : e < n → e ∈ b.visited.ids) :
    Explores n d ef S E todo b where
  sorted := hx.sorted
  weighed := hx.weighed
  owed x hown hlt := by
    rcases (hx.owed x hown hlt).imp_right List.mem_cons.mp with h | rfl | h
    · exact .inl h
    · exact .inl (he hlt)
    · exact .inr h

/-- The first candidate is taken, and its neighbours are to be looked at. -/
theorem Explores.pop {v : Visited} {c : Cand D} {cs rs : List (Cand D)}
    (hx : Explores n d ef S E [] ⟨v, c :: cs, rs⟩) (hE : ∀ x, E c.id x → x ∈ todo) :
    Explores n d ef S E todo ⟨v, cs, rs⟩ where
  sorted := (List.pairwise_cons.mp hx.sorted).2
  weighed := hx.weighed
  owed x hown hlt := by
    by_cases hc : E c.id x
    · exact .inr (hE x hc)
    · refine .inl ((hx.owed x (hown.imp_right ?_) hlt).resolve_right not_mem_nil)
      rintro ⟨r, hr, hnot, hrx⟩
      refine ⟨r, hr, fun hmem => hnot ?_, hrx⟩
      exact (List.mem_cons.mp hmem).resolve_left fun heq => hc (heq ▸ hrx)

/-- No result is left to be expanded. -/
theorem Explores.explored (hx : Explores n d ef S E [] b)
    (hnone : ∀ c ∈ b.results, c ∉ b.candidates) : Explored n d ef S E b.results := by
  intro x hlt hown
  refine hx.weighed x ((hx.owed x (hown.imp_right ?_) hlt).resolve_right not_mem_nil)
  rintro ⟨c, hc, hcx⟩
  exact ⟨c, hc, hnone c hc, hcx⟩

/-- At most the worst result is evicted, and only from a full beam. -/
theorem evict_spec {p : List (Cand D)} (hp : p.Pairwise (· < ·)) (hlen : p.length ≤ ef + 1) :
    ∃ rs, (if ef < p.length then p.dropLast else p) = rs ∧ rs.Sublist p ∧
      rs.length = min ef p.length ∧ ∀ c ∈ p, c ∈ rs ∨ rs.length = ef ∧ ∀ x ∈ rs, x < c := by
  split_ifs with hfull
  · have hne : p ≠ [] := List.ne_nil_of_length_pos (Nat.zero_lt_of_lt hfull)
    have hlast : p.dropLast.length = ef := by
      rw [List.length_dropLast]
      omega
    refine ⟨_, rfl, List.dropLast_sublist p, by omega, fun c hc => ?_⟩
    rw [← List.dropLast_append_getLast hne] at hp hc
    rcases List.mem_append.mp hc with hc | hc
    · exact .inl hc
    · refine .inr ⟨hlast, fun x hx => ?_⟩
      exact (List.pairwise_append.mp hp).2.2 x hx c hc
  · exact ⟨p, rfl, List.Sublist.refl p, by omega, fun c hc => .inl hc⟩

/-- **Admission.** A node that is marked and then admitted, or not, leaves the beam in order
and does not add to the work. -/
theorem BeamOk.admission (hb : BeamOk n g d ef b) (hef : 1 ≤ ef) (hlt : e < n) (hge : g e)
    (he : e ∉ b.visited.ids) (hx : Explores n d ef S E (e :: todo) b) :
    ∃ b', admission ef ⟨d e, e⟩ { b with visited := ⟨b.visited.words, e :: b.visited.ids⟩ } = .ok b' ∧
      BeamOk n g d ef b' ∧ b'.results ≠ [] ∧ b'.work n ≤ b.work n ∧ Explores n d ef S E todo b' := by
  have hmark := hb.mark hlt he
  have hids := hb.length_lt hlt he
  have hle := hb.length_le
  have hfresh : ∀ c ∈ b.results, c.id ≠ e := fun c hc heq => he (heq ▸ hb.marked c hc)
  have hpush := length_push (⟨d e, e⟩ : Cand D) b.results
  obtain ⟨rs, hrs, hsub, hlen, hkept⟩ := @evict_spec D _ ef _
    (pairwise_push hb.ascending fun hmem => hfresh _ hmem rfl)
    (hpush.le.trans (Nat.succ_le_succ hle))
  -- the beam with the node pushed and, if it was full, the worst evicted
  have hseat : (b.results.length = ef → ∃ c ∈ b.results, (⟨d e, e⟩ : Cand D) < c) →
      ∀ b' : Beam D, b' = ⟨⟨b.visited.words, e :: b.visited.ids⟩, push ⟨d e, e⟩ b.candidates, rs⟩ →
      BeamOk n g d ef b' ∧ b'.results ≠ [] ∧ b'.work n ≤ b.work n ∧ Explores n d ef S E todo b' := by
    rintro hadmit b' rfl
    refine ⟨hmark.seat hge (.head _) hfresh hsub (by omega), ?_, ?_,
      hx.seat rfl hsub.subset hkept fun hfull => ⟨by omega, hadmit hfull⟩⟩
    · exact List.ne_nil_of_length_pos (hlen ▸ lt_min hef (hpush ▸ Nat.succ_pos _))
    · rw [Beam.work_mk, length_push, length_cons, Beam.work]
      omega
  unfold HnswAm.admission
  by_cases hroom : b.results.length < ef
  · refine ⟨_, ?_, hseat (fun hfull => absurd hfull hroom.ne) _ rfl⟩
    simp [hroom, hrs, bind, Except.bind, pure, Except.pure]
  · have hfull : b.results.length = ef := le_antisymm hle (not_lt.mp hroom)
    have hne : b.results ≠ [] := List.ne_nil_of_length_pos (by omega)
    have hlast := List.getLast?_eq_some_getLast hne
    by_cases hworst : (⟨d e, e⟩ : Cand D) < b.results.getLast hne
    · refine ⟨_, ?_, hseat (fun _ => ⟨_, List.getLast_mem hne, hworst⟩) _ rfl⟩
      simp [hroom, hrs, hlast, expect, hworst, bind, Except.bind, pure, Except.pure]
    · refine ⟨_, ?_, hmark, hne, ?_, hx.sorted, forall_mem_cons.mpr ⟨.inr ⟨hfull, ?_⟩, hx.weighed⟩, ?_⟩
      · simp [hroom, hlast, expect, hworst, bind, Except.bind, pure, Except.pure]
      · rw [Beam.work_mk, length_cons]
        exact le_trans (Nat.add_le_add_left (Nat.sub_le_sub_left (Nat.le_succ _) n) _) le_rfl
      · intro c hc
        refine lt_of_le_of_ne (le_trans ?_ (not_lt.mp hworst)) fun heq => hfresh c hc (heq ▸ rfl)
        exact (hb.ascending.imp le_of_lt).rel_getLast hc
      · intro x hown hlt
        have hold := hx.owed x hown hlt
        simp only [List.mem_cons] at hold ⊢
        tauto

/-! ### The loops -/

theorem seed_yields (hS : Searchable rely answer n query level G d) {eps : List NodeId}
    (heps : ∀ ep ∈ eps, G s ep) (hnodup : eps.Nodup) (hnew : ∀ ep ∈ eps, ep ∉ b.visited.ids)
    (hlen : b.results.length + eps.length ≤ ef) (hne : b.results ≠ [] ∨ eps ≠ [])
    (hb : BeamOk n (G s) d ef b) (hx : Explores n d ef S E eps b) :
    Yields rely answer (fun t b' => BeamOk n (G t) d ef b' ∧ b'.results ≠ [] ∧
        b'.work n ≤ b.work n ∧ Explores n d ef S E [] b')
      (seed query eps b) s := by
  induction eps generalizing b s with
  | nil =>
    refine yields_pure fun t hst => ⟨hb.stable hS hst, ?_, le_rfl, hx⟩
    exact hne.resolve_right fun h => h rfl
  | cons ep eps ih =>
    obtain ⟨hep, heps⟩ := forall_mem_cons.mp heps
    obtain ⟨hepnew, hnew⟩ := forall_mem_cons.mp hnew
    obtain ⟨hepnot, hnodup⟩ := nodup_cons.mp hnodup
    rw [length_cons] at hlen
    have hlt := hS.lt s ep hep
    refine yields_ofExcept_bind (hb.set_eq hlt) ?_
    refine Yields.bind hS.refl hS.trans (hS.dist_yields hep) ?_
    rintro u _ hsu rfl
    have hbu := (hb.stable hS hsu).mark hlt hepnew
    have hfresh : ∀ c ∈ b.results, c.id ≠ ep := fun c hc heq => hepnew (heq ▸ hb.marked c hc)
    have hseat := hbu.seat (hS.stable s u ep hsu hep) (.head _) hfresh
      (List.Sublist.refl _) (by rw [length_push]; omega)
    have hids := hb.length_lt hlt hepnew
    have hrest := ih (fun x hmem => hS.stable s u x hsu (heps x hmem)) hnodup
      (fun x hxs hmem => by
        rcases List.mem_cons.mp hmem with rfl | hmem
        · exact hepnot hxs
        · exact hnew x hxs hmem)
      (by simp only [length_push]; omega)
      (.inl (List.ne_nil_of_length_pos (by simp only [length_push]; omega))) hseat
      (hx.seat rfl (List.Subset.refl _) (fun _ hc => .inl hc) fun hfull => by omega)
    refine hrest.conseq hS.trans fun v b' _ ⟨hok, hne', hwork, hx'⟩ => ⟨hok, hne', hwork.trans ?_, hx'⟩
    unfold Beam.work
    simp only [length_push, length_cons]
    omega

theorem relax_yields (hS : Searchable rely answer n query level G d) (hef : 1 ≤ ef)
    {pending : List NodeId} (hpending : ∀ x ∈ pending, x < n → G s x) (hne : b.results ≠ [])
    (hb : BeamOk n (G s) d ef b) (hx : Explores n d ef S E pending b) :
    Yields rely answer (fun t b' => BeamOk n (G t) d ef b' ∧ b'.results ≠ [] ∧
        b'.work n ≤ b.work n ∧ Explores n d ef S E [] b')
      (relax n query ef pending b) s := by
  induction pending generalizing b s with
  | nil => exact yields_pure fun t hst => ⟨hb.stable hS hst, hne, le_rfl, hx⟩
  | cons e pending ih =>
    obtain ⟨he, hpending⟩ := forall_mem_cons.mp hpending
    rw [relax]
    by_cases hlt : n ≤ e
    · rw [if_pos hlt]
      exact ih hpending hne hb (hx.skip fun h => absurd hlt (not_le.mpr h))
    · rw [if_neg hlt]
      have hlt := not_le.mp hlt
      refine yields_ofExcept_bind (hb.test_eq hlt) ?_
      by_cases hseen : e ∈ b.visited.ids
      · rw [if_pos (decide_eq_true hseen)]
        exact ih hpending hne hb (hx.skip fun _ => hseen)
      · rw [if_neg (by simpa using hseen)]
        refine yields_ofExcept_bind (hb.set_eq hlt) ?_
        refine Yields.bind hS.refl hS.trans (hS.dist_yields (he hlt)) ?_
        rintro t _ hst rfl
        obtain ⟨b', hadmit, hok, hne', hwork, hx'⟩ := (hb.stable hS hst).admission hef hlt
          (hS.stable s t e hst (he hlt)) hseen hx
        refine yields_ofExcept_bind hadmit ?_
        have hrest := ih (fun x hmem hxn => hS.stable s t x hst (hpending x hmem hxn)) hne' hok hx'
        exact hrest.conseq hS.trans fun y b'' _ h => ⟨h.1, h.2.1, h.2.2.1.trans hwork, h.2.2.2⟩

/-- The frontier is exhausted, or left behind, within the bound. -/
theorem expand_yields (hS : Searchable rely answer n query level G d)
    (hE : ∀ s e, E e ≤ Edge (answer s) level e) (hef : 1 ≤ ef) {fuel : ℕ} (hfuel : b.work n < fuel)
    (hne : b.results ≠ []) (hb : BeamOk n (G s) d ef b) (hx : Explores n d ef S E [] b) :
    Yields rely answer
      (fun t b' => BeamOk n (G t) d ef b' ∧ b'.results ≠ [] ∧ Explored n d ef S E b'.results)
      (expand n query ef level fuel b) s := by
  induction fuel generalizing b s with
  | zero => exact absurd hfuel (Nat.not_lt_zero _)
  | succ fuel ih =>
    obtain ⟨visited, candidates, results⟩ := b
    match candidates with
    | [] =>
      exact yields_pure fun t hst => ⟨hb.stable hS hst, hne, hx.explored fun _ _ => not_mem_nil⟩
    | c :: rest =>
      have hlast := List.getLast?_eq_some_getLast hne
      refine yields_ofExcept_bind (expect_eq_ok.mpr hlast) ?_
      split_ifs with hworst
      · -- a result that is still a candidate would be beyond the worst
        refine yields_pure fun t hst => ⟨hb.stable hS hst, hne, hx.explored fun r hr hmem => ?_⟩
        have hcr : c ≤ r := by
          rcases List.mem_cons.mp hmem with rfl | hmem
          · exact le_rfl
          · exact (List.pairwise_cons.mp hx.sorted).1 r hmem
        have hrw := (hb.ascending.imp le_of_lt).rel_getLast hr
        exact absurd hworst (not_lt.mpr (Cand.dist_le (hcr.trans hrw)))
      · refine Yields.bind hS.refl hS.trans
          (hS.neighbors_yields hE (hb.candidates c (.head _))) ?_
        rintro u pending hsu ⟨hpending, hmem⟩
        have hbu := hb.stable hS hsu
        have hbrest : BeamOk n (G u) d ef ⟨visited, rest, results⟩ :=
          { hbu with candidates := fun x hx => hbu.candidates x (List.mem_cons_of_mem c hx) }
        refine Yields.bind hS.refl hS.trans (relax_yields hS hef hpending hne hbrest (hx.pop hmem)) ?_
        rintro v b' huv ⟨hok, hne', hwork, hx'⟩
        refine ih (lt_of_le_of_lt hwork ?_) hne' hok hx'
        rw [Beam.work_mk, length_cons] at hfuel
        change rest.length + (n - visited.ids.length) < fuel
        omega

/-- **The beam search.** From entry points it may come to, the search ends, does not fail, and
finds at least one and at most `ef` of the nodes it may come to, in order. Along the edges
that are there all the time it leaves out no node that is nearer than what it finds. -/
theorem search_layer_explores (hS : Searchable rely answer n query level G d)
    (hE : ∀ s e, E e ≤ Edge (answer s) level e) {eps : List NodeId}
    (heps : ∀ ep ∈ eps, G s ep) (hnodup : eps.Nodup) (hne : eps ≠ []) (hlen : eps.length ≤ ef) :
    Yields rely answer (fun t w => Found (G t) d ef w ∧ Explored n d ef (· ∈ eps) E w)
      (search_layer n query eps ef level) s := by
  have hef : 1 ≤ ef := le_trans (List.length_pos_iff.mpr hne) hlen
  have hnew : BeamOk n (G s) d ef (⟨Visited.new n, [], []⟩ : Beam D) :=
    ⟨rfl, List.nodup_nil, fun _ h => absurd h not_mem_nil,
      fun _ h => absurd h not_mem_nil, fun _ h => absurd h not_mem_nil,
      fun _ h => absurd h not_mem_nil, List.Pairwise.nil, Nat.zero_le ef⟩
  unfold search_layer
  refine yields_ofExcept_bind (failIf_of_not (not_lt.mpr hef)) ?_
  refine Yields.bind hS.refl hS.trans
    (seed_yields hS heps hnodup (fun _ _ => not_mem_nil) (by simpa using hlen) (.inr hne) hnew
      (S := (· ∈ eps)) (E := E) ⟨.nil, by simp [Visited.new], fun _ h _ => .inr (by simpa using h)⟩) ?_
  rintro u b htu ⟨hb, hbne, hwork, hx⟩
  have hfuel : b.work n < n + 1 := by
    refine lt_of_le_of_lt hwork ?_
    simp [Beam.work, Visited.new]
  refine Yields.bind hS.refl hS.trans (expand_yields hS hE hef hfuel hbne hb hx) ?_
  rintro v b' _ ⟨hok, hne', hdone⟩
  refine yields_pure fun w hvw => ?_
  have hok := hok.stable hS hvw
  exact ⟨⟨hne', hok.ascending, hok.length_le, hok.found⟩, hdone⟩

theorem search_layer_yields (hS : Searchable rely answer n query level G d) {eps : List NodeId}
    (heps : ∀ ep ∈ eps, G s ep) (hnodup : eps.Nodup) (hne : eps ≠ []) (hlen : eps.length ≤ ef) :
    Yields rely answer (fun t w => Found (G t) d ef w) (search_layer n query eps ef level) s :=
  (search_layer_explores hS (E := ⊥) (fun _ _ => bot_le) heps hnodup hne hlen).conseq hS.trans
    fun _ _ _ h => h.1

end Search

namespace Found

variable {g : NodeId → Prop} {d : NodeId → D} {ef : ℕ} {w : List (Cand D)}

/-- A search returns no node twice. -/
theorem nodup_ids (h : Found g d ef w) : (w.map Cand.id).Nodup := by
  refine List.pairwise_map.mpr (List.Pairwise.imp_of_mem ?_ h.ascending)
  intro a b ha hb hlt heq
  have hdist : a.dist = b.dist := by rw [(h.mem a ha).2, (h.mem b hb).2, heq]
  have hab : a = b := by
    cases a
    cases b
    simp_all
  exact absurd hlt (hab ▸ lt_irrefl a)

/-- The nearest one. -/
theorem head (h : Found g d ef w) : ∃ c, index w 0 = .ok c ∧ c ∈ w ∧ g c.id := by
  obtain ⟨c, rest, rfl⟩ := List.exists_cons_of_ne_nil h.ne_nil
  exact ⟨c, rfl, (.head _), (h.mem c (.head _)).1⟩

end Found

/-- **The layer search.** `on` are the nodes of the level. -/
theorem search_layer_spec (answer : ∀ q, Ask.Answer D q) (n : ℕ) (query : List F32) (ef level : ℕ)
    (on : NodeId → Prop) (d : NodeId → D) (ep : NodeId) (hlt : ∀ e, on e → e < n)
    (hdist : ∀ e, on e → answer (.dist_to_query query e) = .ok (d e))
    (hlist : ∀ e, on e → ∃ list, answer (.for_each_neighbor e level) = .ok list ∧ ∀ x ∈ list, on x)
    (hep : on ep) (hef : 1 ≤ ef) :
    ∃ w, Program.eval answer (search_layer n query [ep] ef level) = .ok w ∧
      w.length ≤ ef ∧ (w.map Cand.id).Nodup ∧ w.Pairwise (· < ·) ∧
      (∀ c ∈ w, c.dist = d c.id ∧ Reaches answer level ep c.id) ∧
      (∃ c, w.head? = some c ∧ c.dist ≤ d ep) ∧
      (∀ c ∈ w, ∀ x, Edge answer level c.id x →
        ⟨d x, x⟩ ∈ w ∨ w.length = ef ∧ ∀ c' ∈ w, c' < ⟨d x, x⟩) ∧
      (Set.ncard {x | Reaches answer level ep x} ≤ ef →
        ∀ x, Reaches answer level ep x → ⟨d x, x⟩ ∈ w) := by
  have hnext : ∀ a b, on a → Edge answer level a b → on b := by
    rintro a b ha ⟨list, heq, hb⟩
    obtain ⟨list', heq', hall⟩ := hlist a ha
    exact hall b (Except.ok.inj (heq.symm.trans heq') ▸ hb)
  have hon : ∀ x, Reaches answer level ep x → on x := by
    intro x hx
    induction hx with
    | refl => exact hep
    | tail _ hbc ih => exact hnext _ _ ih hbc
  have hS : Searchable (fun (_ _ : Unit) => True) (fun _ => answer) n query level
      (fun _ => Reaches answer level ep) d :=
    { refl := fun _ => trivial
      trans := fun _ _ _ _ _ => trivial
      stable := fun _ _ _ _ h => h
      lt := fun _ e he => hlt e (hon e he)
      dist := fun _ e he => hdist e (hon e he)
      neighbors := fun _ e he => by
        obtain ⟨list, heq, -⟩ := hlist e (hon e he)
        exact ⟨list, heq, fun x hx _ => he.tail ⟨list, heq, hx⟩⟩ }
  obtain ⟨w, hw, hfound, hdone⟩ := (search_layer_explores (s := ()) hS (fun _ _ => le_rfl)
    (by simpa using .refl) (List.nodup_singleton ep) (List.cons_ne_nil ep [])
    hef).eval hS.refl
  have hstart := hdone ep (hlt ep hep) (.inl (.head _))
  have hedge : ∀ c ∈ w, ∀ x, Edge answer level c.id x →
      ⟨d x, x⟩ ∈ w ∨ w.length = ef ∧ ∀ c' ∈ w, c' < ⟨d x, x⟩ := fun c hc x hx =>
    hdone x (hlt x (hnext _ _ (hon _ (hfound.mem c hc).1) hx)) (.inr ⟨c, hc, hx⟩)
  refine ⟨w, hw, hfound.length_le, hfound.nodup_ids, hfound.ascending,
    fun c hc => (hfound.mem c hc).symm, ?_, hedge, fun hcard x hx => ?_⟩
  · obtain ⟨c, rest, rfl⟩ := List.exists_cons_of_ne_nil hfound.ne_nil
    refine ⟨c, rfl, ?_⟩
    rcases hstart with hmem | ⟨-, hbelow⟩
    · rcases List.mem_cons.mp hmem with rfl | hmem
      · exact le_rfl
      · exact Cand.dist_le ((List.pairwise_cons.mp hfound.ascending).1 _ hmem).le
    · exact Cand.dist_le (hbelow c (.head _)).le
  · -- a full beam of other nodes would be too many
    have hroom : ∀ x, Reaches answer level ep x →
        (⟨d x, x⟩ ∈ w ∨ w.length = ef ∧ ∀ c ∈ w, c < ⟨d x, x⟩) → ⟨d x, x⟩ ∈ w := by
      rintro x hx (hmem | ⟨hfull, hbelow⟩)
      · exact hmem
      · have hnot : x ∉ w.map Cand.id := by
          rintro hmem
          obtain ⟨c, hc, rfl⟩ := List.mem_map.mp hmem
          exact lt_irrefl c (by simpa [← (hfound.mem c hc).2] using hbelow c hc)
        have hsub : (↑(x :: w.map Cand.id).toFinset : Set NodeId) ⊆ {x | Reaches answer level ep x} := by
          intro y hy
          rcases List.mem_cons.mp (List.mem_toFinset.mp hy) with rfl | hy
          · exact hx
          · obtain ⟨c, hc, rfl⟩ := List.mem_map.mp hy
            exact (hfound.mem c hc).1
        have hle := Set.ncard_le_ncard hsub
          ((Set.finite_lt_nat n).subset fun e he => hlt e (hon e he))
        rw [Set.ncard_coe_finset, List.toFinset_card_of_nodup (nodup_cons.mpr
          ⟨hnot, hfound.nodup_ids⟩), length_cons, List.length_map] at hle
        omega
    induction hx with
    | refl => exact hroom ep .refl hstart
    | tail hab hbc ih => exact hroom _ (hab.tail hbc) (hedge _ ih _ hbc)

/-- Two nodes, each the other's neighbour, at distances 0 and 1. -/
def two_nodes : ∀ q, Ask.Answer ℕ q
  | .dist_to_query _ e => .ok e
  | .dist_between _ _ => .ok 1
  | .for_each_neighbor e _ => .ok [1 - e]

theorem search_layer_spec_two_nodes :
    ∃ w, Program.eval two_nodes (search_layer 2 [] [1] 1 0) = .ok w ∧ w.length ≤ 1 ∧
      ∃ c, w.head? = some c ∧ c.dist ≤ 1 := by
  obtain ⟨w, hw, hlen, -, -, -, hhead, -⟩ := search_layer_spec two_nodes 2 [] 1 0 (· < 2) id 1
    (fun _ h => h) (fun _ _ => rfl) (fun e _ => ⟨_, rfl, by simp⟩) (by decide) le_rfl
  exact ⟨w, hw, hlen, hhead⟩

section Descent

variable {σ : Type} {rely : σ → σ → Prop} {answer : σ → ∀ q, Ask.Answer D q} {n : ℕ}
  {query : List F32} {G : ℕ → σ → NodeId → Prop} {d : NodeId → D}

/-- The descent comes to a node that has the levels below. -/
theorem greedy_descent_yields (hS : ∀ l, Searchable rely answer n query l (G l) d)
    (hmono : ∀ l l' s e, l' ≤ l → G l s e → G l' s e) {ls : List ℕ} (hls : ls.Pairwise (· > ·))
    {base : ℕ} (hbase : ∀ l ∈ ls, base ≤ l) {s : σ} {ep : NodeId} (hep : ∀ l ∈ ls, G l s ep)
    (hepb : G base s ep) :
    Yields rely answer (fun t e => G base t e) (greedy_descent n query ls ep) s := by
  induction ls generalizing s ep with
  | nil => exact yields_pure fun t hst => (hS base).stable s t ep hst hepb
  | cons l ls ih =>
    obtain ⟨hlt, hls⟩ := List.pairwise_cons.mp hls
    obtain ⟨hbl, hbase⟩ := forall_mem_cons.mp hbase
    have heps : ∀ x ∈ [ep], G l s x := by
      intro x hx
      rw [List.mem_singleton.mp hx]
      exact hep l (.head _)
    refine Yields.bind (hS l).refl (hS l).trans
      (search_layer_yields (hS l) heps (List.nodup_singleton ep) (List.cons_ne_nil ep [])
        (le_refl 1)) ?_
    intro t w _ hfound
    obtain ⟨c, hc, -, hlevel⟩ := hfound.head
    refine yields_ofExcept_bind hc ?_
    exact ih hls hbase (fun l' hl' => hmono l l' t c.id (hlt l' hl').le hlevel)
      (hmono l base t c.id hbl hlevel)

end Descent

/-! ## What is selected -/

section Selection

variable {σ : Type} {rely : σ → σ → Prop} {answer : σ → ∀ q, Ask.Answer D q} {limit : ℕ}
  {G : σ → NodeId → Prop} {d : NodeId → NodeId → D} {s : σ}

/-- What a selection relies on: the nodes stay, and nothing fails at them. -/
structure Selectable (rely : σ → σ → Prop) (answer : σ → ∀ q, Ask.Answer D q)
    (G : σ → NodeId → Prop) (d : NodeId → NodeId → D) : Prop where
  refl : ∀ s, rely s s
  trans : ∀ r s t, rely r s → rely s t → rely r t
  stable : ∀ s t e, rely s t → G s e → G t e
  dist : ∀ s a b, G s a → G s b → answer s (.dist_between a b) = .ok (d a b)

omit [LinearOrder D] in
theorem Selectable.dist_yields (hS : Selectable rely answer G d) {a b : NodeId} (ha : G s a)
    (hb : G s b) : Yields rely answer (fun _ x => x = d a b) (dist_between a b) s := by
  refine yields_ask_bind fun t hst => ?_
  exact yields_ofExcept (hS.dist t a b (hS.stable s t a hst ha) (hS.stable s t b hst hb))
    fun _ _ => rfl

theorem shadowed_yields (hS : Selectable rely answer G d) {c : Cand D} (hc : G s c.id)
    {kept : List (Cand D)} (hkept : ∀ r ∈ kept, G s r.id) :
    Yields rely answer (fun _ _ => True) (shadowed c kept) s := by
  induction kept generalizing s with
  | nil => exact yields_pure fun _ _ => trivial
  | cons r kept ih =>
    obtain ⟨hr, hkept⟩ := forall_mem_cons.mp hkept
    refine Yields.bind hS.refl hS.trans (hS.dist_yields hc hr) fun t x hst _ => ?_
    split_ifs
    · exact yields_pure fun _ _ => trivial
    · exact ih (hS.stable s t _ hst hc) fun y hy => hS.stable s t _ hst (hkept y hy)

/-- The kept and the occluded are among the candidates, each as often. -/
theorem prune_yields (hS : Selectable rely answer G d) {sorted kept occluded : List (Cand D)}
    (hsorted : ∀ c ∈ sorted, G s c.id) (hkept : ∀ c ∈ kept, G s c.id) (hlen : kept.length ≤ limit) :
    Yields rely answer (fun _ p => p.1.length ≤ limit ∧
        (p.1 ++ p.2).Subperm (kept ++ occluded ++ sorted))
      (prune limit sorted kept occluded) s := by
  induction sorted generalizing kept occluded s with
  | nil =>
    refine yields_pure fun _ _ => ⟨hlen, ?_⟩
    rw [List.append_nil]
  | cons c sorted ih =>
    obtain ⟨hc, hsorted⟩ := forall_mem_cons.mp hsorted
    rw [prune]
    split_ifs with hfull
    · refine yields_pure fun _ _ => ⟨hlen, ?_⟩
      exact (List.sublist_append_left _ _).subperm
    · refine Yields.bind hS.refl hS.trans (shadowed_yields hS hc hkept)
        fun t shadow hst _ => ?_
      have hsorted_t : ∀ x ∈ sorted, G t x.id := fun x hx => hS.stable s t _ hst (hsorted x hx)
      have hkept_t : ∀ x ∈ kept, G t x.id := fun x hx => hS.stable s t _ hst (hkept x hx)
      split_ifs
      · refine (ih hsorted_t hkept_t hlen).conseq hS.trans fun _ p _ ⟨hle, hsub⟩ => ⟨hle, ?_⟩
        rw [← append_assoc, append_assoc _ [c], List.singleton_append] at hsub
        exact hsub
      · have hkept' : ∀ x ∈ kept ++ [c], G t x.id := by
          intro x hx
          rcases List.mem_append.mp hx with hx | hx
          · exact hkept_t x hx
          · rw [List.mem_singleton.mp hx]
            exact hS.stable s t _ hst hc
        have hlen' : (kept ++ [c]).length ≤ limit := by
          rw [List.length_append, List.length_singleton]
          omega
        refine (ih hsorted_t hkept' hlen').conseq hS.trans fun _ p _ ⟨hle, hsub⟩ => ⟨hle, ?_⟩
        refine hsub.trans (List.Perm.subperm ?_)
        rw [append_assoc, append_assoc, append_assoc, List.singleton_append]
        exact (List.perm_middle.symm).append_left kept

omit [LinearOrder D] in
theorem refill_sublist (out occluded : List (Cand D)) :
    (refill limit out occluded).Sublist (out ++ occluded) := by
  induction occluded generalizing out with
  | nil => exact List.sublist_append_left _ _
  | cons c occluded ih =>
    rw [refill]
    split_ifs
    · exact List.sublist_append_left _ _
    · have h := ih (out ++ [c])
      rwa [append_assoc, List.singleton_append] at h

omit [LinearOrder D] in
theorem length_refill_le {out occluded : List (Cand D)} (h : out.length ≤ limit) :
    (refill limit out occluded).length ≤ limit := by
  induction occluded generalizing out with
  | nil => exact h
  | cons c occluded ih =>
    rw [refill]
    split_ifs with hfull
    · exact h
    · apply ih
      rw [List.length_append, List.length_singleton]
      omega

/-- What a selection returns: at most `limit` of the candidates, in strictly ascending order. -/
structure Selected (candidates : List (Cand D)) (limit : ℕ) (ids : List NodeId) : Prop where
  ascending : ids.Pairwise (· < ·)
  length_le : ids.length ≤ limit
  mem : ∀ i ∈ ids, ∃ c ∈ candidates, c.id = i

omit [LinearOrder D] in
theorem Selected.of_subperm {candidates chosen : List (Cand D)}
    (hnodup : (candidates.map Cand.id).Nodup) (hsub : chosen.Subperm candidates)
    (hlen : chosen.length ≤ limit) : Selected candidates limit (sorted_ids chosen) := by
  have hperm : (sorted_ids chosen).Perm (chosen.map Cand.id) := List.perm_insertionSort _ _
  have hids : (chosen.map Cand.id).Nodup := by
    obtain ⟨l, hl, hsublist⟩ := hsub
    exact (hl.map Cand.id).nodup_iff.mp (hnodup.sublist (hsublist.map Cand.id))
  refine ⟨?_, ?_, fun i hi => ?_⟩
  · have hle : (sorted_ids chosen).Pairwise (· ≤ ·) := List.pairwise_insertionSort _ _
    exact hle.imp₂ (fun _ _ hle hne => lt_of_le_of_ne hle hne) (hperm.nodup_iff.mpr hids)
  · rw [hperm.length_eq, List.length_map]
    exact hlen
  · obtain ⟨c, hc, rfl⟩ := List.mem_map.mp (hperm.mem_iff.mp hi)
    exact ⟨c, hsub.subset hc, rfl⟩

/-- **The selection.** It does not fail on nodes that stay, and returns at most `limit` of
them. -/
theorem select_neighbors_yields (hS : Selectable rely answer G d) (selection : NeighborSelection)
    {candidates : List (Cand D)} (hmem : ∀ c ∈ candidates, G s c.id)
    (hnodup : (candidates.map Cand.id).Nodup) :
    Yields rely answer (fun _ ids => Selected candidates limit ids)
      (select_neighbors selection candidates limit) s := by
  have hperm : (candidates.insertionSort (· ≤ ·)).Perm candidates := List.perm_insertionSort _ _
  have hsorted : ∀ c ∈ candidates.insertionSort (· ≤ ·), G s c.id := fun c hc =>
    hmem c (hperm.mem_iff.mp hc)
  unfold select_neighbors
  dsimp only
  split_ifs with hfew
  · exact yields_pure fun _ _ => Selected.of_subperm hnodup hperm.subperm hfew
  · match selection with
    | .Simple =>
      refine yields_pure fun _ _ => Selected.of_subperm hnodup ?_ (List.length_take_le _ _)
      exact (List.take_sublist _ _).subperm.trans hperm.subperm
    | .Heuristic =>
      refine Yields.bind hS.refl hS.trans
        (prune_yields hS hsorted (fun _ h => absurd h not_mem_nil) (Nat.zero_le limit)) ?_
      rintro t ⟨kept, occluded⟩ _ ⟨hle, hsub⟩
      refine yields_pure fun _ _ => Selected.of_subperm hnodup ?_ (length_refill_le hle)
      exact ((refill_sublist kept occluded).subperm.trans hsub).trans hperm.subperm

omit [LinearOrder D] in
theorem owner_cands_yields (hS : Selectable rely answer G d) {owner : NodeId} (howner : G s owner)
    {list : List NodeId} (hlist : ∀ c ∈ list, G s c) :
    Yields rely answer (fun t cands => cands.map Cand.id = list ∧ ∀ c ∈ cands, G t c.id)
      (owner_cands owner list : Core D (List (Cand D))) s := by
  induction list generalizing s with
  | nil => exact yields_pure fun _ _ => ⟨rfl, fun _ h => absurd h not_mem_nil⟩
  | cons c list ih =>
    obtain ⟨hc, hlist⟩ := forall_mem_cons.mp hlist
    refine Yields.bind hS.refl hS.trans (hS.dist_yields howner hc) fun t x hst _ => ?_
    refine Yields.bind hS.refl hS.trans
      (ih (hS.stable s t _ hst howner) fun y hy => hS.stable s t _ hst (hlist y hy)) ?_
    rintro u cands htu ⟨rfl, hall⟩
    refine yields_pure fun v huv => ⟨rfl, forall_mem_cons.mpr ⟨?_, ?_⟩⟩
    · exact hS.stable s v _ (hS.trans _ _ _ hst (hS.trans _ _ _ htu huv)) hc
    · exact fun y hy => hS.stable u v _ huv (hall y hy)

/-- What is left of a list after it has been shrunk. -/
theorem shrunk_yields (hS : Selectable rely answer G d) (selection : NeighborSelection)
    {owner : NodeId} (howner : G s owner) {list : List NodeId} (hlist : ∀ c ∈ list, G s c)
    (hnodup : list.Nodup) :
    Yields rely answer
      (fun _ ids => ids.Pairwise (· < ·) ∧ ids.length ≤ limit ∧ ∀ i ∈ ids, i ∈ list)
      (shrunk selection owner list limit : Core D (List NodeId)) s := by
  refine Yields.bind hS.refl hS.trans (owner_cands_yields hS howner hlist) ?_
  rintro t cands hst ⟨rfl, hall⟩
  refine (select_neighbors_yields hS selection hall hnodup).conseq hS.trans fun _ ids _ hsel => ?_
  refine ⟨hsel.ascending, hsel.length_le, fun i hi => ?_⟩
  obtain ⟨c, hc, rfl⟩ := hsel.mem i hi
  exact List.mem_map.mpr ⟨c, hc, rfl⟩

end Selection

/-! ## What the cores read -/

/-- A distance between two nodes. -/
def IsBetween : Ask → Prop
  | .dist_between _ _ => True
  | _ => False

theorem asks_shadowed (c : Cand D) (kept : List (Cand D)) :
    Asks IsBetween (shadowed c kept) := by
  induction kept with
  | nil => exact asks_pure false
  | cons r kept ih =>
    refine .bind (.bind (asks_ask trivial) fun _ => asks_ofExcept _) fun x => ?_
    split_ifs
    · exact asks_pure true
    · exact ih

theorem asks_prune (limit : ℕ) (sorted kept occluded : List (Cand D)) :
    Asks IsBetween (prune limit sorted kept occluded) := by
  induction sorted generalizing kept occluded with
  | nil => exact asks_pure _
  | cons c sorted ih =>
    rw [prune]
    split_ifs
    · exact asks_pure _
    · refine .bind (asks_shadowed c kept) fun shadow => ?_
      split_ifs
      · exact ih _ _
      · exact ih _ _

/-- A selection reads no list. -/
theorem asks_select_neighbors (selection : NeighborSelection) (candidates : List (Cand D))
    (limit : ℕ) : Asks IsBetween (select_neighbors selection candidates limit) := by
  unfold select_neighbors
  dsimp only
  split_ifs
  · exact asks_pure _
  · match selection with
    | .Simple => exact asks_pure _
    | .Heuristic => exact .bind (asks_prune _ _ _ _) fun _ => asks_pure _

omit [LinearOrder D] in
theorem asks_owner_cands (owner : NodeId) (list : List NodeId) :
    Asks IsBetween (owner_cands owner list : Core D (List (Cand D))) := by
  induction list with
  | nil => exact asks_pure _
  | cons c list ih =>
    exact .bind (.bind (asks_ask trivial) fun _ => asks_ofExcept _) fun _ =>
      .bind ih fun _ => asks_pure _

theorem asks_shrunk (selection : NeighborSelection) (owner : NodeId) (list : List NodeId)
    (limit : ℕ) : Asks IsBetween (shrunk selection owner list limit : Core D _) :=
  .bind (asks_owner_cands owner list) fun cands => asks_select_neighbors selection cands limit

end Order

end Ams.HnswAm
