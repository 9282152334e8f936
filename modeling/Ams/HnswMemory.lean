/-
The graph in memory, `Hnsw` of `pg-am-hnsw/src/graph.rs`, and what every graph built by inserts
satisfies.

The level of a new node is drawn by a generator and is an argument here. Distances are `f64`
computations; all that the code does with one is to compare it, so `Distance` leaves their
values open in any linear order, together with the test by which the cosine distance recognises
a zero vector. What decides whether a distance is an error is modelled.

`insert` first appends the node with empty lists and then goes down the levels. `Shape` is the
invariant of all the states in between: it says nothing of the entry point, which a new top node
takes only at the end. A search during an insert never comes to the new node, because at the
level it searches no list names it yet; that is why `push_edge` finds no duplicate.
-/
import Ams.HnswGraph

set_option autoImplicit false

namespace Ams.HnswAm

open Ams.Lib

/-! ## Distances -/

/-- The values of the distance functions. -/
structure Distance (D : Type) where
  value : Metric → List F32 → List F32 → D
  zero_norm : List F32 → Bool

def validate_pair (a b : List F32) : Result Unit := do
  failIf (a.length ≠ b.length) (invalid_argument
    s!"dimension mismatch: {a.length} vs {b.length}")
  failIf (a = []) (invalid_argument "dim = 0 vector")
  (a.zip b).zipIdx.forM fun (p, i) =>
    failIf (p.1.is_finite = false ∨ p.2.is_finite = false) (invalid_argument
      s!"non-finite component (NaN or ±inf) at index {i} (§5: entry rejection is the only defense)")

variable {D : Type}

/-- `Metric::distance`. -/
def Distance.distance (δ : Distance D) (metric : Metric) (a b : List F32) : Result D := do
  validate_pair a b
  failIf (metric = .Cosine ∧ (δ.zero_norm a ∨ δ.zero_norm b)) (.err .ZeroVector)
  return δ.value metric a b

/-- `Result::expect`. -/
def expect_ok {α : Type} : Result α → Result α
  | .ok a => .ok a
  | .error _ => .error .panic

/-! ## The graph -/

structure Hnsw where
  dim : UInt16
  metric : Metric
  params : HnswParams
  selection : NeighborSelection
  vectors : List F32
  levels : List ℕ
  adjacency : List (List (List NodeId))
  entry_point : Option NodeId
  max_level : ℕ
  read_only : Bool
deriving DecidableEq

/-- `⌊53·ln 2 / ln m⌋`, the greatest level that is drawn. -/
def l_max (m : UInt16) : ℕ := Nat.log m.toNat (2 ^ 53)

/-- The levels of `(lo..=hi).rev()`. -/
def levels_down (lo hi : ℕ) : List ℕ := (List.range' lo (hi + 1 - lo)).reverse

namespace Hnsw

def build (dim : UInt16) (metric : Metric) (params : HnswParams) (selection : NeighborSelection) :
    Result Hnsw := do
  failIf (dim.toNat = 0)
    (invalid_argument "dim = 0 graph (§5: rejected at every entry point)")
  return ⟨dim, metric, params, selection, [], [], [], none, 0, false⟩

def node_count (g : Hnsw) : ℕ := g.levels.length

def level (g : Hnsw) (node : NodeId) : Result ℕ := index g.levels node

/-- The components of a node in the arena. -/
def components (g : Hnsw) (node : NodeId) : List F32 :=
  (g.vectors.drop (node * g.dim.toNat)).take g.dim.toNat

def vector (g : Hnsw) (node : NodeId) : Result (List F32) :=
  if node * g.dim.toNat + g.dim.toNat ≤ g.vectors.length then .ok (g.components node)
  else .error .panic

/-- The list of a node on a level, if it has the level. -/
def list? (g : Hnsw) (node : NodeId) (level : ℕ) : Option (List NodeId) :=
  g.adjacency[node]?.bind fun lists => lists[level]?

def neighbors (g : Hnsw) (node : NodeId) (level : ℕ) : Result (List NodeId) :=
  expect (g.list? node level)

/-- The graph with another list. -/
def set_list (g : Hnsw) (node : NodeId) (level : ℕ) (list : List NodeId) : Hnsw :=
  { g with adjacency := g.adjacency.modify node fun lists => lists.set level list }

/-- `*neighbors_mut(node, level) = list`. -/
def set_neighbors (g : Hnsw) (node : NodeId) (level : ℕ) (list : List NodeId) : Result Hnsw := do
  let _ ← g.neighbors node level
  return g.set_list node level list

def node_adjacency (g : Hnsw) (node : NodeId) : Result (List (List NodeId)) :=
  index g.adjacency node

def m_max (g : Hnsw) (level : ℕ) : ℕ := if level = 0 then g.params.m_max0.toNat else g.params.m.toNat

/-- `GraphAccess for Hnsw`. -/
def answer (δ : Distance D) (g : Hnsw) : ∀ q, Ask.Answer D q
  | .dist_to_query query node => do
    let v ← g.vector node
    expect_ok (δ.distance g.metric query v)
  | .dist_between a b => do
    let va ← g.vector a
    let vb ← g.vector b
    expect_ok (δ.distance g.metric va vb)
  | .for_each_neighbor node level => g.neighbors node level

def validate_entry_vector (δ : Distance D) (g : Hnsw) (v : List F32) (what : String) :
    Result Unit := do
  failIf (v.length ≠ g.dim.toNat) (invalid_argument
    s!"{what}: vector has {v.length} components, graph dim is {g.dim} (§3: same graph never mixes dimensions)")
  let _ ← δ.distance g.metric v v

section Order

variable [LinearOrder D] (δ : Distance D)

def search_layer (g : Hnsw) (query : List F32) (entry_points : List NodeId) (ef level : ℕ) :
    Result (List (Cand D)) :=
  Program.eval (g.answer δ) (HnswAm.search_layer g.node_count query entry_points ef level)

def select_neighbors (g : Hnsw) (candidates : List (Cand D)) (limit : ℕ) : Result (List NodeId) :=
  Program.eval (g.answer δ) (HnswAm.select_neighbors g.selection candidates limit)

/-- The list is ascending, so that the binary search finds what is in it. A duplicate is a
failed debug assertion. -/
def push_edge (g : Hnsw) (node : NodeId) (level : ℕ) (target : NodeId) : Result Hnsw := do
  let list ← g.neighbors node level
  failIf (target ∈ list) .panic
  g.set_neighbors node level (list.orderedInsert (· ≤ ·) target)

def shrink (g : Hnsw) (owner : NodeId) (level : ℕ) : Result Hnsw := do
  let list ← g.neighbors owner level
  let kept ← Program.eval (g.answer δ) (shrunk g.selection owner list (g.m_max level))
  g.set_neighbors owner level kept

/-- The greedy descent (`ef = 1`) through the levels. -/
def descend (g : Hnsw) (query : List F32) : List ℕ → NodeId → Result NodeId
  | [], ep => .ok ep
  | l :: ls, ep => do
    let w ← g.search_layer δ query [ep] 1 l
    let c ← index w 0
    g.descend query ls c.id

/-- The backward edge from a selected neighbour. -/
def connect_neighbor (g : Hnsw) (id : NodeId) (l : ℕ) (nb : NodeId) : Result Hnsw := do
  let g ← g.push_edge nb l id
  let list ← g.neighbors nb l
  if g.m_max l < list.length then g.shrink δ nb l else return g

/-- The loop of `insert` over the selected neighbours. -/
def connect_neighbors (id : NodeId) (l : ℕ) : List NodeId → Hnsw → Result Hnsw
  | [], g => .ok g
  | nb :: nbs, g => do
    let g ← g.connect_neighbor δ id l nb
    connect_neighbors id l nbs g

/-- The loop of `insert` over the levels of the new node. -/
def connect (vector : List F32) (id : NodeId) : List ℕ → NodeId → Hnsw → Result Hnsw
  | [], _, g => .ok g
  | l :: ls, ep, g => do
    let w ← g.search_layer δ vector [ep] g.params.ef_construction.toNat l
    let neighbors ← g.select_neighbors δ w g.params.m.toNat
    let g ← connect_neighbors δ id l neighbors g
    let g ← g.set_neighbors id l neighbors
    let c ← index w 0
    connect vector id ls c.id g

/-- The graph with a new node that has no neighbours. -/
def append (g : Hnsw) (vector : List F32) (level : ℕ) : Hnsw :=
  { g with
    vectors := g.vectors ++ vector
    levels := g.levels ++ [level]
    adjacency := g.adjacency ++ [List.replicate (level + 1) []] }

/-- The graph with another entry point. -/
def crown (g : Hnsw) (id : NodeId) (level : ℕ) : Hnsw :=
  { g with entry_point := some id, max_level := level }

/-- `insert` after the node has been appended. -/
def link (g : Hnsw) (vector : List F32) (id : NodeId) (level : ℕ) : Result Hnsw :=
  match g.entry_point with
  | none => .ok (g.crown id level)
  | some ep => do
    let ep ← g.descend δ vector (levels_down (level + 1) g.max_level) ep
    let g ← connect δ vector id (levels_down 0 (min level g.max_level)) ep g
    return if g.max_level < level then g.crown id level else g

/-- `insert`, with the level that is drawn. -/
def insert (g : Hnsw) (vector : List F32) (level : ℕ) : Result (Hnsw × NodeId) := do
  failIf (g.read_only = true) (.err (.InvalidOperation
    "snapshot-loaded graph is read-only: continuation-insert semantics are an open question (tech-selection v1.6 pending, coding plan Stage C conservative default)"))
  g.validate_entry_vector δ vector "insert"
  failIf (g.node_count = 4294967295) (.err (.InvalidOperation
    "NodeId space (u32) exhausted; NodeId::INVALID must stay unallocated (§3)"))
  let id := g.node_count
  let g ← (g.append vector level).link δ vector id level
  return (g, id)

def search (g : Hnsw) (query : List F32) (k : ℕ) (ef : Option ℕ) : Result (List (NodeId × D)) := do
  g.validate_entry_vector δ query "search"
  let ef := ef.getD g.params.ef_search_default.toNat
  failIf (ef < k) (invalid_argument
    s!"ef = {ef} < k = {k} (§4.4: the beam must fit the result set; this is the only per-query invariant)")
  match g.entry_point with
  | none => return []
  | some ep =>
    if k = 0 then return []
    else
      let ep ← g.descend δ query (levels_down 1 g.max_level) ep
      let w ← g.search_layer δ query [ep] ef 0
      return (w.take k).map fun c => (c.id, c.dist)

end Order

end Hnsw

/-! ## The invariant -/

/-- A vector the metric takes. -/
structure ValidVector (δ : Distance D) (metric : Metric) (dim : UInt16) (v : List F32) : Prop where
  length_eq : v.length = dim.toNat
  ne_nil : v ≠ []
  finite : ∀ x ∈ v, x.is_finite = true
  nonzero : metric = .Cosine → δ.zero_norm v = false

namespace Hnsw

/-- The node is there and has the level. -/
def HasLevel (g : Hnsw) (e : NodeId) (l : ℕ) : Prop := ∃ top, g.levels[e]? = some top ∧ l ≤ top

/-- A list as it may stand in the graph. -/
structure Adjacent (g : Hnsw) (i : NodeId) (l : ℕ) (list : List NodeId) : Prop where
  ascending : list.Pairwise (· < ·)
  no_loop : i ∉ list
  degree : list.length ≤ g.m_max l
  target : ∀ x ∈ list, g.HasLevel x l

structure Shape (δ : Distance D) (g : Hnsw) : Prop where
  vectors_length : g.vectors.length = g.node_count * g.dim.toNat
  vectors : ∀ i < g.node_count, ValidVector δ g.metric g.dim (g.components i)
  adjacency_length : g.adjacency.length = g.node_count
  heights : ∀ (i : ℕ) (lists : List (List NodeId)), g.adjacency[i]? = some lists →
    g.levels[i]? = some (lists.length - 1) ∧
    0 < lists.length
  lists : ∀ i l list, g.list? i l = some list → g.Adjacent i l list

/-- The entry point is a highest node. -/
structure Entry (g : Hnsw) : Prop where
  empty : g.entry_point = none → g.node_count = 0 ∧ g.max_level = 0
  top : ∀ ep, g.entry_point = some ep → g.levels[ep]? = some g.max_level
  highest : ∀ top ∈ g.levels, top ≤ g.max_level

/-- What every graph built by inserts satisfies. -/
structure GraphOk (δ : Distance D) (g : Hnsw) : Prop where
  shape : Shape δ g
  entry : Entry g
  dim : g.dim.toNat ≠ 0
  count : g.node_count ≤ 4294967295
  level_le : ∀ top ∈ g.levels, top ≤ l_max g.params.m

end Hnsw

/-! ## Distances of valid vectors -/

theorem validate_pair_eq_ok {a b : List F32} {u : Unit} :
    validate_pair a b = .ok u ↔ a.length = b.length ∧ a ≠ [] ∧ (∀ x ∈ a, x.is_finite = true) ∧
      ∀ x ∈ b, x.is_finite = true := by
  unfold validate_pair
  simp only [bind_eq_ok, failIf_eq_ok, exists_const, forM_eq_ok, not_or, ne_eq, not_not,
    Bool.not_eq_false]
  refine and_congr_right fun hlen => and_congr_right fun _ => ?_
  constructor
  · intro h
    have hpair : ∀ p ∈ a.zip b, p.1.is_finite = true ∧ p.2.is_finite = true := by
      intro p hp
      obtain ⟨i, hi⟩ := List.mem_iff_getElem?.mp hp
      exact h (p, i) (List.mk_mem_zipIdx_iff_getElem?.mpr hi)
    constructor
    · intro x hx
      rw [← List.map_fst_zip hlen.le] at hx
      obtain ⟨p, hp, rfl⟩ := List.mem_map.mp hx
      exact (hpair p hp).1
    · intro x hx
      rw [← List.map_snd_zip hlen.ge] at hx
      obtain ⟨p, hp, rfl⟩ := List.mem_map.mp hx
      exact (hpair p hp).2
  · rintro ⟨ha, hb⟩ ⟨⟨x, y⟩, i⟩ hp
    have hmem := List.mem_of_getElem? (List.mk_mem_zipIdx_iff_getElem?.mp hp)
    exact ⟨ha x (List.of_mem_zip hmem).1, hb y (List.of_mem_zip hmem).2⟩

theorem ValidVector.distance {δ : Distance D} {metric : Metric} {dim : UInt16} {a b : List F32}
    (ha : ValidVector δ metric dim a) (hb : ValidVector δ metric dim b) :
    δ.distance metric a b = .ok (δ.value metric a b) := by
  unfold Distance.distance
  simp only [bind_eq_ok, failIf_eq_ok, exists_const, pure_eq_ok, validate_pair_eq_ok, and_true]
  refine ⟨⟨ha.length_eq.trans hb.length_eq.symm, ha.ne_nil, ha.finite, hb.finite⟩, ?_⟩
  rintro ⟨hcos, hzero | hzero⟩
  · exact Bool.false_ne_true ((ha.nonzero hcos).symm.trans hzero)
  · exact Bool.false_ne_true ((hb.nonzero hcos).symm.trans hzero)

/-- The distance of a vector to itself is the check that it is valid. -/
theorem ValidVector.of_distance {δ : Distance D} {metric : Metric} {dim : UInt16} {v : List F32}
    {d : D} (hlen : v.length = dim.toNat) (h : δ.distance metric v v = .ok d) :
    ValidVector δ metric dim v := by
  unfold Distance.distance at h
  simp only [bind_eq_ok, failIf_eq_ok, exists_const, pure_eq_ok, validate_pair_eq_ok] at h
  obtain ⟨⟨-, hne, hfin, -⟩, hzero, -⟩ := h
  refine ⟨hlen, hne, hfin, fun hcos => ?_⟩
  rw [Bool.eq_false_iff]
  exact fun h => hzero ⟨hcos, .inl h⟩

theorem Distance.distance_noPanic (δ : Distance D) (metric : Metric) (a b : List F32) :
    NoPanic (δ.distance metric a b) := by
  refine .bind (.check <| .check <| .forM fun p _ => ?_)
    fun _ _ => .check (.ok _)
  exact .failIf _

namespace Hnsw

theorem validate_entry_vector_eq_ok {δ : Distance D} {g : Hnsw} {v : List F32} {what : String}
    {u : Unit} : g.validate_entry_vector δ v what = .ok u ↔ ValidVector δ g.metric g.dim v := by
  unfold validate_entry_vector
  simp only [bind_eq_ok, failIf_eq_ok, exists_const, pure_eq_ok, ne_eq, not_not]
  constructor
  · rintro ⟨hlen, d, hd, -⟩
    exact .of_distance hlen hd
  · intro h
    exact ⟨h.length_eq, _, h.distance h, trivial⟩

/-! ## Lists -/

variable {δ : Distance D} {g g' : Hnsw} {i e id : NodeId} {l : ℕ} {list : List NodeId}

@[simp] theorem neighbors_eq_ok : g.neighbors i l = .ok list ↔ g.list? i l = some list :=
  expect_eq_ok

theorem list?_set_list {old : List NodeId} (h : g.list? i l = some old) (j : NodeId) (l' : ℕ) :
    (g.set_list i l list).list? j l' = if j = i ∧ l' = l then some list else g.list? j l' := by
  unfold list? set_list
  rw [List.getElem?_modify]
  obtain ⟨lists, hlists, hl⟩ := Option.bind_eq_some_iff.mp h
  by_cases hj : j = i
  · subst hj
    have hlt := (List.getElem?_eq_some_iff.mp hl).1
    by_cases hl' : l' = l
    · subst hl'
      simp [hlists, hlt]
    · simp [hlists, hl', List.getElem?_set_ne (Ne.symm hl')]
  · have hne : i ≠ j := fun h => hj h.symm
    simp [hj, hne]

/-- Only lists differ. -/
def Frame (g g' : Hnsw) : Prop := g' = { g with adjacency := g'.adjacency }

theorem Frame.refl (g : Hnsw) : Frame g g := rfl

theorem Frame.trans {g₁ g₂ g₃ : Hnsw} (h : Frame g₁ g₂) (h' : Frame g₂ g₃) : Frame g₁ g₃ := by
  unfold Frame at h h' ⊢
  rw [h'.trans (congrArg (fun g : Hnsw => { g with adjacency := g₃.adjacency }) h)]

theorem Frame.set_list (g : Hnsw) (i : NodeId) (l : ℕ) (list : List NodeId) :
    Frame g (g.set_list i l list) := rfl

/-- What does not change when the node is linked. -/
structure SameNodes (g g' : Hnsw) : Prop where
  levels : g'.levels = g.levels
  vectors : g'.vectors = g.vectors
  dim : g'.dim = g.dim
  metric : g'.metric = g.metric
  params : g'.params = g.params
  read_only : g'.read_only = g.read_only

theorem Frame.sameNodes (h : Frame g g') : SameNodes g g' := by
  unfold Frame at h
  rw [h]
  exact ⟨rfl, rfl, rfl, rfl, rfl, rfl⟩

theorem Frame.hasLevel (h : Frame g g') : g'.HasLevel e l ↔ g.HasLevel e l := by
  rw [HasLevel, h.sameNodes.levels, ← HasLevel]

theorem Frame.m_max (h : Frame g g') : g'.m_max l = g.m_max l := by
  rw [Hnsw.m_max, h.sameNodes.params, ← Hnsw.m_max]

theorem Frame.adjacent (h : Frame g g') : g'.Adjacent i l list ↔ g.Adjacent i l list := by
  constructor
  · rintro ⟨hasc, hloop, hdeg, htarget⟩
    exact ⟨hasc, hloop, h.m_max ▸ hdeg, fun x hx => h.hasLevel.mp (htarget x hx)⟩
  · rintro ⟨hasc, hloop, hdeg, htarget⟩
    exact ⟨hasc, hloop, h.m_max.symm ▸ hdeg, fun x hx => h.hasLevel.mpr (htarget x hx)⟩

theorem HasLevel.lt (h : g.HasLevel e l) : e < g.node_count := by
  obtain ⟨top, htop, -⟩ := h
  exact (List.getElem?_eq_some_iff.mp htop).1

theorem HasLevel.mono {l' : ℕ} (h : g.HasLevel e l) (hle : l' ≤ l) : g.HasLevel e l' := by
  obtain ⟨top, htop, hl⟩ := h
  exact ⟨top, htop, hle.trans hl⟩

/-- A node has a list for each of its levels. -/
theorem Shape.list_of_hasLevel (hg : Shape δ g) (h : g.HasLevel e l) :
    ∃ list, g.list? e l = some list := by
  obtain ⟨top, htop, hl⟩ := h
  have hlt : e < g.adjacency.length := by
    rw [hg.adjacency_length]
    exact (List.getElem?_eq_some_iff.mp htop).1
  obtain ⟨hlevel, hpos⟩ := hg.heights e _ (List.getElem?_eq_getElem hlt)
  have htop' := Option.mem_unique htop hlevel
  have hll : l < g.adjacency[e].length := by omega
  refine ⟨g.adjacency[e][l], ?_⟩
  rw [list?, List.getElem?_eq_getElem hlt, Option.bind_some, List.getElem?_eq_getElem hll]

theorem Shape.hasLevel_of_list (hg : Shape δ g) (h : g.list? e l = some list) :
    g.HasLevel e l := by
  obtain ⟨lists, hlists, hl⟩ := Option.bind_eq_some_iff.mp h
  have hlt := (List.getElem?_eq_some_iff.mp hl).1
  obtain ⟨hlevel, hpos⟩ := hg.heights e lists hlists
  exact ⟨_, hlevel, by omega⟩

/-- **Rewriting a list** keeps the shape when the new list may stand there. -/
theorem Shape.set_list (hg : Shape δ g) {old : List NodeId} (h : g.list? i l = some old)
    (hnew : g.Adjacent i l list) : Shape δ (g.set_list i l list) where
  vectors_length := hg.vectors_length
  vectors := hg.vectors
  adjacency_length := by
    rw [Hnsw.set_list, List.length_modify]
    exact hg.adjacency_length
  heights j lists hj := by
    rw [Hnsw.set_list, List.getElem?_modify] at hj
    obtain ⟨lists', hlists', rfl⟩ := Option.map_eq_some_iff.mp hj
    have hheight := hg.heights j lists' hlists'
    split_ifs
    · rw [List.length_set]
      exact hheight
    · exact hheight
  lists j l' list' hj := by
    rw [list?_set_list h] at hj
    rw [(Frame.set_list g i l list).adjacent]
    split_ifs at hj with hpos
    · obtain ⟨rfl, rfl⟩ := hpos
      exact Option.some.inj hj ▸ hnew
    · exact hg.lists j l' list' hj

theorem Shape.vector_eq (hg : Shape δ g) (h : e < g.node_count) :
    g.vector e = .ok (g.components e) := by
  unfold vector
  rw [if_pos]
  rw [hg.vectors_length, ← Nat.succ_mul]
  exact Nat.mul_le_mul_right _ h

/-! ## Searching -/

/-- The nodes a search at level `l` may come to when no list of the level names `id`. -/
def Region (g : Hnsw) (id : NodeId) (l : ℕ) (e : NodeId) : Prop := g.HasLevel e l ∧ e ≠ id

/-- No list on the level names `id`, but perhaps its own. -/
def Fresh (g : Hnsw) (id : NodeId) (l : ℕ) : Prop :=
  ∀ e list, e ≠ id → g.list? e l = some list → id ∉ list

variable {query : List F32} {ef : ℕ}

theorem Shape.searchable (hg : Shape δ g) (hq : ValidVector δ g.metric g.dim query)
    (hfresh : Fresh g id l) :
    Searchable (fun _ _ => True) (fun _ : Unit => g.answer δ) g.node_count query l
      (fun _ e => g.Region id l e) (fun e => δ.value g.metric query (g.components e)) where
  refl _ := trivial
  trans _ _ _ _ _ := trivial
  stable _ _ _ _ h := h
  lt _ _ h := h.1.lt
  dist _ e h := by
    have hv := hg.vectors e h.1.lt
    rw [answer, hg.vector_eq h.1.lt]
    change expect_ok (δ.distance g.metric query (g.components e)) = _
    rw [hq.distance hv]
    rfl
  neighbors _ e h := by
    obtain ⟨list, hlist⟩ := hg.list_of_hasLevel h.1
    refine ⟨list, neighbors_eq_ok.mpr hlist, fun x hx _ => ?_⟩
    refine ⟨(hg.lists e l list hlist).target x hx, ?_⟩
    rintro rfl
    exact hfresh e list h.2 hlist hx

theorem Shape.selectable (hg : Shape δ g) :
    Selectable (fun _ _ => True) (fun _ : Unit => g.answer δ) (fun _ e => e < g.node_count)
      (fun a b => δ.value g.metric (g.components a) (g.components b)) where
  refl _ := trivial
  trans _ _ _ _ _ := trivial
  stable _ _ _ _ h := h
  dist _ a b ha hb := by
    rw [answer, hg.vector_eq ha, hg.vector_eq hb]
    change expect_ok (δ.distance g.metric (g.components a) (g.components b)) = _
    rw [(hg.vectors a ha).distance (hg.vectors b hb)]
    rfl

variable [LinearOrder D]

/-- What a search at a level finds. -/
abbrev FoundAt (δ : Distance D) (g : Hnsw) (query : List F32) (id : NodeId) (ef l : ℕ)
    (w : List (Cand D)) : Prop :=
  Found (g.Region id l) (fun e => δ.value g.metric query (g.components e)) ef w

theorem Shape.search_layer (hg : Shape δ g) (hq : ValidVector δ g.metric g.dim query)
    (hfresh : Fresh g id l) (he : g.Region id l e) (hef : 1 ≤ ef) :
    ∃ w, g.search_layer δ query [e] ef l = .ok w ∧ FoundAt δ g query id ef l w := by
  refine (search_layer_yields (s := ()) (hg.searchable hq hfresh) ?_ (List.nodup_singleton e)
    (List.cons_ne_nil e []) hef).eval (fun _ => trivial)
  intro x hx
  rw [List.mem_singleton.mp hx]
  exact he

theorem Shape.select_neighbors (hg : Shape δ g) {w : List (Cand D)}
    (hw : FoundAt δ g query id ef l w) (limit : ℕ) :
    ∃ ids, g.select_neighbors δ w limit = .ok ids ∧ Selected w limit ids :=
  (select_neighbors_yields (s := ()) hg.selectable g.selection (fun c hc => (hw.mem c hc).1.1.lt)
    hw.nodup_ids).eval (fun _ => trivial)

/-- The descent comes to a node that has the levels below. -/
theorem Shape.descend (hg : Shape δ g) (hq : ValidVector δ g.metric g.dim query)
    (hfresh : ∀ l, Fresh g id l) {ls : List ℕ} (hls : ls.Pairwise (· > ·)) (base : ℕ)
    (hbase : ∀ l ∈ ls, base ≤ l) (hne : e ≠ id) (he : ∀ l ∈ ls, g.HasLevel e l)
    (heb : g.HasLevel e base) :
    ∃ e', g.descend δ query ls e = .ok e' ∧ g.HasLevel e' base ∧ e' ≠ id := by
  induction ls generalizing e with
  | nil => exact ⟨e, rfl, heb, hne⟩
  | cons l ls ih =>
    obtain ⟨hlt, hls⟩ := List.pairwise_cons.mp hls
    obtain ⟨hbl, hbase⟩ := List.forall_mem_cons.mp hbase
    obtain ⟨w, hw, hfound⟩ := hg.search_layer hq (hfresh l)
      ⟨he l (.head _), hne⟩ (le_refl 1)
    obtain ⟨c, hc, -, hlevel, hcne⟩ := hfound.head
    obtain ⟨e', hdesc, hok⟩ := ih hls hbase hcne
      (fun l' hl' => hlevel.mono (hlt l' hl').le) (hlevel.mono hbl)
    refine ⟨e', ?_, hok⟩
    rw [Hnsw.descend, hw]
    change (index w 0 >>= fun c => Hnsw.descend δ g query ls c.id) = .ok e'
    rw [hc]
    exact hdesc

/-! ## Connecting a new node -/

/-- **One backward edge.** A list that does not name the new node gets it, or loses another one
for it, and nothing else changes. -/
theorem Shape.connect_neighbor (hg : Shape δ g) (hi : g.HasLevel i l) (hne : i ≠ id)
    (hid : g.HasLevel id l) (hfresh : ∀ list, g.list? i l = some list → id ∉ list) :
    ∃ g' list', g.connect_neighbor δ id l i = .ok g' ∧ Shape δ g' ∧ Frame g g' ∧
      ∀ j l', g'.list? j l' = if j = i ∧ l' = l then some list' else g.list? j l' := by
  obtain ⟨list, hlist⟩ := hg.list_of_hasLevel hi
  have hadj := hg.lists i l list hlist
  have hnot := hfresh list hlist
  have hmem : ∀ x, x ∈ list.orderedInsert (· ≤ ·) id ↔ x = id ∨ x ∈ list := fun x =>
    List.mem_orderedInsert _
  have hasc : (list.orderedInsert (· ≤ ·) id).Pairwise (· < ·) := by
    have hle : (list.orderedInsert (· ≤ ·) id).Pairwise (· ≤ ·) :=
      List.Pairwise.orderedInsert id list (hadj.ascending.imp le_of_lt)
    have hnodup : (list.orderedInsert (· ≤ ·) id).Nodup :=
      (List.perm_orderedInsert (· ≤ ·) id list).nodup_iff.mpr
        (List.nodup_cons.mpr ⟨hnot, hadj.ascending.imp ne_of_lt⟩)
    exact hle.imp₂ (fun _ _ hle hne => lt_of_le_of_ne hle hne) hnodup
  have htarget : ∀ x ∈ list.orderedInsert (· ≤ ·) id, g.HasLevel x l := by
    intro x hx
    rcases (hmem x).mp hx with rfl | hx
    · exact hid
    · exact hadj.target x hx
  have hloop : i ∉ list.orderedInsert (· ≤ ·) id := by
    intro hx
    rcases (hmem i).mp hx with h | hx
    · exact hne h
    · exact hadj.no_loop hx
  set pushed := g.set_list i l (list.orderedInsert (· ≤ ·) id) with hpushed
  have hpush : g.push_edge i l id = .ok pushed := by
    unfold push_edge set_neighbors
    simp only [bind_eq_ok, failIf_eq_ok, exists_const, neighbors_eq_ok, pure_eq_ok]
    exact ⟨list, hlist, hnot, list, hlist, rfl⟩
  have hget : ∀ j l', pushed.list? j l' =
      if j = i ∧ l' = l then some (list.orderedInsert (· ≤ ·) id) else g.list? j l' :=
    list?_set_list hlist
  have hown : pushed.list? i l = some (list.orderedInsert (· ≤ ·) id) := by
    rw [hget, if_pos ⟨rfl, rfl⟩]
  unfold Hnsw.connect_neighbor
  rw [hpush]
  change ∃ g' list', (pushed.neighbors i l >>= fun list =>
    if pushed.m_max l < list.length then pushed.shrink δ i l else pure pushed) = .ok g' ∧ _
  rw [neighbors_eq_ok.mpr hown]
  change ∃ g' list', (if pushed.m_max l < (list.orderedInsert (· ≤ ·) id).length then
    pushed.shrink δ i l else pure pushed) = .ok g' ∧ _
  by_cases hover : pushed.m_max l < (list.orderedInsert (· ≤ ·) id).length
  · -- distances do not depend on lists, so the selection runs as over the old graph
    have hanswer : ∀ q, IsBetween q → pushed.answer δ q = g.answer δ q := by
      rintro (_ | ⟨a, b⟩ | _) hq
      · exact hq.elim
      · rfl
      · exact hq.elim
    have hyields : Program.Yields (fun _ _ => True) (fun _ : Unit => g.answer δ)
        (fun _ ids => ids.Pairwise (· < ·) ∧ ids.length ≤ g.m_max l ∧
          ∀ x ∈ ids, x ∈ list.orderedInsert (· ≤ ·) id)
        (shrunk g.selection i (list.orderedInsert (· ≤ ·) id) (g.m_max l)) () :=
      shrunk_yields hg.selectable g.selection hi.lt (fun c hc => (htarget c hc).lt)
        (hasc.imp ne_of_lt)
    obtain ⟨kept, hkept, hkasc, hklen, hkmem⟩ := hyields.eval fun _ => trivial
    have hkept' : Program.eval (pushed.answer δ)
        (shrunk pushed.selection i (list.orderedInsert (· ≤ ·) id) (pushed.m_max l)) = .ok kept := by
      rw [(asks_shrunk _ _ _ _).eval_congr hanswer]
      exact hkept
    have htwice : pushed.set_list i l kept = g.set_list i l kept := by
      rw [hpushed]
      unfold Hnsw.set_list
      rw [Hnsw.mk.injEq]
      refine ⟨rfl, rfl, rfl, rfl, rfl, rfl, ?_, rfl, rfl, rfl⟩
      change List.modify (List.modify _ _ _) _ _ = _
      rw [List.modify_modify_eq]
      congr 1
      funext lists
      exact List.set_set _
    refine ⟨g.set_list i l kept, kept, ?_, ?_, Frame.set_list _ _ _ _, list?_set_list hlist⟩
    · rw [if_pos hover, ← htwice]
      unfold shrink set_neighbors
      simp only [bind_eq_ok, neighbors_eq_ok, pure_eq_ok]
      exact ⟨_, hown, kept, hkept', _, hown, rfl⟩
    · refine hg.set_list hlist ⟨hkasc, fun h => hloop (hkmem i h), hklen, ?_⟩
      exact fun x hx => htarget x (hkmem x hx)
  · refine ⟨pushed, _, by rw [if_neg hover]; rfl, ?_, Frame.set_list _ _ _ _, hget⟩
    exact hg.set_list hlist ⟨hasc, hloop, not_lt.mp hover, htarget⟩

theorem Shape.connect_neighbors (hg : Shape δ g) (hid : g.HasLevel id l) {nbs : List NodeId}
    (hnodup : nbs.Nodup) (hnbs : ∀ i ∈ nbs, g.HasLevel i l ∧ i ≠ id)
    (hfresh : ∀ i ∈ nbs, ∀ list, g.list? i l = some list → id ∉ list) :
    ∃ g', connect_neighbors δ id l nbs g = .ok g' ∧ Shape δ g' ∧ Frame g g' ∧
      ∀ j l', j ∉ nbs ∨ l' ≠ l → g'.list? j l' = g.list? j l' := by
  induction nbs generalizing g with
  | nil => exact ⟨g, rfl, hg, Frame.refl g, fun _ _ _ => rfl⟩
  | cons i nbs ih =>
    obtain ⟨⟨hi, hne⟩, hnbs⟩ := List.forall_mem_cons.mp hnbs
    obtain ⟨hfi, hfresh⟩ := List.forall_mem_cons.mp hfresh
    obtain ⟨hnot, hnodup⟩ := List.nodup_cons.mp hnodup
    obtain ⟨g₁, list', hone, hg1, hframe, hget⟩ := hg.connect_neighbor hi hne hid hfi
    have hget' : ∀ j l', j ≠ i ∨ l' ≠ l → g₁.list? j l' = g.list? j l' := by
      intro j l' h
      rw [hget, if_neg]
      rintro ⟨rfl, rfl⟩
      rcases h with h | h
      · exact h rfl
      · exact h rfl
    obtain ⟨g₂, hrest, hg2, hframe2, hget2⟩ := ih hg1 (hframe.hasLevel.mpr hid) hnodup
      (fun j hj => ⟨hframe.hasLevel.mpr (hnbs j hj).1, (hnbs j hj).2⟩)
      (fun j hj list hlist => by
        refine hfresh j hj list ?_
        rwa [hget' j l (.inl fun h => hnot (h ▸ hj))] at hlist)
    refine ⟨g₂, ?_, hg2, hframe.trans hframe2, fun j l' h => ?_⟩
    · rw [Hnsw.connect_neighbors, hone]
      exact hrest
    · rw [hget2 j l' (h.imp_left fun hj hmem => hj (List.mem_cons_of_mem i hmem))]
      exact hget' j l' (h.imp_left fun hj heq => hj (heq ▸ (.head _)))

/-- **The levels of the new node.** They are connected from the top down; what is done on one
level is not seen on those below. -/
theorem Shape.connect (hg : Shape δ g) (hq : ValidVector δ g.metric g.dim query) {ls : List ℕ}
    (hls : ls.Pairwise (· > ·)) (hid : ∀ l ∈ ls, g.HasLevel id l)
    (hfresh : ∀ l ∈ ls, Fresh g id l) (hne : e ≠ id) (he : ∀ l ∈ ls, g.HasLevel e l) :
    ∃ g', connect δ query id ls e g = .ok g' ∧ Shape δ g' ∧ Frame g g' := by
  induction ls generalizing g e with
  | nil => exact ⟨g, rfl, hg, Frame.refl g⟩
  | cons l ls ih =>
    obtain ⟨hlt, hls⟩ := List.pairwise_cons.mp hls
    obtain ⟨hidl, hid⟩ := List.forall_mem_cons.mp hid
    obtain ⟨hfl, hfresh⟩ := List.forall_mem_cons.mp hfresh
    have hef : 1 ≤ g.params.ef_construction.toNat :=
      le_trans (by norm_num) (g.params.two_le_m.trans g.params.m_le_ef_construction)
    obtain ⟨w, hw, hfound⟩ := hg.search_layer hq hfl ⟨he l (.head _), hne⟩ hef
    obtain ⟨nbs, hnbs, hsel⟩ := hg.select_neighbors hfound g.params.m.toNat
    have hregion : ∀ i ∈ nbs, g.Region id l i := by
      intro i hi
      obtain ⟨c, hc, rfl⟩ := hsel.mem i hi
      exact (hfound.mem c hc).1
    obtain ⟨g₁, hconn, hg1, hframe, hget⟩ := hg.connect_neighbors hidl
      (hsel.ascending.imp ne_of_lt) hregion
      (fun i hi list hlist => hfl i list (hregion i hi).2 hlist)
    -- the new node's own list
    obtain ⟨own, hown⟩ := hg1.list_of_hasLevel (hframe.hasLevel.mpr hidl)
    have hadj : g₁.Adjacent id l nbs := by
      refine ⟨hsel.ascending, fun hmem => (hregion id hmem).2 rfl, ?_,
        fun x hx => hframe.hasLevel.mpr (hregion x hx).1⟩
      rw [hframe.m_max]
      refine hsel.length_le.trans ?_
      unfold m_max
      split_ifs
      · exact g.params.m_le_m_max0
      · exact le_rfl
    have hg2 := hg1.set_list hown hadj
    have hframe2 : Frame g (g₁.set_list id l nbs) := hframe.trans (Frame.set_list _ _ _ _)
    have hset : g₁.set_neighbors id l nbs = .ok (g₁.set_list id l nbs) := by
      unfold set_neighbors
      rw [neighbors_eq_ok.mpr hown]
      rfl
    obtain ⟨c, hc, -, hclevel, hcne⟩ := hfound.head
    have hq2 : ValidVector δ (g₁.set_list id l nbs).metric (g₁.set_list id l nbs).dim query := by
      rw [hframe2.sameNodes.metric, hframe2.sameNodes.dim]
      exact hq
    have hfresh2 : ∀ l' ∈ ls, Fresh (g₁.set_list id l nbs) id l' := by
      intro l' hl' j list hj hlist
      have hl : l' ≠ l := (hlt l' hl').ne
      rw [list?_set_list hown, if_neg fun h => hl h.2, hget j l' (.inr hl)] at hlist
      exact hfresh l' hl' j list hj hlist
    obtain ⟨g₃, hrest, hg3, hframe3⟩ := ih hg2 hq2 hls
      (fun l' hl' => hframe2.hasLevel.mpr (hid l' hl')) hfresh2 hcne
      (fun l' hl' => hframe2.hasLevel.mpr (hclevel.mono (hlt l' hl').le))
    refine ⟨g₃, ?_, hg3, hframe2.trans hframe3⟩
    unfold Hnsw.connect
    simp only [bind_eq_ok]
    exact ⟨w, hw, nbs, hnbs, g₁, hconn, _, hset, c, hc, hrest⟩

/-! ## Inserting -/

theorem pairwise_levels_down (lo hi : ℕ) : (levels_down lo hi).Pairwise (· > ·) := by
  apply List.pairwise_reverse.mpr
  exact List.pairwise_lt_range'

theorem mem_levels_down {lo hi l : ℕ} : l ∈ levels_down lo hi ↔ lo ≤ l ∧ l ≤ hi := by
  rw [levels_down, List.mem_reverse, List.mem_range'_1]
  omega

variable {vector : List F32}

omit [LinearOrder D] in
theorem HasLevel.append (h : g.HasLevel e l) (vector : List F32) (level : ℕ) :
    (g.append vector level).HasLevel e l := by
  obtain ⟨top, htop, hl⟩ := h
  refine ⟨top, ?_, hl⟩
  rw [Hnsw.append, List.getElem?_append_left (List.getElem?_eq_some_iff.mp htop).1]
  exact htop

omit [LinearOrder D] in
/-- **A new node** without neighbours keeps the shape. -/
theorem Shape.append (hg : Shape δ g) (hv : ValidVector δ g.metric g.dim vector) (level : ℕ) :
    Shape δ (g.append vector level) := by
  have hcount : (g.append vector level).node_count = g.node_count + 1 := by
    rw [node_count, Hnsw.append, List.length_append, List.length_singleton, ← node_count]
  have hold : ∀ i < g.node_count, (g.append vector level).components i = g.components i := by
    intro i hi
    have hle : i * g.dim.toNat + g.dim.toNat ≤ g.vectors.length := by
      rw [hg.vectors_length, ← Nat.succ_mul]
      exact Nat.mul_le_mul_right _ hi
    change ((g.vectors ++ vector).drop (i * g.dim.toNat)).take g.dim.toNat = _
    rw [List.drop_append_of_le_length ((Nat.le_add_right _ _).trans hle),
      List.take_append_of_le_length]
    · rfl
    · rw [List.length_drop]
      omega
  have hnew : (g.append vector level).components g.node_count = vector := by
    unfold components Hnsw.append
    rw [← hg.vectors_length, List.drop_left, ← hv.length_eq, List.take_length]
  refine ⟨?_, ?_, ?_, ?_, ?_⟩
  · rw [hcount, Nat.succ_mul, Hnsw.append, List.length_append, hg.vectors_length, hv.length_eq]
  · intro i hi
    rw [hcount] at hi
    rcases Nat.lt_succ_iff_lt_or_eq.mp hi with hi | rfl
    · rw [hold i hi]
      exact hg.vectors i hi
    · rw [hnew]
      exact hv
  · rw [hcount, Hnsw.append, List.length_append, hg.adjacency_length, List.length_singleton]
  · intro i lists hlists
    rw [Hnsw.append, List.getElem?_append] at hlists
    rw [Hnsw.append, List.getElem?_append]
    have hlen : g.levels.length = g.adjacency.length := hg.adjacency_length.symm
    rw [hlen]
    split_ifs at hlists ⊢ with hi
    · exact hg.heights i lists hlists
    · have hzero : i - g.adjacency.length = 0 := by
        have h := (List.getElem?_eq_some_iff.mp hlists).1
        rw [List.length_singleton] at h
        omega
      rw [hzero] at hlists ⊢
      cases hlists
      rw [List.length_replicate]
      exact ⟨rfl, Nat.succ_pos level⟩
  · intro i l list hlist
    unfold list? Hnsw.append at hlist
    obtain ⟨lists, hlists, hl⟩ := Option.bind_eq_some_iff.mp hlist
    rw [List.getElem?_append] at hlists
    split_ifs at hlists with hi
    · obtain ⟨hasc, hloop, hdeg, htarget⟩ := hg.lists i l list
        (Option.bind_eq_some_iff.mpr ⟨lists, hlists, hl⟩)
      exact ⟨hasc, hloop, hdeg, fun x hx => (htarget x hx).append vector level⟩
    · -- the lists of the new node are empty
      have hmem : lists ∈ [List.replicate (level + 1) ([] : List NodeId)] :=
        List.mem_of_getElem? hlists
      rw [List.mem_singleton.mp hmem] at hl
      rw [List.eq_of_mem_replicate (List.mem_of_getElem? hl)]
      exact ⟨List.Pairwise.nil, List.not_mem_nil, Nat.zero_le _, fun _ h => absurd h List.not_mem_nil⟩

omit [LinearOrder D] in
theorem getElem?_append_levels (g : Hnsw) (vector : List F32) (level : ℕ) :
    (g.append vector level).levels[g.node_count]? = some level := by
  rw [Hnsw.append, node_count, List.getElem?_append_right le_rfl, Nat.sub_self]
  rfl

omit [LinearOrder D] in
/-- No list names the new node. -/
theorem Shape.append_fresh (hg : Shape δ g) (hv : ValidVector δ g.metric g.dim vector)
    (level l : ℕ) :
    Fresh (g.append vector level) g.node_count l := by
  intro e list hne hlist hmem
  have he : e < g.adjacency.length := by
    have hlt := ((hg.append hv level).hasLevel_of_list hlist).lt
    rw [node_count, Hnsw.append, List.length_append, List.length_singleton] at hlt
    rw [hg.adjacency_length]
    exact lt_of_le_of_ne (Nat.lt_succ_iff.mp hlt) hne
  have hold : g.list? e l = some list := by
    rw [← hlist]
    unfold list? Hnsw.append
    rw [List.getElem?_append_left he]
  exact absurd ((hg.lists e l list hold).target _ hmem).lt (lt_irrefl _)

omit [LinearOrder D] in
theorem Shape.crown (hg : Shape δ g) (id : NodeId) (level : ℕ) : Shape δ (g.crown id level) :=
  ⟨hg.vectors_length, hg.vectors, hg.adjacency_length, hg.heights, fun i l list hl =>
    have h := hg.lists i l list hl
    ⟨h.ascending, h.no_loop, h.degree, h.target⟩⟩

omit [LinearOrder D] in
/-- A highest node may become the entry point. -/
theorem Entry.crown {level : ℕ} (hid : g.levels[id]? = some level)
    (hall : ∀ top ∈ g.levels, top ≤ level) : Entry (g.crown id level) where
  empty h := absurd h (Option.some_ne_none id)
  top _ h := Option.some.inj h ▸ hid
  highest := hall

omit [LinearOrder D] in
theorem Entry.hasLevel (he : Entry g) {ep : NodeId} (hep : g.entry_point = some ep)
    (hl : l ≤ g.max_level) : g.HasLevel ep l := ⟨_, he.top ep hep, hl⟩

/-- **Linking.** The new node is connected, and becomes the entry point when it is higher. -/
theorem Shape.link (hg : Shape δ g) (hentry : Entry g) (hv : ValidVector δ g.metric g.dim vector)
    (level : ℕ) :
    ∃ g', (g.append vector level).link δ vector g.node_count level = .ok g' ∧ Shape δ g' ∧
      Entry g' ∧ SameNodes (g.append vector level) g' := by
  have hshape := hg.append hv level
  have hself := getElem?_append_levels g vector level
  have htops : ∀ max, (∀ top ∈ g.levels, top ≤ max) → level ≤ max →
      ∀ top ∈ (g.append vector level).levels, top ≤ max := by
    intro max hmax hlevel top htop
    rcases List.mem_append.mp htop with htop | htop
    · exact hmax top htop
    · exact (List.mem_singleton.mp htop).le.trans hlevel
  unfold Hnsw.link
  cases hep : g.entry_point with
  | none =>
    have hnil : g.levels = [] := List.length_eq_zero_iff.mp (hentry.empty hep).1
    refine ⟨_, by rw [show (g.append vector level).entry_point = none from hep],
      hshape.crown _ _, Entry.crown hself (htops level ?_ le_rfl), ⟨rfl, rfl, rfl, rfl, rfl, rfl⟩⟩
    rw [hnil]
    exact fun _ h => absurd h List.not_mem_nil
  | some ep =>
    have hepn : ep ≠ g.node_count :=
      Nat.ne_of_lt (List.getElem?_eq_some_iff.mp (hentry.top ep hep)).1
    have hfresh := hg.append_fresh hv level
    have hbase : ∀ l ≤ g.max_level, (g.append vector level).HasLevel ep l := fun l hl =>
      (hentry.hasLevel hep hl).append vector level
    obtain ⟨e, hdesc, he, hene⟩ := hshape.descend hv hfresh
      (pairwise_levels_down (level + 1) g.max_level) (min level g.max_level)
      (fun l hl => (min_le_left _ _).trans ((Nat.le_succ _).trans (mem_levels_down.mp hl).1)) hepn
      (fun l hl => hbase l (mem_levels_down.mp hl).2) (hbase _ (min_le_right _ _))
    obtain ⟨b, hconn, hb, hframe⟩ := hshape.connect hv
      (pairwise_levels_down 0 (min level g.max_level))
      (fun l hl => ⟨level, hself, (mem_levels_down.mp hl).2.trans (min_le_left _ _)⟩)
      (fun l _ => hfresh l) hene (fun l hl => he.mono (mem_levels_down.mp hl).2)
    have hsame := hframe.sameNodes
    have hbmax : b.max_level = g.max_level := by
      unfold Frame at hframe
      rw [hframe]
      rfl
    have hbep : b.entry_point = some ep := by
      unfold Frame at hframe
      rw [hframe]
      exact hep
    refine ⟨if b.max_level < level then b.crown g.node_count level else b, ?_, ?_, ?_, ?_⟩
    · rw [show (g.append vector level).entry_point = some ep from hep]
      simp only [bind_eq_ok, pure_eq_ok]
      exact ⟨e, hdesc, b, hconn, rfl⟩
    · split_ifs
      · exact hb.crown _ _
      · exact hb
    · split_ifs with hup
      · rw [hbmax] at hup
        refine Entry.crown (hsame.levels ▸ hself) ?_
        rw [hsame.levels]
        exact htops level (fun top htop => (hentry.highest top htop).trans hup.le) le_rfl
      · rw [hbmax] at hup
        refine ⟨fun h => absurd (hbep.symm.trans h) (Option.some_ne_none ep), fun ep' h => ?_, ?_⟩
        · rw [← Option.mem_unique hbep h, hbmax, hsame.levels, Hnsw.append,
            List.getElem?_append_left (List.getElem?_eq_some_iff.mp (hentry.top ep hep)).1]
          exact hentry.top ep hep
        · rw [hbmax, hsame.levels]
          exact htops _ hentry.highest (not_lt.mp hup)
    · split_ifs
      · exact ⟨hsame.levels, hsame.vectors, hsame.dim, hsame.metric, hsame.params, hsame.read_only⟩
      · exact hsame

/-- What an insert that succeeded was given, and what it leaves. -/
theorem GraphOk.insert (hg : GraphOk δ g) {level : ℕ} {r : Hnsw × NodeId}
    (hlevel : level ≤ l_max g.params.m) (h : g.insert δ vector level = .ok r) :
    GraphOk δ r.1 ∧ SameNodes (g.append vector level) r.1 ∧ r.2 = g.node_count := by
  unfold Hnsw.insert at h
  simp only [bind_eq_ok, failIf_eq_ok, exists_const, validate_entry_vector_eq_ok, pure_eq_ok] at h
  obtain ⟨hro, hv, hcount, g', hlink, rfl⟩ := h
  obtain ⟨b, hb, hshape, hentry, hsame⟩ := hg.shape.link hg.entry hv level
  obtain rfl := Except.ok.inj (hb.symm.trans hlink)
  refine ⟨⟨hshape, hentry, ?_, ?_, ?_⟩, hsame, rfl⟩
  · rw [hsame.dim]
    exact hg.dim
  · rw [node_count, hsame.levels, append, List.length_append, List.length_singleton]
    exact lt_of_le_of_ne hg.count hcount
  · rw [hsame.levels, hsame.params]
    intro top htop
    rcases List.mem_append.mp htop with htop | htop
    · exact hg.level_le top htop
    · rw [List.mem_singleton.mp htop]
      exact hlevel

/-- **Inserting does not fail.** A vector the metric takes is inserted while identifiers are
left. -/
theorem GraphOk.exists_insert (hg : GraphOk δ g) (hro : g.read_only = false)
    (hv : ValidVector δ g.metric g.dim vector) (hcount : g.node_count ≠ 4294967295) (level : ℕ) :
    ∃ r, g.insert δ vector level = .ok r := by
  obtain ⟨b, hb, -⟩ := hg.shape.link hg.entry hv level
  refine ⟨(b, g.node_count), ?_⟩
  unfold Hnsw.insert
  simp only [bind_eq_ok, failIf_eq_ok, exists_const, validate_entry_vector_eq_ok, pure_eq_ok]
  exact ⟨by rw [hro]; exact Bool.false_ne_true, hv, hcount, b, hb, rfl⟩

end Hnsw

end Ams.HnswAm
