/-
The graph on pages: `pg-am-hnsw/src/paged.rs`, and `open` and `search` of `index.rs`.

A `PagedGraph` answers the questions of the algorithm cores from pages. The answers are bare
values in the source, so that a page that cannot be read is a panic: what `open` checks is the
meta page and the directory chain, and not the node pages that the directory names.

The iterator form of the distance does not look for components that are not finite. A distance
that is then not a number makes the comparison of two candidates panic; the model already panics
at the distance.
-/
import Ams.HnswPage

set_option autoImplicit false

namespace Ams.HnswAm

open Ams.Lib

variable {D : Type}

/-! ## The pool -/

/-- Pinning a page: its bytes, or the text of a storage error. -/
abbrev Pool := PageId → Except String Page

def pin (pool : Pool) (context : String) (page_id : PageId) : Result Page :=
  match pool page_id with
  | .ok page => .ok page
  | .error e => .error (.err (.Storage s!"{context}: {e}"))

theorem pin_eq_ok {pool : Pool} {context : String} {page_id : PageId} {page : Page} :
    pin pool context page_id = .ok page ↔ pool page_id = .ok page := by
  unfold pin
  split
  · rename_i page' h
    simp [h]
  · rename_i e h
    simp [h]

theorem pin_noPanic (pool : Pool) (context : String) (page_id : PageId) :
    NoPanic (pin pool context page_id) := by
  unfold pin
  split
  · exact .ok _
  · exact .err _

/-! ## Distances to stored vectors -/

/-- `x == 0.0`. -/
def F32.is_zero (x : F32) : Bool := x.toNat % 2 ^ 31 == 0

/-- The square of the least `f32` above zero is an `f64` above zero, so that the sum of the
squares is zero exactly if all components are. -/
def Distance.ofValue (value : Metric → List F32 → List F32 → D) : Distance D :=
  ⟨value, fun v => v.all F32.is_zero⟩

def Distance.distance_iter (δ : Distance D) (metric : Metric) (a b : List F32) : Result D := do
  failIf (b.length ≠ a.length) (invalid_argument s!"dimension mismatch: {a.length} vs {b.length}")
  failIf (a = []) (invalid_argument "dim = 0 vector")
  failIf (metric = .Cosine ∧ (δ.zero_norm a ∨ δ.zero_norm b)) (.err .ZeroVector)
  -- the comparison of candidates panics on a distance that is not a number
  failIf (¬ (a.all F32.is_finite = true ∧ b.all F32.is_finite = true)) .panic
  return δ.value metric a b

theorem ValidVector.distance_iter {δ : Distance D} {metric : Metric} {dim : UInt16}
    {a b : List F32} (ha : ValidVector δ metric dim a) (hb : ValidVector δ metric dim b) :
    δ.distance_iter metric a b = .ok (δ.value metric a b) := by
  unfold Distance.distance_iter
  simp only [bind_eq_ok, failIf_eq_ok, exists_const, pure_eq_ok, and_true, not_not, ne_eq]
  refine ⟨hb.length_eq.trans ha.length_eq.symm, ha.ne_nil, ?_, List.all_eq_true.mpr ha.finite,
    List.all_eq_true.mpr hb.finite⟩
  rintro ⟨hcos, hzero | hzero⟩
  · exact Bool.false_ne_true ((ha.nonzero hcos).symm.trans hzero)
  · exact Bool.false_ne_true ((hb.nonzero hcos).symm.trans hzero)

/-! ## The view -/

/-- `dir_source` is the directory of the handle, for views that serve an insert or a search. -/
structure PagedGraph where
  pool : Pool
  dir_cache : List PageId
  dir_source : Option (List PageId)
  hwm : ℕ
  dim : UInt16
  m : UInt16
  m_max0 : UInt16
  metric : Metric

namespace PagedGraph

def geometry (g : PagedGraph) : NodeGeometry := ⟨g.dim, g.m, g.m_max0⟩

/-- The directory page of a node. A lookup past the snapshot refreshes it; the directory only
grows, so that the pages of the snapshot are the same in the refreshed one. -/
def dir_page (g : PagedGraph) (node_id : NodeId) : Result PageId :=
  match g.dir_cache[node_id / DIR_ENTRIES_PER_PAGE]? with
  | some p => .ok p
  | none =>
    match g.dir_source with
    | none => .error (corrupted
        s!"resolve: node {node_id} maps past the directory chain ({g.dir_cache.length} pages)")
    | some fresh =>
      match fresh[node_id / DIR_ENTRIES_PER_PAGE]? with
      | some p => .ok p
      | none => .error (corrupted
          s!"resolve: node {node_id} maps past the directory chain ({fresh.length} pages, after refresh)")

def resolve (g : PagedGraph) (node_id : NodeId) : Result (PageId × ℕ) := do
  let dir_page_id ← g.dir_page node_id
  let page ← pin g.pool "resolve: pin directory page" dir_page_id
  failIf (page_type page ≠ PAGE_TYPE_DIR) (corrupted
    s!"resolve: page {dir_page_id} is not a directory page")
  dir_entry page (node_id % DIR_ENTRIES_PER_PAGE)

/-- The node's page, and its slot. -/
def node_page (g : PagedGraph) (node : NodeId) : Result (Page × ℕ) := do
  let (page_id, slot) ← g.resolve node
  let page ← pin g.pool "paged graph: pin node page" page_id
  failIf (page_type page ≠ PAGE_TYPE_NODE) (corrupted
    s!"paged graph: directory maps node {node} to page {page_id} of wrong type {page_type page}")
  return (page, slot)

def with_node {α : Type} (g : PagedGraph) (node : NodeId) (f : Page → ℕ → Result α) :
    Result α := do
  let (page, slot) ← g.node_page node
  f page slot

/-- `GraphAccess for PagedGraph`. -/
def answer (δ : Distance D) (g : PagedGraph) : ∀ q, Ask.Answer D q
  | .dist_to_query query node => expect_ok (g.with_node node fun page slot => do
      let v ← vector_iter page slot g.dim
      δ.distance_iter g.metric query v)
  | .dist_between a b => do
    let va ← expect_ok (g.with_node a fun page slot => vector_iter page slot g.dim)
    expect_ok (g.with_node b fun page slot => do
      let vb ← vector_iter page slot g.dim
      δ.distance_iter g.metric va vb)
  | .for_each_neighbor node level => expect_ok (g.with_node node fun page slot =>
      neighbor_iter page slot g.geometry level)

theorem dir_page_noPanic (g : PagedGraph) (node : NodeId) : NoPanic (g.dir_page node) := by
  unfold dir_page
  split
  · exact .ok _
  · split
    · exact .err _
    · split
      · exact .ok _
      · exact .err _

theorem resolve_noPanic (g : PagedGraph) (node : NodeId) : NoPanic (g.resolve node) :=
  .bind (g.dir_page_noPanic node) fun _ _ => .bind (pin_noPanic _ _ _) fun _ _ =>
    .check <| dir_entry_noPanic _ _

variable {g : PagedGraph} {node : NodeId}

theorem dir_page_of_some {p : PageId} (h : g.dir_cache[node / DIR_ENTRIES_PER_PAGE]? = some p) :
    g.dir_page node = .ok p := by
  unfold dir_page
  rw [h]

theorem dir_page_snapshot {p : PageId} (hsource : g.dir_source = none)
    (h : g.dir_page node = .ok p) : g.dir_cache[node / DIR_ENTRIES_PER_PAGE]? = some p := by
  unfold dir_page at h
  rw [hsource] at h
  split at h
  · rename_i q hq
    rw [hq, Except.ok.inj h]
  · exact nomatch h

theorem resolve_eq_ok {r : PageId × ℕ} :
    g.resolve node = .ok r ↔ ∃ p page, g.dir_page node = .ok p ∧ g.pool p = .ok page ∧
      page_type page = PAGE_TYPE_DIR ∧ dir_entry page (node % DIR_ENTRIES_PER_PAGE) = .ok r := by
  unfold resolve
  simp only [bind_eq_ok, failIf_eq_ok, exists_const, pin_eq_ok, ne_eq, not_not, exists_and_left]

theorem node_page_eq_ok {page : Page} {slot : ℕ} :
    g.node_page node = .ok (page, slot) ↔ ∃ page_id, g.resolve node = .ok (page_id, slot) ∧
      g.pool page_id = .ok page ∧ page_type page = PAGE_TYPE_NODE := by
  unfold node_page
  simp only [bind_eq_ok, failIf_eq_ok, exists_const, pure_eq_ok, pin_eq_ok, ne_eq, not_not,
    Prod.exists, Prod.mk.injEq]
  constructor
  · rintro ⟨page_id, _, hres, _, hpool, htype, rfl, rfl⟩
    exact ⟨page_id, hres, hpool, htype⟩
  · rintro ⟨page_id, hres, hpool, htype⟩
    exact ⟨page_id, slot, hres, page, hpool, htype, rfl, rfl⟩

theorem with_node_of_eq_ok {α : Type} {page : Page} {slot : ℕ}
    (h : g.node_page node = .ok (page, slot)) (f : Page → ℕ → Result α) :
    g.with_node node f = f page slot := by
  unfold with_node
  rw [h]
  rfl

end PagedGraph

/-! ## The handle -/

structure ExpectedParams where
  dim : UInt16
  m : UInt16
  m_max0 : UInt16
  ef_construction : UInt32
  ef_search_default : UInt32
  metric : Metric
  selection : NeighborSelection
deriving DecidableEq, Repr

def Metric.name : Metric → String
  | .L2 => "L2"
  | .Cosine => "Cosine"
  | .InnerProduct => "InnerProduct"

def NeighborSelection.name : NeighborSelection → String
  | .Heuristic => "Heuristic"
  | .Simple => "Simple"

def mismatch (field stored expected : String) : Failure := invalid_argument
  s!"meta page {field} = {stored}, caller expected {expected} — creation-parameter mismatch must fail loudly (§6)"

def check_expected (m : MetaParams) (expected : ExpectedParams) : Result (List String) := do
  failIf (m.dim ≠ expected.dim) (mismatch "dim" s!"{m.dim}" s!"{expected.dim}")
  failIf (m.m ≠ expected.m) (mismatch "m" s!"{m.m}" s!"{expected.m}")
  failIf (m.m_max0 ≠ expected.m_max0) (mismatch "m_max0" s!"{m.m_max0}" s!"{expected.m_max0}")
  failIf (m.ef_construction ≠ expected.ef_construction)
    (mismatch "ef_construction" s!"{m.ef_construction}" s!"{expected.ef_construction}")
  failIf (m.metric ≠ expected.metric) (mismatch "metric" m.metric.name expected.metric.name)
  failIf (m.selection ≠ expected.selection)
    (mismatch "neighbor_selection" m.selection.name expected.selection.name)
  return if m.ef_search_default ≠ expected.ef_search_default then
    [s!"ef_search_default: meta page says {m.ef_search_default}, caller expected {expected.ef_search_default} — performance knob only, using the meta value (v1.4 nano WARN-not-fail)"]
  else []

def MetaParams.expected (p : MetaParams) : ExpectedParams :=
  ⟨p.dim, p.m, p.m_max0, p.ef_construction, p.ef_search_default, p.metric, p.selection⟩

def expected_params_of (pool : Pool) (meta_page_id : PageId) : Result ExpectedParams := do
  let page ← pin pool "expected_params_of: pin meta page" meta_page_id
  let p ← read_meta page
  return p.expected

/-- The handle, without the level generator, the latches and the probes. `meta_rt` is the pair
that the source packs into one word. -/
structure HnswIndex where
  meta_page_id : PageId
  dir_head : PageId
  params : MetaParams
  hwm : ℕ
  meta_rt : NodeId × ℕ
  current_node_page : Option PageId
  dir_pages : List PageId
deriving DecidableEq, Repr

/-- `repair` is the meta page that the repair of the entry point has written. -/
structure OpenOutcome where
  index : HnswIndex
  warnings : List String
  repair : Option Page

def apply_meta (page : Page) (entry_point max_level : ℕ) : Page :=
  (page.writeLe META_OFF_ENTRY_POINT 4 entry_point).writeLe META_OFF_MAX_LEVEL 1 max_level

/-- The repair of `open`: the top level of node 0. -/
def first_top_level (pool : Pool) (params : MetaParams) : Result ℕ := do
  -- the walk has fetched the head page before
  let head_page ← pin pool "open: pin directory page" params.dir_head
  let (node_page_id, slot) ← dir_entry head_page 0
  let page ← pin pool "open-repair: pin first node page" node_page_id
  failIf (page_type page ≠ PAGE_TYPE_NODE) (corrupted
    s!"open-repair: directory entry 0 points at page {node_page_id} with page_type {page_type page}, not a node page")
  let top_level ← entry_top_level page slot params.dim
  failIf (l_max params.m < top_level) (corrupted
    s!"open-repair: node 0's top_level {top_level} > l_max(m = {params.m}) = {l_max params.m} (corrupt node entry — no level draw can produce it)")
  return top_level

/-- The entry point and the level that a handle starts with, and the repaired meta page. `append`
is what the append of the record returns. -/
def repair_meta (pool : Pool) (append : Except String ℕ) (meta_page_id : PageId)
    (params : MetaParams) (hwm : ℕ) : Result (MetaParams × Option Page) :=
  if 0 < hwm ∧ params.entry_point.toNat = NodeId.INVALID then do
    let top_level ← first_top_level pool params
    let page ← pin pool "open-repair: pin_mut meta page" meta_page_id
    match append with
    | .error e => .error (.err (.Storage s!"open-repair: WAL append: {e}"))
    | .ok lsn => return ({ params with entry_point := 0, max_level := top_level },
        some (set_page_pd_lsn (apply_meta page 0 top_level) lsn))
  else return (params, none)

def last_node_page (pool : Pool) (chain : DirChainInfo) : Result (Option PageId) :=
  if 0 < chain.hwm then do
    let entry_page_id ← index chain.pages ((chain.hwm - 1) / DIR_ENTRIES_PER_PAGE)
    let page ← pin pool "open: pin directory page of last entry" entry_page_id
    let (node_page_id, _) ← dir_entry page ((chain.hwm - 1) % DIR_ENTRIES_PER_PAGE)
    return some node_page_id
  else return none

def open_index (pool : Pool) (append : Except String ℕ) (meta_page_id : PageId)
    (expected : ExpectedParams) : Result OpenOutcome := do
  let page ← pin pool "open: pin meta page" meta_page_id
  let params ← read_meta page
  let warnings ← check_expected params expected
  let chain ← check_dir_chain params.dir_head (pin pool "open: pin directory page")
  failIf (params.entry_point.toNat ≠ NodeId.INVALID ∧ chain.hwm ≤ params.entry_point.toNat) (corrupted
    s!"meta page entry_point {params.entry_point} >= chain high-water mark {chain.hwm} (the entry point must name an allocated node)")
  let (params, repair) ← repair_meta pool append meta_page_id params chain.hwm
  let current_node_page ← last_node_page pool chain
  return {
    index := {
      meta_page_id := meta_page_id
      dir_head := params.dir_head
      params := params
      hwm := chain.hwm
      meta_rt := (params.entry_point.toNat, params.max_level)
      current_node_page := current_node_page
      dir_pages := chain.pages }
    warnings := warnings
    repair := repair }

/-- The view of an insert or a search. -/
def HnswIndex.view (index : HnswIndex) (pool : Pool) : PagedGraph :=
  { pool := pool
    dir_cache := index.dir_pages
    dir_source := some index.dir_pages
    hwm := index.hwm
    dim := index.params.dim
    m := index.params.m
    m_max0 := index.params.m_max0
    metric := index.params.metric }

variable [LinearOrder D]

/-- The descent and the beam search of `search`. -/
def search_levels (n : ℕ) (query : List F32) (entry_point max_level ef : ℕ) :
    Core D (List (Cand D)) := do
  let ep ← greedy_descent n query (levels_down 1 max_level) entry_point
  search_layer n query [ep] ef 0

def HnswIndex.search (δ : Distance D) (index : HnswIndex) (pool : Pool) (query : List F32) (k : ℕ)
    (ef : Option ℕ) : Result (List (NodeId × D)) := do
  failIf (query.length ≠ index.params.dim.toNat) (invalid_argument
    s!"search: query has {query.length} components, index dim is {index.params.dim} (§3: same index never mixes dimensions)")
  let _ ← δ.distance index.params.metric query query
  let ef := ef.getD index.params.ef_search_default.toNat
  failIf (ef < k) (invalid_argument
    s!"ef = {ef} < k = {k} (§4.4: the beam must fit the result set; this is the only per-query invariant)")
  if index.meta_rt.1 = NodeId.INVALID then return []
  else if k = 0 then return []
  else do
    let w ← Program.eval ((index.view pool).answer δ)
      (search_levels index.hwm query index.meta_rt.1 index.meta_rt.2 ef)
    return (w.take k).map fun c => (c.id, c.dist)

end Ams.HnswAm
