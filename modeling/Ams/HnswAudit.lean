/-
The audit of an index, `pg-am-hnsw/src/audit.rs`, and what it is for.

The search path turns whatever it cannot read into a panic. `audit_index` reads everything once,
without trusting a byte of it, and its checks are scattered: the meta page, the directory chain,
the entries, the entry point, the edges. The main result says that together they are enough. On
pages that passed the audit, `open` succeeds without a repair, no search panics, and a search
with a valid query returns what a search is to return. The pages may hold anything.

`NodeOk` and `LinksOk` are what the two passes establish, node by node. From them a level of the
graph is `Searchable`, which is all that the search relies on.
-/
import Ams.HnswPaged

set_option autoImplicit false

namespace Ams.HnswAm

open Ams.Lib

/-! ## The audit -/

structure AuditReport where
  node_count : ℕ
  entry_point : ℕ
  max_level : ℕ
  live_count : ℕ
  initializing_count : ℕ
  tombstoned_count : ℕ
  hidden_high_level_count : ℕ
  orphan_entry_count : ℕ
  edge_count : ℕ
deriving DecidableEq, Repr

def audit_meta (pool : Pool) (meta_page_id : PageId) : Result MetaParams := do
  let page ← pin pool "audit: pin meta page" meta_page_id
  failIf (page_type page ≠ PAGE_TYPE_META) (corrupted
    s!"audit: page {meta_page_id} is not a meta page (page_type {page_type page})")
  read_meta page

/-- The view of the audit has no handle to refresh from. -/
def audit_view (pool : Pool) (params : MetaParams) (chain : DirChainInfo) : PagedGraph :=
  { pool := pool
    dir_cache := chain.pages
    dir_source := none
    hwm := chain.hwm
    dim := params.dim
    m := params.m
    m_max0 := params.m_max0
    metric := params.metric }

/-- The variables of the first pass. The pages are in ascending order. -/
structure EntryPass where
  top_levels : List ℕ
  mappings : List (PageId × ℕ)
  referenced_pages : List PageId
  live_count : ℕ
  initializing_count : ℕ
  tombstoned_count : ℕ

def EntryPass.start : EntryPass := ⟨[], [], [], 0, 0, 0⟩

/-- Insertion into a `BTreeSet`. -/
def set_insert (p : PageId) (set : List PageId) : List PageId :=
  if p ∈ set then set else set.orderedInsert (· ≤ ·) p

def audit_vector (metric : Metric) (id : NodeId) (vector : List F32) : Result Unit := do
  failIf (∃ x ∈ vector, F32.is_finite x = false) (corrupted
    s!"audit: node {id} has a non-finite vector component (§5 stored-side — the search path's finiteness premise)")
  failIf (metric = .Cosine ∧ vector.all F32.is_zero = true) (corrupted
    s!"audit: node {id} has an all-zero vector under the cosine metric (§5 stored-side)")

/-- The body of the first pass. -/
def audit_entry (graph : PagedGraph) (st : EntryPass) (id : NodeId) : Result EntryPass := do
  let (page_id, slot) ← graph.resolve id
  let page ← pin graph.pool "audit: pin node page" page_id
  failIf (page_type page ≠ PAGE_TYPE_NODE) (corrupted
    s!"audit f: directory entry {id} points at page {page_id} of page_type {page_type page}, not a node page")
  let slots ← slot_count page
  let occupied ← slot_is_occupied page slot
  failIf (slots ≤ slot ∨ occupied = false) (corrupted
    s!"audit a: directory entry {id} maps to empty/out-of-range slot {slot} on page {page_id}")
  failIf ((page_id, slot) ∈ st.mappings) (corrupted
    s!"audit d/e: directory entries map twice to ({page_id}, {slot}) — the mapping must be unique")
  let vector ← vector_iter page slot graph.dim
  audit_vector graph.metric id vector
  let live ← entry_is_live page slot graph.dim
  let tombstoned ← entry_is_tombstoned page slot graph.dim
  failIf (tombstoned = true ∧ live = false) (corrupted
    s!"audit: node {id} is tombstoned but not LIVE — the §8.1③ state machine (INITIALIZING → LIVE → tombstoned) makes this state unreachable by any legal record stream")
  let top ← entry_top_level page slot graph.dim
  failIf (l_max graph.m < top) (corrupted
    s!"audit: node {id} has top_level {top} > l_max(m = {graph.m}) = {l_max graph.m} (no level draw can produce it)")
  return {
    top_levels := st.top_levels ++ [top]
    mappings := (page_id, slot) :: st.mappings
    referenced_pages := set_insert page_id st.referenced_pages
    live_count := if live then st.live_count + 1 else st.live_count
    initializing_count := if live then st.initializing_count else st.initializing_count + 1
    tombstoned_count := if tombstoned then st.tombstoned_count + 1 else st.tombstoned_count }

/-- Assertion c. The result counts the nodes above `max_level`. -/
def audit_entry_point (params : MetaParams) (hwm : ℕ) (top_levels : List ℕ) : Result ℕ :=
  if hwm = 0 then do
    failIf (params.entry_point.toNat ≠ NodeId.INVALID ∨ params.max_level ≠ 0) (corrupted
      s!"audit c: empty graph must carry entry_point = INVALID and max_level = 0 (found entry_point {params.entry_point}, max_level {params.max_level})")
    return 0
  else do
    failIf (hwm ≤ params.entry_point.toNat) (corrupted
      s!"audit c: entry_point {params.entry_point} >= chain high-water mark {hwm}")
    let ep_top ← index top_levels params.entry_point.toNat
    failIf (ep_top ≠ params.max_level) (corrupted
      s!"audit c: entry point {params.entry_point} has top_level {ep_top} != meta max_level {params.max_level} (weakened §8.3①: the entry point must sit AT max_level)")
    return top_levels.countP (params.max_level < ·)

def audit_neighbor (hwm : ℕ) (top_levels : List ℕ) (id : NodeId) (level : ℕ) (nb : NodeId) :
    Result Unit := do
  failIf (nb = id) (corrupted s!"audit: node {id} level {level} has a self-loop")
  failIf (hwm ≤ nb) (corrupted
    s!"audit a: node {id} level {level} references node {nb} >= high-water mark {hwm}")
  let top ← index top_levels nb
  failIf (top < level) (corrupted
    s!"audit b: node {id} level {level} references node {nb} with top_level {top} < {level}")

/-- The body of the second pass at one level. -/
def audit_level (graph : PagedGraph) (top_levels : List ℕ) (id : NodeId) (page : Page) (slot : ℕ)
    (edge_count level : ℕ) : Result ℕ := do
  let list ← neighbor_iter page slot graph.geometry level
  failIf (¬ list.Pairwise (· < ·)) (corrupted
    s!"audit: node {id} level {level} neighbor list is not strictly ascending (write-path invariant)")
  list.forM (audit_neighbor graph.hwm top_levels id level)
  return edge_count + list.length

/-- The body of the second pass. -/
def audit_edges (graph : PagedGraph) (top_levels : List ℕ) (edge_count : ℕ) (id : NodeId) :
    Result ℕ := do
  let (page_id, slot) ← graph.resolve id
  let page ← pin graph.pool "audit: pin node page" page_id
  let top ← index top_levels id
  (List.range (top + 1)).foldlM (audit_level graph top_levels id page slot) edge_count

/-- The orphans on a page. -/
def audit_orphans (pool : Pool) (mappings : List (PageId × ℕ)) (orphan_count : ℕ)
    (page_id : PageId) : Result ℕ := do
  let page ← pin pool "audit: pin node page" page_id
  let slots ← slot_count page
  (List.range slots).foldlM (fun count slot => do
    let occupied ← slot_is_occupied page slot
    return if occupied = true ∧ (page_id, slot) ∉ mappings then count + 1 else count) orphan_count

def audit_index (pool : Pool) (meta_page_id : PageId) : Result AuditReport := do
  let params ← audit_meta pool meta_page_id
  let chain ← check_dir_chain params.dir_head (pin pool "audit: pin directory page")
  let graph := audit_view pool params chain
  let entries ← (List.range chain.hwm).foldlM (audit_entry graph) EntryPass.start
  let hidden ← audit_entry_point params chain.hwm entries.top_levels
  let edge_count ← (List.range chain.hwm).foldlM (audit_edges graph entries.top_levels) 0
  let orphans ← entries.referenced_pages.foldlM (audit_orphans pool entries.mappings) 0
  return {
    node_count := chain.hwm
    entry_point := params.entry_point.toNat
    max_level := params.max_level
    live_count := entries.live_count
    initializing_count := entries.initializing_count
    tombstoned_count := entries.tombstoned_count
    hidden_high_level_count := hidden
    orphan_entry_count := orphans
    edge_count := edge_count }

/-! ## What the passes establish -/

variable {D : Type}

/-- The node can be read, and its vector is one the metric takes. -/
def NodeOk (δ : Distance D) (graph : PagedGraph) (id : NodeId) : Prop :=
  ∃ page slot v, graph.node_page id = .ok (page, slot) ∧ vector_iter page slot graph.dim = .ok v ∧
    ValidVector δ graph.metric graph.dim v

/-- The node is there and has the level. -/
def HasTop (top_levels : List ℕ) (level : ℕ) (e : NodeId) : Prop :=
  ∃ top, top_levels[e]? = some top ∧ level ≤ top

/-- The list of the node names nodes that have the level. -/
def LinksOk (graph : PagedGraph) (top_levels : List ℕ) (level : ℕ) (id : NodeId) : Prop :=
  ∃ page slot list, graph.node_page id = .ok (page, slot) ∧
    neighbor_iter page slot graph.geometry level = .ok list ∧
    ∀ x ∈ list, HasTop top_levels level x

variable {edge_count i level n : ℕ} {e : NodeId}

theorem HasTop.lt {top_levels : List ℕ} (h : HasTop top_levels level e) :
    e < top_levels.length := by
  obtain ⟨top, htop, -⟩ := h
  exact (List.getElem?_eq_some_iff.mp htop).1

theorem HasTop.mono {top_levels : List ℕ} {level' : ℕ} (h : HasTop top_levels level e)
    (hle : level' ≤ level) : HasTop top_levels level' e := by
  obtain ⟨top, htop, hlevel⟩ := h
  exact ⟨top, htop, hle.trans hlevel⟩

/-- The invariant of the first pass. -/
structure Entries (δ : Distance D) (graph : PagedGraph) (i : ℕ) (st : EntryPass) : Prop where
  length_eq : st.top_levels.length = i
  node : ∀ j < i, NodeOk δ graph j

variable (value : Metric → List F32 → List F32 → D) {graph : PagedGraph}

theorem audit_vector_eq_ok {metric : Metric} {dim : UInt16} {id : NodeId} {v : List F32} {u : Unit}
    (hlen : v.length = dim.toNat) (hdim : dim.toNat ≠ 0)
    (h : audit_vector metric id v = .ok u) : ValidVector (.ofValue value) metric dim v := by
  unfold audit_vector at h
  simp only [bind_eq_ok, failIf_eq_ok, exists_const, not_exists, not_and] at h
  obtain ⟨hfin, hzero⟩ := h
  refine ⟨hlen, ?_, fun x hx => ?_, fun hcos => ?_⟩
  · rintro rfl
    exact hdim hlen.symm
  · exact Bool.not_eq_false _ ▸ hfin x hx
  · exact Bool.not_eq_true _ ▸ hzero hcos

theorem audit_entry_eq_ok {st st' : EntryPass} (hdim : graph.dim.toNat ≠ 0)
    (hst : Entries (.ofValue value) graph i st) (h : audit_entry graph st i = .ok st') :
    Entries (.ofValue value) graph (i + 1) st' := by
  unfold audit_entry at h
  simp only [bind_eq_ok, failIf_eq_ok, exists_const, pure_eq_ok, pin_eq_ok, ne_eq, not_not] at h
  obtain ⟨⟨page_id, slot⟩, hres, page, hpool, htype, slots, -, occupied, -, -, -, v, hv, _, hvec,
    live, -, tombstoned, -, -, top, -, -, rfl⟩ := h
  have hvalid := audit_vector_eq_ok value (length_vector_iter hv) hdim hvec
  have hnode : NodeOk (.ofValue value) graph i :=
    ⟨page, slot, v, PagedGraph.node_page_eq_ok.mpr ⟨page_id, hres, hpool, htype⟩, hv, hvalid⟩
  refine ⟨?_, fun j hj => ?_⟩
  · rw [List.length_append, hst.length_eq]
    rfl
  · rcases Nat.lt_succ_iff_lt_or_eq.mp hj with hlt | rfl
    · exact hst.node j hlt
    · exact hnode

theorem audit_entry_noPanic (graph : PagedGraph) (st : EntryPass) (i : ℕ) :
    NoPanic (audit_entry graph st i) := by
  refine .bind (graph.resolve_noPanic i) fun _ _ => .bind (pin_noPanic _ _ _) fun _ _ =>
    .check <| .bind (slot_count_noPanic _) fun _ _ =>
    .bind (slot_is_occupied_noPanic _ _) fun _ _ => ?_
  refine .check <| .check <|
    .bind (vector_iter_noPanic _ _ _) fun _ _ =>
    .bind (.check (.failIf _)) fun _ _ => ?_
  exact .bind (entry_is_live_noPanic _ _ _) fun _ _ =>
    .bind (entry_is_tombstoned_noPanic _ _ _) fun _ _ => .check <|
    .bind (entry_top_level_noPanic _ _ _) fun _ _ => .check (.ok _)

variable {top_levels : List ℕ}

theorem audit_neighbor_noPanic (hlen : top_levels.length = graph.hwm) (id level nb : ℕ) :
    NoPanic (audit_neighbor graph.hwm top_levels id level nb) := by
  refine .check <| .bind (.failIf _) fun _ hlt => ?_
  have hlt := not_le.mp (failIf_eq_ok.mp hlt)
  exact .bind (.index (hlen ▸ hlt)) fun _ _ => .failIf _

theorem audit_neighbor_eq_ok {id nb : ℕ} {u : Unit}
    (h : audit_neighbor graph.hwm top_levels id level nb = .ok u) : HasTop top_levels level nb := by
  unfold audit_neighbor at h
  simp only [bind_eq_ok, failIf_eq_ok, exists_const, index_eq_ok, not_lt] at h
  obtain ⟨-, -, top, htop, hle⟩ := h
  exact ⟨top, htop, hle⟩

theorem audit_level_noPanic (hlen : top_levels.length = graph.hwm) (id : NodeId) (page : Page)
    (slot edge_count level : ℕ) :
    NoPanic (audit_level graph top_levels id page slot edge_count level) := by
  refine .bind (neighbor_iter_noPanic _ _ _ _) fun _ _ => .check ?_
  exact .bind (.forM fun nb _ => audit_neighbor_noPanic hlen id level nb) fun _ _ => .ok _

variable {page : Page}

/-- After the lists of a node have been read up to a level. -/
theorem audit_levels_eq_ok {id : NodeId} {slot edge_count' : ℕ}
    (h : (List.range n).foldlM (audit_level graph top_levels id page slot) edge_count =
      .ok edge_count') :
    ∀ level < n, ∃ list, neighbor_iter page slot graph.geometry level = .ok list ∧
      ∀ x ∈ list, HasTop top_levels level x := by
  refine foldlM_range_eq_ok (fun i _ => ∀ level < i, ∃ list,
    neighbor_iter page slot graph.geometry level = .ok list ∧
      ∀ x ∈ list, HasTop top_levels level x) (fun _ h => absurd h (Nat.not_lt_zero _)) ?_ h
  intro i c c' _ hI hstep level hlevel
  rcases Nat.lt_succ_iff_lt_or_eq.mp hlevel with hlt | rfl
  · exact hI level hlt
  · unfold audit_level at hstep
    simp only [bind_eq_ok, failIf_eq_ok, exists_const, pure_eq_ok, forM_eq_ok] at hstep
    obtain ⟨list, hlist, -, hall, -⟩ := hstep
    exact ⟨list, hlist, fun x hx => audit_neighbor_eq_ok (hall x hx)⟩

theorem audit_edges_noPanic (hlen : top_levels.length = graph.hwm) (edge_count : ℕ)
    (hi : i < graph.hwm) : NoPanic (audit_edges graph top_levels edge_count i) := by
  refine .bind (graph.resolve_noPanic i) fun _ _ => .bind (pin_noPanic _ _ _) fun page _ =>
    .bind (.index (hlen ▸ hi)) fun top _ => ?_
  exact FailsIn.foldlM_range (fun _ _ => True) trivial (fun _ _ _ _ _ _ => trivial)
    fun level c _ _ => audit_level_noPanic hlen i page _ c level

variable {δ : Distance D}

theorem audit_edges_eq_ok {edge_count' : ℕ} (hnode : NodeOk δ graph i)
    (h : audit_edges graph top_levels edge_count i = .ok edge_count') :
    ∀ level, HasTop top_levels level i → LinksOk graph top_levels level i := by
  obtain ⟨page, slot, v, hpage, -, -⟩ := hnode
  obtain ⟨page_id, hres, hpool, -⟩ := PagedGraph.node_page_eq_ok.mp hpage
  unfold audit_edges at h
  simp only [bind_eq_ok, pin_eq_ok, index_eq_ok] at h
  obtain ⟨r, hres', page', hpool', top, htop, hlevels⟩ := h
  -- the second pass reads the page that the first one has read
  obtain rfl : (page_id, slot) = r := Except.ok.inj (hres.symm.trans hres')
  obtain rfl : page = page' := Except.ok.inj (hpool.symm.trans hpool')
  rintro level ⟨top', htop', hle⟩
  obtain rfl : top = top' := Option.mem_unique htop htop'
  obtain ⟨list, hlist, hall⟩ := audit_levels_eq_ok hlevels level (Nat.lt_succ_of_le hle)
  exact ⟨page, slot, list, hpage, hlist, hall⟩

theorem audit_orphans_noPanic (pool : Pool) (mappings : List (PageId × ℕ)) (count : ℕ)
    (page_id : PageId) : NoPanic (audit_orphans pool mappings count page_id) := by
  refine .bind (pin_noPanic _ _ _) fun page _ => .bind (slot_count_noPanic page) fun slots _ => ?_
  exact FailsIn.foldlM_range (fun _ _ => True) trivial (fun _ _ _ _ _ _ => trivial)
    fun slot c _ _ => .bind (slot_is_occupied_noPanic page slot) fun _ _ => .ok _

/-! ## The meta page and the chain -/

/-- What `read_meta` has checked, of what is used. -/
theorem read_meta_eq_ok {p : MetaParams} (h : read_meta page = .ok p) :
    p.dim.toNat ≠ 0 := by
  unfold read_meta at h
  simp only [bind_eq_ok, failIf_eq_ok, exists_const, pure_eq_ok] at h
  obtain ⟨-, -, _, -, _, -, hdim, -, -, -, -, _, -, -, -, -, -, -, -, rfl⟩ := h
  exact hdim

variable {chain : DirChainInfo}

theorem walk_dir_chain_congr {fetch fetch' : PageId → Result Page}
    (hfetch : ∀ p page, fetch p = .ok page → fetch' p = .ok page) {left ordinal : ℕ}
    {visited : List PageId} {current : PageId}
    (h : walk_dir_chain fetch left visited current ordinal = .ok chain) :
    walk_dir_chain fetch' left visited current ordinal = .ok chain ∧ chain.hwm ≤ 4294967295 := by
  induction left generalizing visited current ordinal with
  | zero => exact absurd h (by simp [walk_dir_chain])
  | succ left ih =>
    unfold walk_dir_chain at h ⊢
    simp only [bind_eq_ok, failIf_eq_ok, exists_const] at h ⊢
    obtain ⟨hcycle, page, hpage, htype, hord, hcount, h⟩ := h
    suffices hrest : _ ∧ chain.hwm ≤ 4294967295 from
      ⟨⟨hcycle, page, hfetch current page hpage, htype, hord, hcount, hrest.1⟩, hrest.2⟩
    split_ifs at h ⊢ with hnext
    · refine ⟨h, ?_⟩
      split at h
      · simp at h
      · unfold check_hwm_node_id_space at h
        simp only [bind_eq_ok, failIf_eq_ok, exists_const, pure_eq_ok, not_lt] at h
        obtain ⟨hle, rfl⟩ := h
        exact hle
    · simp only [bind_eq_ok, failIf_eq_ok, exists_const] at h ⊢
      obtain ⟨hfull, hself, hwalk⟩ := h
      exact ⟨⟨hfull, hself, (ih hwalk).1⟩, (ih hwalk).2⟩

/-- `open` walks the chain that the audit has walked. -/
theorem check_dir_chain_congr {fetch fetch' : PageId → Result Page}
    (hfetch : ∀ p page, fetch p = .ok page → fetch' p = .ok page) {head : PageId}
    (h : check_dir_chain head fetch = .ok chain) :
    check_dir_chain head fetch' = .ok chain ∧ chain.hwm ≤ 4294967295 := by
  unfold check_dir_chain at h ⊢
  simp only [bind_eq_ok, failIf_eq_ok, exists_const] at h ⊢
  obtain ⟨hhead, hwalk⟩ := h
  exact ⟨⟨hhead, (walk_dir_chain_congr hfetch hwalk).1⟩, (walk_dir_chain_congr hfetch hwalk).2⟩

/-! ## Searching what was audited -/

/-- What an accepting audit has found out about the graph. -/
structure Audited (δ : Distance D) (params : MetaParams) (graph : PagedGraph)
    (top_levels : List ℕ) : Prop where
  length_eq : top_levels.length = graph.hwm
  node : ∀ e < graph.hwm, NodeOk δ graph e
  links : ∀ level e, HasTop top_levels level e → LinksOk graph top_levels level e
  empty : graph.hwm = 0 → params.entry_point.toNat = NodeId.INVALID
  entry : graph.hwm ≠ 0 → HasTop top_levels params.max_level params.entry_point.toNat

variable {params : MetaParams}

/-- A handle reads the nodes that the audit has read. -/
theorem PagedGraph.node_page_view {pool : Pool} {index : HnswIndex}
    (hpages : index.dir_pages = chain.pages) {node : NodeId} {r : Page × ℕ}
    (h : (audit_view pool params chain).node_page node = .ok r) :
    (index.view pool).node_page node = .ok r := by
  obtain ⟨page, slot⟩ := r
  obtain ⟨page_id, hres, hpool, htype⟩ := node_page_eq_ok.mp h
  refine node_page_eq_ok.mpr ⟨page_id, ?_, hpool, htype⟩
  obtain ⟨p, dir, hp, hdir, hdtype, hentry⟩ := resolve_eq_ok.mp hres
  refine resolve_eq_ok.mpr ⟨p, dir, dir_page_of_some ?_, hdir, hdtype, hentry⟩
  change index.dir_pages[node / DIR_ENTRIES_PER_PAGE]? = some p
  rw [hpages]
  exact dir_page_snapshot rfl hp

/-- The vector of a node. -/
def stored_vector (graph : PagedGraph) (node : NodeId) : List F32 :=
  match graph.with_node node fun page slot => vector_iter page slot graph.dim with
  | .ok v => v
  | .error _ => []

theorem NodeOk.stored_vector (h : NodeOk δ graph e) :
    ∃ page slot, graph.node_page e = .ok (page, slot) ∧
      vector_iter page slot graph.dim = .ok (stored_vector graph e) ∧
      ValidVector δ graph.metric graph.dim (stored_vector graph e) := by
  obtain ⟨page, slot, v, hpage, hv, hvalid⟩ := h
  have heq : HnswAm.stored_vector graph e = v := by
    unfold HnswAm.stored_vector
    rw [PagedGraph.with_node_of_eq_ok hpage, hv]
  exact ⟨page, slot, hpage, heq ▸ hv, heq ▸ hvalid⟩

section Handle

variable {δ : Distance D} {pool : Pool} {params : MetaParams} {chain : DirChainInfo}
  {index : HnswIndex} {query : List F32}

/-- The handle is one of the audited graph. -/
structure OpenedOn (pool : Pool) (params : MetaParams) (chain : DirChainInfo) (index : HnswIndex) :
    Prop where
  params_eq : index.params = params
  pages_eq : index.dir_pages = chain.pages
  hwm_eq : index.hwm = chain.hwm
  meta_eq : index.meta_rt = (params.entry_point.toNat, params.max_level)

/-- Every level of an audited graph can be searched. -/
theorem Audited.searchable (hA : Audited δ params (audit_view pool params chain) top_levels)
    (hI : OpenedOn pool params chain index) (hq : ValidVector δ params.metric params.dim query)
    (level : ℕ) :
    Searchable (fun _ _ => True) (fun _ : Unit => (index.view pool).answer δ) index.hwm query level
      (fun _ => HasTop top_levels level)
      (fun e => δ.value params.metric query
        (stored_vector (audit_view pool params chain) e)) where
  refl _ := trivial
  trans _ _ _ _ _ := trivial
  stable _ _ _ _ h := h
  lt _ e h := by
    rw [hI.hwm_eq]
    exact h.lt.trans_eq hA.length_eq
  dist _ e h := by
    obtain ⟨page, slot, hpage, hv, hvalid⟩ := (hA.node e (h.lt.trans_eq hA.length_eq)).stored_vector
    have hview := PagedGraph.node_page_view hI.pages_eq hpage
    rw [PagedGraph.answer, PagedGraph.with_node_of_eq_ok hview]
    have hdim : (index.view pool).dim = params.dim := congrArg MetaParams.dim hI.params_eq
    have hmetric : (index.view pool).metric = params.metric :=
      congrArg MetaParams.metric hI.params_eq
    rw [hdim, hmetric]
    change expect_ok (vector_iter page slot (audit_view pool params chain).dim >>= _) = _
    rw [hv]
    change expect_ok (δ.distance_iter params.metric query _) = _
    rw [hq.distance_iter hvalid]
    rfl
  neighbors _ e h := by
    obtain ⟨page, slot, list, hpage, hlist, hall⟩ := hA.links level e h
    have hview := PagedGraph.node_page_view hI.pages_eq hpage
    have hgeo : (index.view pool).geometry = (audit_view pool params chain).geometry := by
      unfold PagedGraph.geometry HnswIndex.view audit_view
      rw [hI.params_eq]
    refine ⟨list, ?_, fun x hx _ => hall x hx⟩
    rw [PagedGraph.answer, PagedGraph.with_node_of_eq_ok hview, hgeo, hlist]
    rfl

variable [LinearOrder D]

/-- The descent and the beam search, from an entry point at the top level. -/
theorem Audited.search_levels (hA : Audited δ params (audit_view pool params chain) top_levels)
    (hI : OpenedOn pool params chain index) (hq : ValidVector δ params.metric params.dim query)
    (hhwm : chain.hwm ≠ 0) {ef : ℕ} (hef : 1 ≤ ef) :
    ∃ w, Program.eval ((index.view pool).answer δ)
        (search_levels index.hwm query params.entry_point.toNat params.max_level ef) = .ok w ∧
      Found (HasTop top_levels 0) (fun e => δ.value params.metric query
        (stored_vector (audit_view pool params chain) e)) ef w := by
  have hS := hA.searchable hI hq
  have hentry := hA.entry hhwm
  have hdesc := greedy_descent_yields (s := ()) hS (fun _ _ _ _ hle h => HasTop.mono h hle)
    (Hnsw.pairwise_levels_down 1 params.max_level) (fun l _ => Nat.zero_le l)
    (fun l hl => hentry.mono (Hnsw.mem_levels_down.mp hl).2) (hentry.mono (Nat.zero_le _))
  have hstart : ∀ e, HasTop top_levels 0 e → ∀ x ∈ [e], HasTop top_levels 0 x := by
    intro e he x hx
    rw [List.mem_singleton.mp hx]
    exact he
  have hall := Program.Yields.bind (hS 0).refl (hS 0).trans hdesc fun _ e _ he =>
    search_layer_yields (hS 0) (hstart e he) (List.nodup_singleton e) (List.cons_ne_nil e []) hef
  exact hall.eval fun _ => trivial

/-- What a search is to return. -/
structure Hits (n k : ℕ) (hits : List (NodeId × D)) : Prop where
  length_le : hits.length ≤ k
  nodup : (hits.map Prod.fst).Nodup
  lt : ∀ h ∈ hits, h.1 < n
  ascending : hits.Pairwise fun a b => toLex (a.2, a.1) < toLex (b.2, b.1)

theorem Hits.nil (n k : ℕ) : Hits n k ([] : List (NodeId × D)) :=
  ⟨Nat.zero_le k, List.nodup_nil, fun _ h => absurd h List.not_mem_nil, List.Pairwise.nil⟩

theorem Found.hits {G : NodeId → Prop} {d : NodeId → D} {ef n : ℕ} {w : List (Cand D)}
    (h : Found G d ef w) (hG : ∀ e, G e → e < n) (k : ℕ) :
    Hits n k ((w.take k).map fun c => (c.id, c.dist)) where
  length_le := by
    rw [List.length_map, List.length_take]
    exact min_le_left k w.length
  nodup := by
    rw [List.map_map]
    exact (h.nodup_ids).sublist ((List.take_sublist k w).map Cand.id)
  lt := by
    intro hit hmem
    obtain ⟨c, hc, rfl⟩ := List.mem_map.mp hmem
    exact hG c.id (h.mem c (List.mem_of_mem_take hc)).1
  ascending := List.pairwise_map.mpr (h.ascending.sublist (List.take_sublist k w))

theorem Audited.search (hA : Audited δ params (audit_view pool params chain) top_levels)
    (hI : OpenedOn pool params chain index) (hle : chain.hwm ≤ 4294967295)
    (hq : ValidVector δ params.metric params.dim query) {k : ℕ} {ef : Option ℕ}
    (hef : k ≤ ef.getD params.ef_search_default.toNat) :
    ∃ hits, index.search δ pool query k ef = .ok hits ∧ Hits chain.hwm k hits := by
  unfold HnswIndex.search
  rw [hI.meta_eq, hI.params_eq, hq.distance hq, failIf_of_not (not_not.mpr hq.length_eq), ok_bind,
    ok_bind]
  dsimp only
  rw [failIf_of_not (not_lt.mpr hef), ok_bind]
  by_cases hhwm : chain.hwm = 0
  · rw [if_pos (hA.empty hhwm)]
    exact ⟨[], rfl, .nil _ _⟩
  · have hlt : params.entry_point.toNat < chain.hwm := (hA.entry hhwm).lt.trans_eq hA.length_eq
    rw [if_neg (hlt.trans_le hle).ne]
    split_ifs with hk
    · exact ⟨[], rfl, .nil _ _⟩
    · obtain ⟨w, hw, hfound⟩ := hA.search_levels hI hq hhwm ((Nat.pos_of_ne_zero hk).trans_le hef)
      rw [hw, ok_bind]
      exact ⟨_, rfl, hfound.hits (fun e he => he.lt.trans_eq hA.length_eq) k⟩

/-- A query that is not valid is an error before anything is read. -/
theorem Audited.search_noPanic (hA : Audited δ params (audit_view pool params chain) top_levels)
    (hI : OpenedOn pool params chain index) (hle : chain.hwm ≤ 4294967295) (query : List F32)
    (k : ℕ) (ef : Option ℕ) : NoPanic (index.search δ pool query k ef) := by
  by_cases hok : ∃ hits, index.search δ pool query k ef = .ok hits
  · obtain ⟨hits, hhits⟩ := hok
    exact .of_eq_ok hhits
  · refine .bind (.failIf _) fun _ hlen => .bind (δ.distance_noPanic _ _ _) fun d hdist =>
      .bind (.failIf _) fun _ hef => absurd ?_ hok
    have hlen := not_not.mp (failIf_eq_ok.mp hlen)
    have hvalid := ValidVector.of_distance hlen hdist
    rw [hI.params_eq] at hvalid hef
    obtain ⟨hits, hhits, -⟩ := hA.search hI hle hvalid (not_lt.mp (failIf_eq_ok.mp hef))
    exact ⟨hits, hhits⟩

end Handle

/-! ## The audit as a whole -/

variable {pool : Pool} {meta_page_id : PageId}

theorem audit_meta_noPanic (pool : Pool) (meta_page_id : PageId) :
    NoPanic (audit_meta pool meta_page_id) :=
  .bind (pin_noPanic _ _ _) fun _ _ => .check <| read_meta_noPanic _

theorem audit_meta_eq_ok (h : audit_meta pool meta_page_id = .ok params) :
    ∃ page, pool meta_page_id = .ok page ∧ read_meta page = .ok params := by
  unfold audit_meta at h
  simp only [bind_eq_ok, failIf_eq_ok, exists_const, pin_eq_ok] at h
  obtain ⟨page, hpage, -, hmeta⟩ := h
  exact ⟨page, hpage, hmeta⟩

/-- The first pass. -/
theorem audit_entries_eq_ok {st : EntryPass} (hdim : graph.dim.toNat ≠ 0)
    (h : (List.range n).foldlM (audit_entry graph) EntryPass.start = .ok st) :
    Entries (.ofValue value) graph n st := by
  refine foldlM_range_eq_ok (Entries (.ofValue value) graph) ?_ ?_ h
  · exact ⟨rfl, fun j hj => absurd hj (Nat.not_lt_zero j)⟩
  · exact fun i s t _ hs hstep => audit_entry_eq_ok value hdim hs hstep

/-- The second pass. -/
theorem audit_edge_lists_eq_ok (hnode : ∀ j < n, NodeOk δ graph j)
    (h : (List.range n).foldlM (audit_edges graph top_levels) 0 = .ok edge_count) :
    ∀ j < n, ∀ level, HasTop top_levels level j → LinksOk graph top_levels level j := by
  refine foldlM_range_eq_ok (fun i _ => ∀ j < i, ∀ level, HasTop top_levels level j →
    LinksOk graph top_levels level j) (fun j hj => absurd hj (Nat.not_lt_zero j)) ?_ h
  intro i s t hi hI hstep j hj
  rcases Nat.lt_succ_iff_lt_or_eq.mp hj with hlt | rfl
  · exact hI j hlt
  · exact audit_edges_eq_ok (hnode j hi) hstep

theorem audit_entry_point_noPanic {hwm : ℕ} (hlen : top_levels.length = hwm) :
    NoPanic (audit_entry_point params hwm top_levels) := by
  unfold audit_entry_point
  split_ifs
  · exact .check (.ok _)
  · refine .bind (.failIf _) fun _ hlt => ?_
    have hlt := not_le.mp (failIf_eq_ok.mp hlt)
    exact .bind (.index (hlen ▸ hlt)) fun _ _ => .check (.ok _)

theorem audit_index_noPanic (pool : Pool) (meta_page_id : PageId) :
    NoPanic (audit_index pool meta_page_id) := by
  refine .bind (audit_meta_noPanic pool meta_page_id) fun params hmeta =>
    .bind (check_dir_chain_noPanic (pin_noPanic pool _) _) fun chain _ => ?_
  obtain ⟨page, -, hpage⟩ := audit_meta_eq_ok hmeta
  refine .bind ?_ fun entries hentries => ?_
  · exact FailsIn.foldlM_range (fun _ _ => True) trivial (fun _ _ _ _ _ _ => trivial)
      fun i st _ _ => audit_entry_noPanic _ st i
  -- what the passes after the first index is as long as the directory says
  have hlen := (audit_entries_eq_ok (fun _ _ _ => ()) (read_meta_eq_ok hpage)
    hentries).length_eq
  refine .bind (audit_entry_point_noPanic hlen) fun _ _ => .bind ?_ fun _ _ => ?_
  · exact FailsIn.foldlM_range (fun _ _ => True) trivial (fun _ _ _ _ _ _ => trivial)
      fun i c hi _ => audit_edges_noPanic hlen c hi
  · exact .bind (.foldlM fun c p _ => audit_orphans_noPanic pool _ c p) fun _ _ => .ok _

theorem audit_entry_point_eq_ok {hwm hidden : ℕ}
    (h : audit_entry_point params hwm top_levels = .ok hidden) :
    (hwm = 0 → params.entry_point.toNat = NodeId.INVALID) ∧
      (hwm ≠ 0 → HasTop top_levels params.max_level params.entry_point.toNat) := by
  unfold audit_entry_point at h
  split_ifs at h with hzero
  · simp only [bind_eq_ok, failIf_eq_ok, exists_const, not_or, not_not, ne_eq] at h
    exact ⟨fun _ => h.1.1, fun hne => absurd hzero hne⟩
  · simp only [bind_eq_ok, failIf_eq_ok, exists_const, index_eq_ok, not_not, ne_eq] at h
    obtain ⟨-, top, htop, rfl, -⟩ := h
    exact ⟨fun heq => absurd heq hzero, fun _ => ⟨_, htop, le_refl _⟩⟩

theorem audit_index_eq_ok {report : AuditReport} (h : audit_index pool meta_page_id = .ok report) :
    ∃ params chain top_levels page, pool meta_page_id = .ok page ∧ read_meta page = .ok params ∧
      check_dir_chain params.dir_head (pin pool "audit: pin directory page") = .ok chain ∧
      Audited (.ofValue value) params (audit_view pool params chain) top_levels ∧
      report.node_count = chain.hwm := by
  unfold audit_index at h
  simp only [bind_eq_ok, pure_eq_ok] at h
  obtain ⟨params, hmeta, chain, hchain, entries, hentries, hidden, hentry, edges, hedges, orphans,
    -, rfl⟩ := h
  obtain ⟨page, hpool, hpage⟩ := audit_meta_eq_ok hmeta
  have hpass := audit_entries_eq_ok value (read_meta_eq_ok hpage) hentries
  have hlinks := audit_edge_lists_eq_ok hpass.node hedges
  obtain ⟨hempty, htop⟩ := audit_entry_point_eq_ok hentry
  refine ⟨params, chain, entries.top_levels, page, hpool, hpage, hchain, ?_, rfl⟩
  exact ⟨hpass.length_eq, hpass.node,
    fun level e he => hlinks e (he.lt.trans_eq hpass.length_eq) level he, hempty, htop⟩

theorem check_expected_self (p : MetaParams) : check_expected p p.expected = .ok [] := by
  unfold check_expected MetaParams.expected
  simp [failIf, bind, Except.bind, pure, Except.pure]

/-- On audited pages `open` repairs nothing. -/
theorem Audited.open_index (hA : Audited δ params (audit_view pool params chain) top_levels)
    (hpool : pool meta_page_id = .ok page) (hpage : read_meta page = .ok params)
    (hchain : check_dir_chain params.dir_head (pin pool "open: pin directory page") = .ok chain)
    (hle : chain.hwm ≤ 4294967295) :
    ∃ index, OpenedOn pool params chain index ∧ ∀ append,
      HnswAm.open_index pool append meta_page_id params.expected = .ok ⟨index, [], none⟩ := by
  obtain ⟨current, hcurrent⟩ : ∃ current, last_node_page pool chain = .ok current := by
    unfold last_node_page
    split_ifs with hpos
    · obtain ⟨page', slot, -, hnode, -, -⟩ := hA.node (chain.hwm - 1) (Nat.sub_lt hpos Nat.one_pos)
      obtain ⟨page_id, hres, -, -⟩ := PagedGraph.node_page_eq_ok.mp hnode
      obtain ⟨p, dir, hp, hdir, -, hentry⟩ := PagedGraph.resolve_eq_ok.mp hres
      have hp : chain.pages[(chain.hwm - 1) / DIR_ENTRIES_PER_PAGE]? = some p :=
        PagedGraph.dir_page_snapshot rfl hp
      have hdir : pool p = .ok dir := hdir
      refine ⟨some page_id, ?_⟩
      rw [index_eq_ok.mpr hp, ok_bind, pin_eq_ok.mpr hdir, ok_bind, hentry]
      rfl
    · exact ⟨none, rfl⟩
  -- the entry point is either `INVALID` or below the high-water mark, as the audit has checked
  have hentry : ¬ (params.entry_point.toNat ≠ NodeId.INVALID ∧
      chain.hwm ≤ params.entry_point.toNat) := by
    rintro ⟨hne, hge⟩
    by_cases hzero : chain.hwm = 0
    · exact hne (hA.empty hzero)
    · exact absurd ((hA.entry hzero).lt.trans_eq hA.length_eq) (not_lt.mpr hge)
  have hrepair : ¬ (0 < chain.hwm ∧ params.entry_point.toNat = NodeId.INVALID) := by
    rintro ⟨hpos, heq⟩
    have hlt := (hA.entry hpos.ne').lt.trans_eq hA.length_eq
    exact absurd heq (hlt.trans_le hle).ne
  refine ⟨⟨meta_page_id, params.dir_head, params, chain.hwm,
    (params.entry_point.toNat, params.max_level), current, chain.pages⟩,
    ⟨rfl, rfl, rfl, rfl⟩, fun append => ?_⟩
  unfold HnswAm.open_index repair_meta
  rw [pin_eq_ok.mpr hpool, ok_bind, hpage, ok_bind, check_expected_self, ok_bind, hchain, ok_bind,
    failIf_of_not hentry, ok_bind, if_neg hrepair, hcurrent]
  rfl

/-- **An accepting audit makes searching safe.** Whatever the pages hold, the audit returns. If it
accepts, then `open` does, with the parameters of the meta page and without a repair, and no
search of the handle panics; one with a valid query and `ef ≥ k` returns at most `k` distinct
nodes, below the node count and in order of distance and identifier. -/
theorem audit_makes_search_safe [LinearOrder D] (value : Metric → List F32 → List F32 → D)
    (pool : Pool) (meta_page_id : PageId) :
    audit_index pool meta_page_id ≠ .error .panic ∧
    ∀ report, audit_index pool meta_page_id = .ok report →
      ∃ expected index, expected_params_of pool meta_page_id = .ok expected ∧
        (∀ append, open_index pool append meta_page_id expected = .ok ⟨index, [], none⟩) ∧
        (∀ query k ef, index.search (.ofValue value) pool query k ef ≠ .error .panic) ∧
        ∀ query k ef, ValidVector (.ofValue value) expected.metric expected.dim query →
          k ≤ ef.getD expected.ef_search_default.toNat →
          ∃ hits, index.search (.ofValue value) pool query k ef = .ok hits ∧
            Hits report.node_count k hits := by
  refine ⟨(audit_index_noPanic pool meta_page_id).ne_panic, fun report hreport => ?_⟩
  obtain ⟨params, chain, top_levels, page, hpool, hpage, hchain, hA, hcount⟩ :=
    audit_index_eq_ok value hreport
  obtain ⟨hwalk, hle⟩ := check_dir_chain_congr
    (fun p page h => pin_eq_ok.mpr (pin_eq_ok.mp h)) hchain
  obtain ⟨index, hI, hopen⟩ := hA.open_index hpool hpage hwalk hle
  refine ⟨params.expected, index, ?_, hopen, ?_, ?_⟩
  · unfold expected_params_of
    rw [pin_eq_ok.mpr hpool, ok_bind, hpage]
    rfl
  · exact fun query k ef => (hA.search_noPanic hI hle query k ef).ne_panic
  · intro query k ef hq hef
    rw [hcount]
    exact hA.search hI hle hq hef

/-- A page that is zero but for some fields: offset, width and value. -/
def page_of (fields : List (ℕ × ℕ × ℕ)) : Page :=
  fields.foldl (fun page f => page.writeLe f.1 f.2.1 f.2.2) Page.zero

/-- The pages of an index with one node: the meta page, the directory, and a page whose only
entry is a vector of dimension one, live and without neighbours. -/
def one_node_pool : Pool
  | 1 => .ok (page_of [(12, 2, PAGE_TYPE_META), (META_OFF_FORMAT_VERSION, 1, 1),
      (META_OFF_DIM, 2, 1), (META_OFF_M, 2, 2), (META_OFF_M_MAX0, 2, 2),
      (META_OFF_EF_CONSTRUCTION, 4, 2), (META_OFF_EF_SEARCH_DEFAULT, 4, 2),
      (META_OFF_DIR_HEAD, 8, 2), (META_OFF_SNAPSHOT_FORMAT_VERSION, 2, 1)])
  | 2 => .ok (page_of [(12, 2, PAGE_TYPE_DIR), (DIR_OFF_COUNT, 4, 1), (56, 8, 3)])
  | 3 => .ok (page_of [(12, 2, PAGE_TYPE_NODE), (14, 2, 36), (16, 2, 8177), (18, 2, 8192),
      (32, 4, 8177 + 2 ^ 15 + 15 * 2 ^ 17), (8181, 1, 64)])
  | _ => .error "no such page"

theorem audit_makes_search_safe_one_node :
    ∃ report hits, audit_index one_node_pool 1 = .ok report ∧ report.node_count = 1 ∧
      Hits 1 1 (hits : List (NodeId × ℕ)) := by
  have haudit : audit_index one_node_pool 1 = .ok ⟨1, 0, 0, 1, 0, 0, 0, 0, 0⟩ := by decide +kernel
  have hexp : expected_params_of one_node_pool 1 = .ok ⟨1, 2, 2, 2, 2, .L2, .Heuristic⟩ := by
    decide +kernel
  obtain ⟨-, hsafe⟩ := audit_makes_search_safe (fun _ _ _ => 0) one_node_pool 1
  obtain ⟨expected, index, hexp', -, -, hsearch⟩ := hsafe _ haudit
  obtain rfl := Except.ok.inj (hexp.symm.trans hexp')
  have hfinite : ∀ x ∈ ([0] : List F32), F32.is_finite x = true := by
    intro x hx
    rw [List.mem_singleton.mp hx]
    rfl
  obtain ⟨hits, -, hhits⟩ := hsearch [0] 1 (some 1)
    ⟨rfl, List.cons_ne_nil 0 [], hfinite, fun h => nomatch h⟩ (le_refl 1)
  exact ⟨_, hits, haudit, rfl, hhits⟩

end Ams.HnswAm
