/-
Saving and loading a graph, `pg-am-hnsw/src/snapshot.rs`.

A snapshot file is a CRC prefix and a body. `save` streams the body behind a placeholder and
writes the CRC over it at the end; `load_with_budget` reads the fixed-width prefix, bounds the
rest of the file from below and from above by what the header allows, and only then reads and
decodes it. The model of a file is its bytes: the file system returns what was written, and the
temporary name and the rename are left out.

Every graph that inserts can build satisfies the checklist of the encoder and fits both bounds
of the loader. The upper bound is the one to look at, since it is computed from the header
alone: it counts 64 levels a node, and a level that is drawn is at most 53.
-/
import Ams.HnswCodec
import Ams.HnswMemory

set_option autoImplicit false

namespace Ams.HnswAm

open Ams.Lib

/-! ## The file -/

abbrev U64_MAX : ℕ := 18446744073709551615

/-- `u64::saturating_add`. -/
def saturating_add (a b : ℕ) : ℕ := min (a + b) U64_MAX

theorem saturating_add_eq {a b : ℕ} (h : a + b ≤ U64_MAX) : saturating_add a b = a + b :=
  min_eq_left h

structure LoadBudget where
  max_file_bytes : ℕ
  max_memory_bytes : ℕ
deriving DecidableEq, Repr

def LoadBudget.unlimited : LoadBudget := ⟨U64_MAX, U64_MAX⟩

/-- The most bytes a record of the header's graph can have. -/
def per_record_max (h : SnapshotHeader) : ℕ :=
  2 + 4 * h.dim.toNat + 1 + (2 + 4 * h.m_max0.toNat) + 63 * (2 + 4 * h.m.toNat)

def max_body_size (h : SnapshotHeader) : ℕ :=
  SNAPSHOT_HEADER_SIZE + h.node_count.toNat * per_record_max h

def max_records_size (h : SnapshotHeader) : ℕ := max_body_size h - SNAPSHOT_HEADER_SIZE

def max_memory_estimate (h : SnapshotHeader) : ℕ :=
  h.node_count.toNat * (2 * (4 * h.dim.toNat) + 1 + 24 + 48 + 24 + 2 * 24 * MAX_LEVEL_COUNT +
    2 * (4 * h.m_max0.toNat + 63 * 4 * h.m.toNat))

def params_from_header (h : SnapshotHeader) (ef_search_default : UInt32) : Result HnswParams :=
  HnswParams.new h.m h.m_max0 h.ef_construction ef_search_default

def unwrap_crc32 (bytes : List UInt8) : Result (List UInt8) := do
  failIf (bytes.length < CRC32_SIZE) (corrupted
    s!"too short for the CRC32 prefix: {bytes.length} bytes")
  let stored := ofLe (bytes.take CRC32_SIZE)
  let body := bytes.drop CRC32_SIZE
  let computed := (crc32 body).toNat
  failIf (stored ≠ computed) (.err (.ChecksumMismatch stored computed))
  return body

/-! ## Saving -/

def snapshot_header (g : Hnsw) : SnapshotHeader where
  dim := g.dim
  m := g.params.m
  m_max0 := g.params.m_max0
  ef_construction := g.params.ef_construction
  node_count := .ofNat g.node_count
  entry_point := .ofNat (g.entry_point.getD EMPTY_GRAPH_ENTRY_POINT)
  max_level := .ofNat g.max_level

/-- The loop of `stream_and_rename` over the nodes. -/
def stream_records (g : Hnsw) : List NodeId → BodyEncoder → Result BodyEncoder
  | [], enc => .ok enc
  | id :: ids, enc => do
    let vector ← g.vector id
    let neighbors ← g.node_adjacency id
    let enc ← enc.push_record vector neighbors
    stream_records g ids enc

/-- The bytes of the file that `save` leaves. -/
def save (g : Hnsw) : Result (List UInt8) := do
  let enc ← BodyEncoder.new (snapshot_header g) g.levels [0, 0, 0, 0]
  let enc ← stream_records g (List.range g.node_count) enc
  let (crc, bytes) ← enc.finish
  return leBytes 4 crc.toNat ++ bytes.drop CRC32_SIZE

/-! ## Loading -/

def body_len (file_len : ℕ) : ℕ := file_len - (CRC32_SIZE + SNAPSHOT_HEADER_SIZE)

def read_cap (max_file_bytes max_records : ℕ) : ℕ :=
  saturating_add
    (min max_file_bytes (saturating_add (CRC32_SIZE + SNAPSHOT_HEADER_SIZE) max_records)) 1

/-- The rest of the file, up to the cap. It must fit the reserve of `file_len + 1` bytes. -/
def read_body_capped (reader start : List UInt8) (file_len remaining_cap : ℕ) :
    Result (List UInt8) := do
  let capped := reader.take remaining_cap
  failIf (saturating_add file_len 1 < start.length + capped.length) (corrupted
    s!"snapshot grew beyond its metadata length {file_len} during read (reserve of {saturating_add file_len 1} bytes exhausted; concurrent writers are outside the §7 threat model but must fail loudly, not silently truncate)")
  return start ++ capped

def Hnsw.from_parts (dim : UInt16) (metric : Metric) (params : HnswParams)
    (entry_point : Option NodeId) (max_level : ℕ) (vectors : List F32) (levels : List ℕ)
    (adjacency : List (List (List NodeId))) : Hnsw :=
  ⟨dim, metric, params, .Heuristic, vectors, levels, adjacency, entry_point, max_level, true⟩

variable {D : Type}

/-- §5 entry validation at load: the cosine distance takes no zero vector. -/
def check_zero_vectors (δ : Distance D) (metric : Metric) (nodes : List NodeRecord) : Result Unit :=
  if metric = .Cosine then
    nodes.zipIdx.forM fun (r, i) => failIf ((δ.distance metric r.vector r.vector).toOption.isNone)
      (invalid_argument
        s!"node {i}: zero vector cannot serve Metric::Cosine — the snapshot was built for a different metric (§3: metric is caller-supplied; §5 entry validation holds at load)")
  else .ok ()

def load_with_budget (δ : Distance D) (file : List UInt8) (metric : Metric)
    (ef_search_default : UInt32) (budget : LoadBudget) : Result Hnsw := do
  failIf (budget.max_file_bytes < CRC32_SIZE + SNAPSHOT_HEADER_SIZE) (invalid_argument
    s!"budget {budget.max_file_bytes} below the {CRC32_SIZE + SNAPSHOT_HEADER_SIZE}-byte fixed-width prefix (§7)")
  let file_len := file.length
  failIf (file_len < CRC32_SIZE + SNAPSHOT_HEADER_SIZE) (corrupted
    s!"snapshot too short: {file_len} bytes, need at least {CRC32_SIZE + SNAPSHOT_HEADER_SIZE} (CRC32 prefix + fixed-width header, §7/§3)")
  let start := file.take (CRC32_SIZE + SNAPSHOT_HEADER_SIZE)
  let header ← SnapshotHeader.decode (start.drop CRC32_SIZE)
  failIf (file_len > budget.max_file_bytes) (invalid_argument
    s!"snapshot file is {file_len} bytes, budget is {budget.max_file_bytes} (load_with_budget; §7 threat model: untrusted sources must set a budget)")
  let max_records := max_records_size header
  let memory_estimate := max_memory_estimate header
  let file_image := read_cap budget.max_file_bytes max_records
  let peak_estimate := saturating_add memory_estimate file_image
  failIf (peak_estimate > budget.max_memory_bytes) (invalid_argument
    s!"estimated peak in-memory footprint of this snapshot is {peak_estimate} bytes (heap materialization {memory_estimate} + file image {file_image}), budget is {budget.max_memory_bytes} (load_with_budget; §7 threat model: byte budget != memory budget — the SoA materialization amplifies pathological shapes)")
  let params ← params_from_header header ef_search_default
  let body_bytes := body_len file_len
  failIf (header.node_count.toNat > body_bytes / min_record_size header.dim) (corrupted
    s!"node_count {header.node_count} exceeds the {body_bytes / min_record_size header.dim} records that fit in the {body_bytes} body bytes of the file (min record size {min_record_size header.dim}) — pre-read length cross-check")
  failIf (body_bytes > max_records) (corrupted
    s!"file is larger than the maximum legal size for its header — trailing garbage ({body_bytes} body bytes > max {max_records}; §3 checklist item 7 rejects trailing bytes, checked pre-read so a hostile/sparse file is never fully read)")
  let remaining_cap := read_cap budget.max_file_bytes max_records - (CRC32_SIZE + SNAPSHOT_HEADER_SIZE)
  let bytes ← read_body_capped (file.drop (CRC32_SIZE + SNAPSHOT_HEADER_SIZE)) start file_len remaining_cap
  let body ← unwrap_crc32 bytes
  let decoded ← decode_snapshot_body body
  let nodes := decoded.nodes
  check_zero_vectors δ metric nodes
  let header := decoded.header
  return Hnsw.from_parts header.dim metric params
    (if 0 < header.node_count.toNat then some header.entry_point.toNat else none)
    header.max_level.toNat (nodes.flatMap NodeRecord.vector) (top_levels nodes)
    (nodes.map NodeRecord.neighbors)

/-- `snapshot::load`. -/
def load (δ : Distance D) (file : List UInt8) (metric : Metric) (ef_search_default : UInt32) :
    Result Hnsw := load_with_budget δ file metric ef_search_default .unlimited

/-! ## The records of a graph -/

/-- The node as it is written. -/
def Hnsw.record (g : Hnsw) (i : NodeId) : NodeRecord := ⟨g.components i, g.adjacency.getD i []⟩

def Hnsw.records (g : Hnsw) : List NodeRecord := (List.range g.node_count).map g.record

namespace Hnsw

variable {δ : Distance D} {g : Hnsw}

theorem length_records (g : Hnsw) : g.records.length = g.node_count := by
  rw [records, List.length_map, List.length_range]

variable {i : ℕ}

theorem records_getElem? {r : NodeRecord} (h : g.records[i]? = some r) :
    i < g.node_count ∧ r = g.record i := by
  rw [records, List.getElem?_map] at h
  obtain ⟨j, hj, rfl⟩ := Option.map_eq_some_iff.mp h
  obtain ⟨hlt, rfl⟩ := List.getElem?_eq_some_iff.mp hj
  rw [List.length_range] at hlt
  rw [List.getElem_range]
  exact ⟨hlt, rfl⟩

theorem l_max_le {m : UInt16} (h : 2 ≤ m.toNat) : l_max m ≤ 53 := by
  refine (Nat.log_anti_left (by norm_num) h).trans ?_
  rw [Nat.log_pow (by norm_num)]

section Ok

variable (hg : GraphOk δ g)

include hg

theorem GraphOk.level_le_53 {top : ℕ} (h : top ∈ g.levels) : top ≤ 53 :=
  (hg.level_le top h).trans (l_max_le g.params.two_le_m)

/-- The adjacency of a node. -/
theorem GraphOk.adjacency_getElem? (h : i < g.node_count) :
    g.adjacency[i]? = some (g.adjacency.getD i []) := by
  have hlt : i < g.adjacency.length := by
    rw [hg.shape.adjacency_length]
    exact h
  rw [List.getD, List.getElem?_eq_getElem hlt, Option.getD_some]

theorem GraphOk.levels_getElem? (h : i < g.node_count) :
    g.levels[i]? = some ((g.adjacency.getD i []).length - 1) :=
  (hg.shape.heights i _ (hg.adjacency_getElem? h)).1

theorem GraphOk.record_height (h : i < g.node_count) :
    0 < (g.record i).neighbors.length ∧ (g.record i).neighbors.length ≤ 54 := by
  obtain ⟨hlevel, hpos⟩ := hg.shape.heights i _ (hg.adjacency_getElem? h)
  have hle := hg.level_le_53 (List.mem_of_getElem? hlevel)
  refine ⟨hpos, ?_⟩
  change (g.adjacency.getD i []).length ≤ 54
  omega

/-- The summary of the levels is that of the records. -/
theorem GraphOk.top_levels : top_levels g.records = g.levels := by
  apply List.ext_getElem?
  intro i
  rw [HnswAm.top_levels, records, List.map_map, List.getElem?_map]
  by_cases h : i < g.node_count
  · obtain ⟨hpos, hle⟩ := hg.record_height h
    rw [List.getElem?_range h, hg.levels_getElem? h]
    change some (((g.record i).neighbors.length - 1) % 256) = some ((g.record i).neighbors.length - 1)
    rw [Nat.mod_eq_of_lt (by omega)]
  · rw [List.getElem?_eq_none (by rw [List.length_range]; omega),
      List.getElem?_eq_none (not_lt.mp h)]
    rfl

theorem GraphOk.header_node_count : (snapshot_header g).node_count.toNat = g.node_count := by
  refine UInt32.toNat_ofNat_of_lt' ?_
  exact lt_of_le_of_lt hg.count (by decide)

theorem GraphOk.max_level_le : g.max_level ≤ 53 := by
  cases hep : g.entry_point with
  | none => exact (hg.entry.empty hep).2 ▸ Nat.zero_le 53
  | some ep => exact hg.level_le_53 (List.mem_of_getElem? (hg.entry.top ep hep))

theorem GraphOk.header_max_level : (snapshot_header g).max_level.toNat = g.max_level := by
  refine UInt8.toNat_ofNat_of_lt' ?_
  exact lt_of_le_of_lt hg.max_level_le (by decide)

theorem GraphOk.header_entry_point :
    (snapshot_header g).entry_point.toNat = g.entry_point.getD EMPTY_GRAPH_ENTRY_POINT := by
  refine UInt32.toNat_ofNat_of_lt' ?_
  cases hep : g.entry_point with
  | none => decide
  | some ep =>
    have hlt : ep < g.node_count := (List.getElem?_eq_some_iff.mp (hg.entry.top ep hep)).1
    exact (hlt.trans_le hg.count).trans (by decide)

theorem GraphOk.entryOk : EntryOk (snapshot_header g) g.levels := by
  refine ⟨?_, ?_, ?_⟩
  · intro h0
    rw [hg.header_node_count] at h0
    cases hep : g.entry_point with
    | none =>
      rw [hg.header_entry_point, hg.header_max_level, hep]
      exact ⟨rfl, (hg.entry.empty hep).2⟩
    | some ep =>
      have hlt : ep < g.node_count := (List.getElem?_eq_some_iff.mp (hg.entry.top ep hep)).1
      rw [h0] at hlt
      exact absurd hlt (Nat.not_lt_zero ep)
  · intro hne
    rw [hg.header_node_count] at hne
    cases hep : g.entry_point with
    | none => exact absurd (hg.entry.empty hep).1 hne
    | some ep =>
      have htop := hg.entry.top ep hep
      rw [hg.header_entry_point, hg.header_max_level, hg.header_node_count, hep]
      exact ⟨(List.getElem?_eq_some_iff.mp htop).1, htop⟩
  · rw [hg.header_max_level]
    exact hg.entry.highest

theorem GraphOk.adjacencyOk (h : i < g.node_count) :
    AdjacencyOk (snapshot_header g) g.levels i (g.record i).neighbors := by
  intro l list hl
  have hlist : g.list? i l = some list :=
    Option.bind_eq_some_iff.mpr ⟨_, hg.adjacency_getElem? h, hl⟩
  have hadj := hg.shape.lists i l list hlist
  refine ⟨hadj.degree, hadj.ascending, hadj.no_loop, fun x hx => ?_⟩
  rw [hg.header_node_count]
  exact ⟨(hadj.target x hx).lt, hadj.target x hx⟩

theorem GraphOk.recordOk (h : i < g.node_count) : RecordOk (snapshot_header g) (g.record i) := by
  obtain ⟨hpos, hle⟩ := hg.record_height h
  have hv := hg.shape.vectors i h
  refine ⟨hv.length_eq, hv.finite, List.length_pos_iff.mp hpos, ?_⟩
  unfold MAX_LEVEL_COUNT
  omega

/-- **A graph built by inserts is one the encoder takes.** -/
theorem GraphOk.validGraph : ValidGraph (snapshot_header g) g.records := by
  refine ⟨⟨hg.dim, g.params.two_le_m, g.params.m_le_ef_construction, g.params.m_le_m_max0⟩, ?_, ?_,
    ?_, ?_⟩
  · rw [hg.header_node_count, length_records]
  · intro r hr
    obtain ⟨i, hi⟩ := List.mem_iff_getElem?.mp hr
    obtain ⟨hlt, rfl⟩ := records_getElem? hi
    exact hg.recordOk hlt
  · rw [hg.top_levels]
    exact hg.entryOk
  · intro i r hi
    obtain ⟨hlt, rfl⟩ := records_getElem? hi
    rw [hg.top_levels]
    exact hg.adjacencyOk hlt

/-! ## The file of a graph -/

/-- What `save` writes. -/
def file_bytes (g : Hnsw) : List UInt8 :=
  leBytes 4 (crc32 (body_bytes (snapshot_header g) g.records)).toNat ++
    body_bytes (snapshot_header g) g.records

theorem GraphOk.stream_records {ids : List NodeId}
    (hids : ∀ i ∈ ids, i < g.node_count) (enc : BodyEncoder) :
    HnswAm.stream_records g ids enc = enc.push_records (ids.map g.record) := by
  induction ids generalizing enc with
  | nil => rfl
  | cons i ids ih =>
    obtain ⟨hi, hids⟩ := List.forall_mem_cons.mp hids
    have hadj : g.node_adjacency i = .ok (g.adjacency.getD i []) :=
      index_eq_ok.mpr (hg.adjacency_getElem? hi)
    rw [HnswAm.stream_records, hg.shape.vector_eq hi, hadj, List.map_cons,
      BodyEncoder.push_records, List.foldlM_cons]
    change (enc.push_record (g.record i).vector (g.record i).neighbors >>= _) = _
    congr 1
    funext enc'
    exact ih hids enc'

/-- **Saving.** A graph built by inserts is saved. -/
theorem GraphOk.save : save g = .ok (file_bytes g) := by
  have hfeed : BodyEncoder.feed (snapshot_header g) g.records [0, 0, 0, 0] =
      .ok (crc32 (body_bytes (snapshot_header g) g.records),
        [0, 0, 0, 0] ++ body_bytes (snapshot_header g) g.records) :=
    BodyEncoder.feed_eq_ok.mpr ⟨hg.validGraph, rfl, rfl⟩
  unfold BodyEncoder.feed at hfeed
  rw [hg.top_levels] at hfeed
  unfold HnswAm.save
  simp only [bind_eq_ok, pure_eq_ok] at hfeed ⊢
  obtain ⟨enc, hnew, enc', hpush, hfinish⟩ := hfeed
  refine ⟨enc, hnew, enc', ?_, _, hfinish, rfl⟩
  rw [hg.stream_records (fun i hi => List.mem_range.mp hi)]
  exact hpush

end Ok

/-! ## The bounds of the loader -/

theorem length_list_bytes (list : List NodeId) : (list_bytes list).length = 2 + 4 * list.length := by
  rw [list_bytes, List.length_append, length_leBytes, List.length_flatMap]
  simp [Nat.mul_comm]

theorem length_flatMap_le {α β : Type} {f : α → List β} {l : List α} {k : ℕ}
    (h : ∀ a ∈ l, (f a).length ≤ k) : (l.flatMap f).length ≤ l.length * k := by
  induction l with
  | nil => simp
  | cons a l ih =>
    obtain ⟨ha, hl⟩ := List.forall_mem_cons.mp h
    rw [List.flatMap_cons, List.length_append, List.length_cons, Nat.add_mul, Nat.one_mul,
      Nat.add_comm]
    exact Nat.add_le_add (ih hl) ha

/-- A record is within the bound computed from the header. -/
theorem length_record_bytes_le {h : SnapshotHeader} {levels : List ℕ} {r : NodeRecord}
    (hrec : RecordOk h r) (hadj : AdjacencyOk h levels i r.neighbors) :
    (record_bytes r).length ≤ per_record_max h := by
  obtain ⟨list, lists, heq⟩ := List.exists_cons_of_ne_nil hrec.level_pos
  have hvec : (r.vector.flatMap fun x => leBytes 4 x.toNat).length = 4 * h.dim.toNat := by
    rw [List.length_flatMap, ← hrec.dim]
    simp [Nat.mul_comm]
  have hfirst : (list_bytes list).length ≤ 2 + 4 * h.m_max0.toNat := by
    have hdeg := (hadj 0 list (by rw [heq]; rfl)).degree
    rw [length_list_bytes]
    exact Nat.add_le_add_left (Nat.mul_le_mul_left 4 hdeg) 2
  have hrest : (lists.flatMap list_bytes).length ≤ 63 * (2 + 4 * h.m.toNat) := by
    have hcount : lists.length ≤ 63 := by
      have hle := hrec.level_le
      rw [heq, List.length_cons] at hle
      unfold MAX_LEVEL_COUNT at hle
      omega
    refine (length_flatMap_le (k := 2 + 4 * h.m.toNat) fun l hl => ?_).trans
      (Nat.mul_le_mul_right _ hcount)
    obtain ⟨j, hj⟩ := List.mem_iff_getElem?.mp hl
    have hdeg := (hadj (j + 1) l (by rw [heq]; exact hj)).degree
    rw [length_list_bytes]
    exact Nat.add_le_add_left (Nat.mul_le_mul_left 4 hdeg) 2
  rw [record_bytes, heq]
  simp only [List.length_append, List.length_singleton, hvec, length_leBytes, List.flatMap_cons]
  unfold per_record_max
  omega

theorem max_records_size_eq (h : SnapshotHeader) :
    max_records_size h = h.node_count.toNat * per_record_max h := Nat.add_sub_cancel_left ..

/-- No length that is computed from a header overflows. -/
theorem max_body_size_lt (h : SnapshotHeader) : max_body_size h < 2 ^ 63 := by
  have hrec : per_record_max h ≤ 2 ^ 25 := by
    have hd := h.dim.toNat_lt
    have hm := h.m.toNat_lt
    have h0 := h.m_max0.toNat_lt
    unfold per_record_max
    omega
  have hmul := Nat.mul_le_mul h.node_count.toNat_lt.le hrec
  unfold max_body_size SNAPSHOT_HEADER_SIZE
  omega

/-- The records of a graph, in bytes. -/
theorem GraphOk.length_records_le (hg : GraphOk δ g) :
    (g.records.flatMap record_bytes).length ≤ max_records_size (snapshot_header g) := by
  rw [max_records_size_eq, hg.header_node_count, ← length_records]
  refine length_flatMap_le fun r hr => ?_
  obtain ⟨i, hi⟩ := List.mem_iff_getElem?.mp hr
  obtain ⟨hlt, rfl⟩ := records_getElem? hi
  exact length_record_bytes_le (hg.recordOk hlt) (hg.adjacencyOk hlt)

/-! ## Loading what was saved -/

/-- The graph that is loaded. -/
def reloaded (g : Hnsw) (params : HnswParams) : Hnsw :=
  { g with params := params, selection := .Heuristic, read_only := true }

theorem flatten_chunks {k n : ℕ} {l : List F32} (h : l.length = n * k) :
    (List.range n).flatMap (fun i => (l.drop (i * k)).take k) = l := by
  induction n generalizing l with
  | zero =>
    rw [Nat.zero_mul] at h
    rw [List.length_eq_zero_iff.mp h]
    rfl
  | succ n ih =>
    have hdrop : (l.drop k).length = n * k := by
      rw [List.length_drop, h, Nat.succ_mul, Nat.add_sub_cancel]
    rw [List.range_succ_eq_map, List.flatMap_cons, Nat.zero_mul, List.drop_zero, List.flatMap_map]
    have hstep : ∀ i, (l.drop ((i + 1) * k)).take k = ((l.drop k).drop (i * k)).take k := by
      intro i
      rw [List.drop_drop, Nat.succ_mul, Nat.add_comm]
    simp only [Nat.succ_eq_add_one, hstep]
    rw [ih hdrop, List.take_append_drop]

theorem GraphOk.flatMap_vector (hg : GraphOk δ g) :
    g.records.flatMap NodeRecord.vector = g.vectors := by
  rw [records, List.flatMap_map]
  exact flatten_chunks hg.shape.vectors_length

theorem GraphOk.map_neighbors (hg : GraphOk δ g) :
    g.records.map NodeRecord.neighbors = g.adjacency := by
  apply List.ext_getElem?
  intro i
  rw [records, List.map_map, List.getElem?_map]
  by_cases h : i < g.node_count
  · rw [List.getElem?_range h, hg.adjacency_getElem? h]
    rfl
  · rw [List.getElem?_eq_none (by rw [List.length_range]; omega), List.getElem?_eq_none]
    · rfl
    · rw [hg.shape.adjacency_length]
      exact not_lt.mp h

theorem GraphOk.entry_point_eq (hg : GraphOk δ g) :
    (if 0 < (snapshot_header g).node_count.toNat then
      some (snapshot_header g).entry_point.toNat else none) = g.entry_point := by
  rw [hg.header_node_count, hg.header_entry_point]
  cases hep : g.entry_point with
  | none =>
    rw [(hg.entry.empty hep).1]
    rfl
  | some ep =>
    have hlt : ep < g.node_count := (List.getElem?_eq_some_iff.mp (hg.entry.top ep hep)).1
    rw [if_pos (Nat.zero_lt_of_lt hlt)]
    rfl

theorem GraphOk.unwrap_crc32 (g : Hnsw) : unwrap_crc32 (file_bytes g) =
    .ok (body_bytes (snapshot_header g) g.records) := by
  unfold HnswAm.unwrap_crc32 file_bytes
  set body := body_bytes (snapshot_header g) g.records
  have hlen : (leBytes 4 (crc32 body).toNat).length = 4 := length_leBytes _ _
  have htake : (leBytes 4 (crc32 body).toNat ++ body).take CRC32_SIZE =
      leBytes 4 (crc32 body).toNat := by
    have h : (leBytes 4 (crc32 body).toNat ++ body).take (leBytes 4 (crc32 body).toNat).length =
      leBytes 4 (crc32 body).toNat := List.take_left
    rwa [hlen] at h
  have hdrop : (leBytes 4 (crc32 body).toNat ++ body).drop CRC32_SIZE = body := by
    have h : (leBytes 4 (crc32 body).toNat ++ body).drop (leBytes 4 (crc32 body).toNat).length =
      body := List.drop_left
    rwa [hlen] at h
  simp only [bind_eq_ok, failIf_eq_ok, exists_const, pure_eq_ok]
  rw [htake, hdrop, ofLe_leBytes_of_lt (crc32 body).isLt]
  refine ⟨?_, not_not.mpr rfl, rfl⟩
  rw [List.length_append, hlen]
  exact not_lt.mpr (Nat.le_add_right 4 _)

/-- The parameters that are loaded. -/
theorem params_from_header_eq (g : Hnsw) {esd : UInt32} (h : g.params.m.toNat ≤ esd.toNat) :
    params_from_header (snapshot_header g) esd = .ok ⟨g.params.m, g.params.m_max0,
      g.params.ef_construction, esd, g.params.two_le_m, g.params.m_le_m_max0,
      g.params.m_le_ef_construction, h⟩ := by
  change HnswParams.new g.params.m g.params.m_max0 g.params.ef_construction esd = _
  unfold HnswParams.new
  rw [dif_neg (not_lt.mpr g.params.two_le_m), dif_neg (not_lt.mpr g.params.m_le_m_max0),
    dif_neg (not_lt.mpr g.params.m_le_ef_construction), dif_neg (not_lt.mpr h)]

/-- **Loading.** A saved graph passes every check of the loader. -/
theorem GraphOk.load (hg : GraphOk δ g) {ef_search_default : UInt32} {params : HnswParams}
    (hparams : params_from_header (snapshot_header g) ef_search_default = .ok params) :
    load δ (file_bytes g) g.metric ef_search_default = .ok (g.reloaded params) := by
  have h4 : CRC32_SIZE = 4 := rfl
  have h25 : SNAPSHOT_HEADER_SIZE = 25 := rfl
  have hu64 : U64_MAX = 18446744073709551615 := rfl
  set h := snapshot_header g with hh
  set records := g.records.flatMap record_bytes with hrecords
  have hvalid := hg.validGraph
  have hfile : file_bytes g = leBytes 4 (crc32 (body_bytes h g.records)).toNat ++
      (h.encode ++ records) := rfl
  have hcrclen : (leBytes 4 (crc32 (body_bytes h g.records)).toNat).length = 4 := length_leBytes _ _
  have hlen : (file_bytes g).length = 29 + records.length := by
    rw [hfile, List.length_append, List.length_append, hcrclen, h.length_encode]
    omega
  have hmax : records.length ≤ max_records_size h := hg.length_records_le
  have hbig : max_records_size h < 2 ^ 63 :=
    lt_of_le_of_lt (Nat.sub_le _ _) (max_body_size_lt h)
  have hcap : read_cap U64_MAX (max_records_size h) = 30 + max_records_size h := by
    unfold read_cap saturating_add
    omega
  have hstart : ((file_bytes g).take (CRC32_SIZE + SNAPSHOT_HEADER_SIZE)).drop CRC32_SIZE =
      h.encode := by
    rw [List.drop_take, hfile]
    have hdrop : (leBytes 4 (crc32 (body_bytes h g.records)).toNat ++ (h.encode ++ records)).drop
        CRC32_SIZE = h.encode ++ records := by
      have hd : (leBytes 4 (crc32 (body_bytes h g.records)).toNat ++ (h.encode ++ records)).drop
        (leBytes 4 (crc32 (body_bytes h g.records)).toNat).length = h.encode ++ records :=
        List.drop_left
      rwa [hcrclen] at hd
    have htake : (h.encode ++ records).take SNAPSHOT_HEADER_SIZE = h.encode := by
      have ht : (h.encode ++ records).take h.encode.length = h.encode := List.take_left
      rwa [h.length_encode] at ht
    rw [hdrop]
    exact htake
  have hread : read_body_capped ((file_bytes g).drop (CRC32_SIZE + SNAPSHOT_HEADER_SIZE))
      ((file_bytes g).take (CRC32_SIZE + SNAPSHOT_HEADER_SIZE)) (file_bytes g).length
      (read_cap U64_MAX (max_records_size h) - (CRC32_SIZE + SNAPSHOT_HEADER_SIZE)) =
      .ok (file_bytes g) := by
    have hrest : ((file_bytes g).drop (CRC32_SIZE + SNAPSHOT_HEADER_SIZE)).length ≤
        read_cap U64_MAX (max_records_size h) - (CRC32_SIZE + SNAPSHOT_HEADER_SIZE) := by
      rw [List.length_drop, hlen, hcap]
      omega
    unfold read_body_capped
    simp only [bind_eq_ok, failIf_eq_ok, exists_const, pure_eq_ok]
    rw [List.take_of_length_le hrest, List.take_append_drop, List.length_take, List.length_drop,
      hlen]
    refine ⟨?_, rfl⟩
    rw [saturating_add_eq (by omega)]
    omega
  have hmin : 0 < min_record_size h.dim := by
    unfold min_record_size
    omega
  unfold HnswAm.load load_with_budget LoadBudget.unlimited
  simp only [bind_eq_ok, failIf_eq_ok, exists_const, pure_eq_ok]
  rw [hstart, hlen]
  refine ⟨by decide, by omega, h, ?_, ?_, ?_, params, hparams, ?_, ?_, file_bytes g, ?_,
    body_bytes h g.records, GraphOk.unwrap_crc32 g, ⟨h, g.records⟩,
    decode_snapshot_body_eq_ok.mpr ⟨hvalid, rfl⟩, ?_⟩
  · exact SnapshotHeader.decode_eq_ok.mpr ⟨hvalid.construction, [], (List.append_nil _).symm⟩
  · omega
  · unfold saturating_add
    omega
  · -- every record has at least the least size
    have hsize := mul_le_length_flatMap fun r hr => (hvalid.decodable r hr).min_record_size_le
    rw [gt_iff_lt, not_lt, Nat.le_div_iff_mul_le hmin, hvalid.count]
    unfold body_len
    rw [show 29 + records.length - (CRC32_SIZE + SNAPSHOT_HEADER_SIZE) = records.length by omega]
    exact hsize
  · unfold body_len
    omega
  · rw [← hlen]
    exact hread
  · refine ⟨(), ?_, ?_⟩
    · unfold check_zero_vectors
      split_ifs with hcos
      · refine forM_zipIdx_eq_ok.mpr fun i r hi => failIf_eq_ok.mpr ?_
        obtain ⟨hlt, rfl⟩ := records_getElem? hi
        have hv := hg.shape.vectors i hlt
        change ¬ (δ.distance g.metric (g.components i) (g.components i)).toOption.isNone = true
        rw [hv.distance hv]
        exact Bool.false_ne_true
      · rfl
    · rw [hg.flatMap_vector, hg.map_neighbors, hg.top_levels, hg.entry_point_eq,
        hg.header_max_level]
      rfl

/-! ## Searching what was loaded -/

section Search

variable [LinearOrder D]

omit [LinearOrder D] in
theorem answer_reloaded (δ : Distance D) (g : Hnsw) (params : HnswParams) :
    (g.reloaded params).answer δ = g.answer δ := by
  funext q
  cases q with
  | dist_to_query query node => rfl
  | dist_between a b => rfl
  | for_each_neighbor node level => rfl

theorem search_layer_reloaded (δ : Distance D) (g : Hnsw) (params : HnswParams) (query : List F32)
    (eps : List NodeId) (ef l : ℕ) :
    (g.reloaded params).search_layer δ query eps ef l = g.search_layer δ query eps ef l := by
  unfold search_layer
  rw [answer_reloaded]
  rfl

theorem descend_reloaded (δ : Distance D) (g : Hnsw) (params : HnswParams) (query : List F32)
    (ls : List ℕ) (ep : NodeId) :
    (g.reloaded params).descend δ query ls ep = g.descend δ query ls ep := by
  induction ls generalizing ep with
  | nil => rfl
  | cons l ls ih =>
    rw [descend, descend, search_layer_reloaded]
    simp only [ih]

/-- The parameters matter to a search only for the default width of the beam. -/
theorem search_reloaded (δ : Distance D) (g : Hnsw) (params : HnswParams) (query : List F32)
    (k : ℕ) (ef : Option ℕ)
    (hef : ef ≠ none ∨ params.ef_search_default = g.params.ef_search_default) :
    (g.reloaded params).search δ query k ef = g.search δ query k ef := by
  have hdefault : ef.getD (g.reloaded params).params.ef_search_default.toNat =
      ef.getD g.params.ef_search_default.toNat := by
    cases ef with
    | none =>
      have h := hef.resolve_left fun h => h rfl
      change params.ef_search_default.toNat = _
      rw [h]
      rfl
    | some ef => rfl
  unfold search
  rw [hdefault]
  simp only [descend_reloaded, search_layer_reloaded]
  rfl

/-! ## Every history -/

/-- A sequence of inserts, each with the level that is drawn for it. -/
def insert_all (δ : Distance D) (g : Hnsw) (history : List (List F32 × ℕ)) : Result Hnsw :=
  history.foldlM (fun g p => do
    let r ← g.insert δ p.1 p.2
    return r.1) g

omit [LinearOrder D] in
theorem graphOk_build {dim : UInt16} {metric : Metric} {params : HnswParams}
    {selection : NeighborSelection} (h : build dim metric params selection = .ok g) :
    GraphOk δ g ∧ g.params = params ∧ g.metric = metric := by
  unfold build at h
  simp only [bind_eq_ok, failIf_eq_ok, exists_const, pure_eq_ok] at h
  obtain ⟨hdim, rfl⟩ := h
  refine ⟨⟨⟨(Nat.zero_mul _).symm, ?_, rfl, ?_, ?_⟩, ⟨fun _ => ⟨rfl, rfl⟩, ?_, ?_⟩, hdim,
    Nat.zero_le _, ?_⟩, rfl, rfl⟩
  · exact fun i hi => absurd hi (Nat.not_lt_zero i)
  · exact fun i lists hl => absurd hl (by simp)
  · exact fun i l list hl => absurd hl (by simp [list?])
  · exact fun ep hep => absurd hep.symm (Option.some_ne_none ep)
  · exact fun top htop => absurd htop List.not_mem_nil
  · exact fun top htop => absurd htop List.not_mem_nil

theorem GraphOk.insert_all (hg : GraphOk δ g) {history : List (List F32 × ℕ)}
    (hlevels : ∀ p ∈ history, p.2 ≤ l_max g.params.m) {g' : Hnsw}
    (h : Hnsw.insert_all δ g history = .ok g') :
    GraphOk δ g' ∧ g'.params = g.params ∧ g'.metric = g.metric := by
  induction history generalizing g with
  | nil =>
    rw [Hnsw.insert_all, List.foldlM_nil, pure_eq_ok] at h
    rw [← h]
    exact ⟨hg, rfl, rfl⟩
  | cons p history ih =>
    obtain ⟨hp, hlevels⟩ := List.forall_mem_cons.mp hlevels
    rw [Hnsw.insert_all, List.foldlM_cons, bind_eq_ok] at h
    obtain ⟨g₁, hone, hrest⟩ := h
    rw [bind_eq_ok] at hone
    obtain ⟨r, hinsert, hr⟩ := hone
    obtain rfl := pure_eq_ok.mp hr
    obtain ⟨hg1, hsame, -⟩ := hg.insert hp hinsert
    have hparams : r.1.params = g.params := hsame.params
    obtain ⟨hok, hps, hm⟩ := ih hg1 (hparams.symm ▸ hlevels) hrest
    exact ⟨hok, hps.trans hparams, hm.trans hsame.metric⟩

/-- **Graphs built by inserts are savable.** After any sequence of inserts the lists, the entry
point and the levels are as they should be; the graph is saved, and loading the file, with its
metric and a default width of at least `m`, gives back its vectors, levels, lists and entry
point, and the same results to every search. -/
theorem insert_all_savable {δ : Distance D} {dim : UInt16} {metric : Metric} {params : HnswParams}
    {selection : NeighborSelection} {empty g : Hnsw} {history : List (List F32 × ℕ)}
    (hbuild : build dim metric params selection = .ok empty)
    (hlevels : ∀ p ∈ history, p.2 ≤ l_max params.m)
    (hinsert : Hnsw.insert_all δ empty history = .ok g) :
    (∀ i l list, g.neighbors i l = .ok list → list.Pairwise (· < ·) ∧ i ∉ list ∧
      list.length ≤ g.m_max l ∧ ∀ x ∈ list, ∃ top, g.level x = .ok top ∧ l ≤ top) ∧
    (∀ ep, g.entry_point = some ep → g.level ep = .ok g.max_level) ∧
    (∀ i top, g.level i = .ok top → top ≤ g.max_level) ∧
    ∃ file, save g = .ok file ∧ ∀ ef_search_default : UInt32,
      params.m.toNat ≤ ef_search_default.toNat →
      ∃ g', load δ file metric ef_search_default = .ok g' ∧
        g'.vectors = g.vectors ∧ g'.levels = g.levels ∧ g'.adjacency = g.adjacency ∧
        g'.entry_point = g.entry_point ∧ g'.max_level = g.max_level ∧
        ∀ query k ef, ef ≠ none ∨ ef_search_default = params.ef_search_default →
          g'.search δ query k ef = g.search δ query k ef := by
  obtain ⟨hempty, hp₀, hm₀⟩ := graphOk_build (δ := δ) hbuild
  obtain ⟨hg, hparams, hmetric⟩ := hempty.insert_all (hp₀.symm ▸ hlevels) hinsert
  rw [hp₀] at hparams
  rw [hm₀] at hmetric
  refine ⟨fun i l list hl => ?_, fun ep hep => ?_, fun i top htop => ?_, file_bytes g, hg.save,
    fun esd hesd => ?_⟩
  · have hadj := hg.shape.lists i l list (neighbors_eq_ok.mp hl)
    refine ⟨hadj.ascending, hadj.no_loop, hadj.degree, fun x hx => ?_⟩
    obtain ⟨top, htop, hle⟩ := hadj.target x hx
    exact ⟨top, index_eq_ok.mpr htop, hle⟩
  · exact index_eq_ok.mpr (hg.entry.top ep hep)
  · exact hg.entry.highest top (List.mem_of_getElem? (index_eq_ok.mp htop))
  · have hp := params_from_header_eq g (hparams.symm ▸ hesd)
    refine ⟨g.reloaded _, hmetric ▸ hg.load hp, rfl, rfl, rfl, rfl, rfl, fun query k ef hef => ?_⟩
    refine search_reloaded δ g _ query k ef (hef.imp_right fun h => ?_)
    change esd = g.params.ef_search_default
    rw [hparams]
    exact h

/-- Distances on one-component vectors, by their bits. -/
def bit_distance : Distance ℕ := ⟨fun _ a b => a.foldl (fun n x => n + x.toNat) (b.foldl (fun n x => n + x.toNat) 0), fun _ => false⟩

def small_params : HnswParams := ⟨2, 2, 2, 2, by decide, by decide, by decide, by decide⟩

/-- Two nodes on level 0 and one above them. -/
def small_history : List (List F32 × ℕ) := [([1], 0), ([2], 0), ([3], 1)]

theorem insert_all_savable_small : ∃ g file, (build 1 .L2 small_params .Heuristic >>= fun empty =>
        Hnsw.insert_all bit_distance empty small_history) = .ok g ∧ g.entry_point = some 2 ∧
      save g = .ok file ∧ ∃ g', load bit_distance file .L2 2 = .ok g' ∧
        g'.adjacency = g.adjacency := by
  have hrun : (build 1 .L2 small_params .Heuristic >>= fun empty =>
      Hnsw.insert_all bit_distance empty small_history) = .ok ⟨1, .L2, small_params, .Heuristic,
        [1, 2, 3], [0, 0, 1], [[[1, 2]], [[0, 2]], [[0, 1], []]], some 2, 1, false⟩ := by
    decide +kernel
  obtain ⟨empty, hbuild, hinsert⟩ := bind_eq_ok.mp hrun
  obtain ⟨-, -, -, file, hsave, hload⟩ := insert_all_savable hbuild (by decide +kernel) hinsert
  obtain ⟨g', hg', -, -, hadj, -⟩ := hload 2 (by decide)
  exact ⟨_, file, hrun, rfl, hsave, g', hg', hadj⟩

end Search

end Hnsw

end Ams.HnswAm
