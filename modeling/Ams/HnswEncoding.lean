/-
The snapshot body of an HNSW graph, `pg-am-hnsw/src/encoding.rs`.

A body is a fixed-width header and the node records one after another, the i-th record being
node `i`. There are two checklists: the decoder's, over the records it has built, and the
streaming encoder's, over a summary of the levels and one record at a time.

The slices and indices of the source can panic. They are `slice_from`, `le_at` and `index`
here, which fail with `Failure.panic` out of range.
-/
import Ams.HnswTypes
import Ams.WalRecord

set_option autoImplicit false

namespace Ams.HnswAm

open Ams.Lib

/-! ## Header -/

abbrev SNAPSHOT_MAGIC : ℕ := 0x57534E48
abbrev FORMAT_VERSION : ℕ := 1
abbrev SNAPSHOT_HEADER_SIZE : ℕ := 25
abbrev CRC32_SIZE : ℕ := 4
abbrev EMPTY_GRAPH_ENTRY_POINT : ℕ := 4294967295
abbrev MAX_LEVEL_COUNT : ℕ := 64

structure SnapshotHeader where
  dim : UInt16
  m : UInt16
  m_max0 : UInt16
  ef_construction : UInt32
  node_count : UInt32
  entry_point : UInt32
  max_level : UInt8
deriving DecidableEq, Repr

/-- `w` hexadecimal digits. -/
def hex (w n : ℕ) : String := String.ofList (List.leftpad w '0' (Nat.toDigits 16 n))

/-- The number in `bytes[off..off + w]`. -/
def le_at (bytes : List UInt8) (off w : ℕ) : Result ℕ :=
  if off + w ≤ bytes.length then .ok (wal_le bytes off w) else .error .panic

/-- `&bytes[n..]`. -/
def slice_from (bytes : List UInt8) (n : ℕ) : Result (List UInt8) :=
  if n ≤ bytes.length then .ok (bytes.drop n) else .error .panic

namespace SnapshotHeader

/-- The fields in the order they are written. -/
def fields (h : SnapshotHeader) : List (List UInt8) :=
  [leBytes 4 SNAPSHOT_MAGIC, leBytes 2 FORMAT_VERSION, leBytes 2 h.dim.toNat, leBytes 2 h.m.toNat,
   leBytes 2 h.m_max0.toNat, leBytes 4 h.ef_construction.toNat, leBytes 4 h.node_count.toNat,
   leBytes 4 h.entry_point.toNat, leBytes 1 h.max_level.toNat]

def encode (h : SnapshotHeader) : List UInt8 := h.fields.flatten

def validate_construction_params (h : SnapshotHeader) : Result Unit := do
  failIf (h.dim.toNat = 0)
    (corrupted "dim = 0 in snapshot header (§5: rejected at every entry point)")
  failIf (h.m.toNat < 2) (corrupted
    s!"M = {h.m} < 2 in snapshot header (construction validation re-run, §3)")
  failIf (h.ef_construction.toNat < h.m.toNat) (corrupted
    s!"ef_construction = {h.ef_construction} < M = {h.m} in snapshot header (construction validation re-run, §3)")
  failIf (h.m_max0.toNat < h.m.toNat) (corrupted
    s!"M_max0 = {h.m_max0} < M = {h.m} in snapshot header (construction validation re-run, §3 v1.7)")

def decode (bytes : List UInt8) : Result SnapshotHeader := do
  failIf (bytes.length < SNAPSHOT_HEADER_SIZE) (corrupted
    s!"snapshot header truncated: {bytes.length} bytes, need {SNAPSHOT_HEADER_SIZE}")
  let magic ← le_at bytes 0 4
  failIf (magic ≠ SNAPSHOT_MAGIC) (corrupted
    s!"bad magic 0x{hex 8 magic} (expected 0x{hex 8 SNAPSHOT_MAGIC} — not an HNSW snapshot)")
  let version ← le_at bytes 4 2
  failIf (version ≠ FORMAT_VERSION) (corrupted
    s!"unknown format_version {version} (this build reads {FORMAT_VERSION})")
  let dim ← le_at bytes 6 2
  let m ← le_at bytes 8 2
  let m_max0 ← le_at bytes 10 2
  let ef_construction ← le_at bytes 12 4
  let node_count ← le_at bytes 16 4
  let entry_point ← le_at bytes 20 4
  let max_level ← le_at bytes 24 1
  let header : SnapshotHeader := {
    dim := .ofNat dim
    m := .ofNat m
    m_max0 := .ofNat m_max0
    ef_construction := .ofNat ef_construction
    node_count := .ofNat node_count
    entry_point := .ofNat entry_point
    max_level := .ofNat max_level }
  header.validate_construction_params
  return header

end SnapshotHeader

/-! ## Node records -/

structure NodeRecord where
  vector : List F32
  neighbors : List (List NodeId)
deriving DecidableEq, Repr

/-- The loop of `encode_node_record` over the levels. -/
def encode_lists (out : List UInt8) : ℕ → List (List NodeId) → Result (List UInt8)
  | _, [] => .ok out
  | level, list :: lists => do
    failIf (list.length > 65535) (invalid_argument
      s!"level {level} has {list.length} neighbors, does not fit u16")
    encode_lists (out ++ (leBytes 2 list.length ++ list.flatMap (leBytes 4))) (level + 1) lists

def encode_node_record (out : List UInt8) (dim : UInt16) (vector : List F32)
    (neighbors : List (List NodeId)) : Result (List UInt8) := do
  failIf (vector.length ≠ dim.toNat) (invalid_argument
    s!"vector has {vector.length} components, graph dim is {dim} (§3: same graph never mixes dimensions)")
  failIf (neighbors = []) (invalid_argument
    "level_count = 0 is unencodable: level 0 always exists (§3)")
  failIf (neighbors.length > MAX_LEVEL_COUNT) (invalid_argument
    s!"level_count {neighbors.length} > {MAX_LEVEL_COUNT} (checklist item 12; 2026-09-02 review round 5 P3: the pub codec must refuse what the decoder refuses — the decoder enforces the same cap at its parse point. Two guardrails, one rule, one constant)")
  vector.zipIdx.forM fun (x, i) => failIf (x.is_finite = false) (invalid_argument
    s!"non-finite vector component (NaN or ±inf) at index {i} (§5/§7 — the decoder rejects this at its parse point; write/read symmetry)")
  let out := out ++ [0] ++ [0]
  let out := out ++ vector.flatMap fun x => leBytes 4 x.toNat
  let out := out ++ leBytes 1 neighbors.length
  encode_lists out 0 neighbors

/-- Read `n` bytes from the front of the cursor. -/
def take (cursor : List UInt8) (n : ℕ) (what : String) : Result (List UInt8 × List UInt8) :=
  if cursor.length < n then .error (corrupted
    s!"truncated node record: need {n} bytes for {what}, have {cursor.length}")
  else .ok (cursor.take n, cursor.drop n)

/-- `chunks_exact(4)`, each chunk as a number. -/
def words : List UInt8 → List ℕ
  | a :: b :: c :: d :: bs => ofLe [a, b, c, d] :: words bs
  | _ => []

/-- The loop of `decode_node_record` over the components. -/
def decode_vector : ℕ → List ℕ → Result (List F32)
  | _, [] => .ok []
  | i, w :: ws => do
    let x : F32 := .ofNat w
    failIf (x.is_finite = false) (corrupted
      s!"non-finite vector component at index {i} (§5/§7: load-side NaN/±inf rejection)")
    let xs ← decode_vector (i + 1) ws
    return x :: xs

/-- The loop of `decode_node_record` over the levels. -/
def decode_lists : ℕ → List UInt8 → Result (List (List NodeId) × List UInt8)
  | 0, cursor => .ok ([], cursor)
  | n + 1, cursor => do
    let (count, cursor) ← take cursor 2 "neighbor_count"
    let (id_bytes, cursor) ← take cursor (4 * ofLe count) "neighbors"
    let (lists, cursor) ← decode_lists n cursor
    return (words id_bytes :: lists, cursor)

def decode_node_record (bytes : List UInt8) (dim : UInt16) : Result (NodeRecord × ℕ) := do
  let (flags, cursor) ← take bytes 1 "flags"
  let flags ← index flags 0
  failIf (flags ≠ 0) (corrupted
    s!"unknown node flags 0x{hex 2 flags.toNat} (M4 writes 0; the tombstone bit is an M6 format revision, §3)")
  let (reserved, cursor) ← take cursor 1 "reserved"
  let reserved ← index reserved 0
  failIf (reserved ≠ 0) (corrupted
    s!"non-zero reserved byte 0x{hex 2 reserved.toNat} (§3: always 0 in this format version)")
  let (vec_bytes, cursor) ← take cursor (4 * dim.toNat) "vector"
  let vector ← decode_vector 0 (words vec_bytes)
  let (level_count, cursor) ← take cursor 1 "level_count"
  let level_count ← index level_count 0
  failIf (level_count = 0) (corrupted
    "level_count = 0: level 0 always exists (level_count = top level + 1, §3)")
  failIf (level_count.toNat > MAX_LEVEL_COUNT) (corrupted
    s!"level_count {level_count} > {MAX_LEVEL_COUNT} (checklist item 12: the geometric draw is hard-bounded at level 53 even at M = 2, so no legal graph can reach this, §4.1)")
  let (neighbors, cursor) ← decode_lists level_count.toNat cursor
  return (⟨vector, neighbors⟩, bytes.length - cursor.length)

/-! ## Graph checks -/

def validate_record_basics (header : SnapshotHeader) (i : ℕ) (vector : List F32)
    (level_count : ℕ) : Result Unit := do
  failIf (vector.length ≠ header.dim.toNat) (corrupted
    s!"node {i}: vector has {vector.length} components, header dim is {header.dim} (§3)")
  vector.zipIdx.forM fun (x, c) => failIf (x.is_finite = false) (corrupted
    s!"node {i}: non-finite component (NaN or ±inf) at index {c} (§5)")
  failIf (level_count = 0) (corrupted
    s!"node {i}: level_count = 0 (level 0 always exists, §3)")
  failIf (level_count > MAX_LEVEL_COUNT) (corrupted
    s!"node {i}: level_count {level_count} > {MAX_LEVEL_COUNT} (checklist item 12: the geometric draw is hard-bounded at level 53 even at M = 2, so no legal graph can reach this, §4.1)")

def validate_entry_and_max_level (header : SnapshotHeader) (levels : List ℕ) : Result Unit := do
  if header.node_count.toNat = 0 then
    failIf (header.entry_point.toNat ≠ EMPTY_GRAPH_ENTRY_POINT) (corrupted
      s!"empty graph must encode entry_point = u32::MAX sentinel, got 0x{hex 8 header.entry_point.toNat} (§3)")
    failIf (header.max_level.toNat ≠ 0) (corrupted
      s!"empty graph must encode max_level = 0, got {header.max_level} (no nodes, no levels)")
  else
    failIf (header.entry_point.toNat ≥ header.node_count.toNat) (corrupted
      s!"entry_point {header.entry_point} >= node_count {header.node_count} (§3)")
    let entry_top ← index levels header.entry_point.toNat
    failIf (header.max_level.toNat ≠ entry_top) (corrupted
      s!"max_level {header.max_level} != entry node's top level {entry_top} (§3)")
  levels.zipIdx.forM fun (top, i) => failIf (top > header.max_level.toNat) (corrupted
    s!"node {i} top level {top} exceeds max_level {header.max_level} (the entry point is the highest node)")

/-- The cap of a neighbour list, `m_max(level)`. -/
def SnapshotHeader.cap (header : SnapshotHeader) (level : ℕ) : ℕ :=
  if level = 0 then header.m_max0.toNat else header.m.toNat

/-- The checks of `validate_adjacency` on the `j`-th neighbour. -/
def validate_neighbor (header : SnapshotHeader) (levels : List ℕ) (i level : ℕ)
    (list : List NodeId) (n : NodeId) (j : ℕ) : Result Unit := do
  failIf (n = i) (corrupted
    s!"node {i} level {level}: self-loop (an adjacency list never contains its owner, §3)")
  -- `list[j - 1]` is in range: `n` is the element at `j`
  failIf (0 < j ∧ n ≤ list.getD (j - 1) 0) (corrupted
    s!"node {i} level {level}: adjacency list not strictly ascending (NodeId({list.getD (j - 1) 0}) then NodeId({n}) — the canonical order has no duplicates and no descent, §3)")
  failIf (n ≥ header.node_count.toNat) (corrupted
    s!"node {i} level {level}: neighbor {n} >= node_count {header.node_count} (adjacency endpoint does not exist)")
  let top ← index levels n
  failIf (level > top) (corrupted
    s!"node {i} level {level}: neighbor {n} has no level {level} (its level_count is {top + 1}; an edge requires both endpoints to have the level, §3)")

def validate_adjacency (header : SnapshotHeader) (levels : List ℕ) (i : ℕ)
    (neighbors : List (List NodeId)) : Result Unit :=
  neighbors.zipIdx.forM fun (list, level) => do
    failIf (list.length > header.cap level) (corrupted
      s!"node {i} level {level}: degree {list.length} exceeds m_max({level}) = {header.cap level} (a quiescent graph never exceeds the cap, §4.2)")
    list.zipIdx.forM fun (n, j) => validate_neighbor header levels i level list n j

/-- The top levels of the records, as bytes. -/
def top_levels (nodes : List NodeRecord) : List ℕ :=
  nodes.map fun r => (r.neighbors.length - 1) % 256

def validate_graph_data (header : SnapshotHeader) (nodes : List NodeRecord) : Result Unit := do
  failIf (header.node_count.toNat ≠ nodes.length) (corrupted
    s!"header node_count {header.node_count} != {nodes.length} node records")
  nodes.zipIdx.forM fun (r, i) => validate_record_basics header i r.vector r.neighbors.length
  -- `neighbors.len() - 1` underflows on a record without levels
  nodes.forM fun r => failIf (r.neighbors.length = 0) .panic
  let levels := top_levels nodes
  validate_entry_and_max_level header levels
  nodes.zipIdx.forM fun (r, i) => validate_adjacency header levels i r.neighbors

/-! ## The streaming encoder -/

/-- `BodyEncoder` over a writer that takes every byte. `hasher` is the CRC register. -/
structure BodyEncoder where
  inner : List UInt8
  hasher : BitVec 32
  header : SnapshotHeader
  levels : List ℕ
  written : ℕ

namespace BodyEncoder

/-- Write the bytes and hash them. -/
def write_hashed (enc : BodyEncoder) (bytes : List UInt8) : BodyEncoder :=
  { enc with
    hasher := bytes.foldl crc32_byte enc.hasher
    inner := enc.inner ++ bytes }

def new (header : SnapshotHeader) (levels : List ℕ) (inner : List UInt8) : Result BodyEncoder := do
  header.validate_construction_params
  failIf (header.node_count.toNat ≠ levels.length) (corrupted
    s!"header node_count {header.node_count} != {levels.length} node records")
  validate_entry_and_max_level header levels
  let enc : BodyEncoder := {
    inner := inner
    hasher := 0xFFFFFFFF#32
    header := header
    levels := levels
    written := 0 }
  return enc.write_hashed header.encode

def push_record (enc : BodyEncoder) (vector : List F32) (neighbors : List (List NodeId)) :
    Result BodyEncoder := do
  failIf (enc.written = enc.header.node_count.toNat) (corrupted
    s!"more node records pushed than header node_count {enc.header.node_count}")
  let i := enc.written
  let top ← index enc.levels i
  failIf (neighbors.length ≠ top + 1) (corrupted
    s!"node {i}: record level_count {neighbors.length} disagrees with the levels summary ({top + 1}); the summary and the records must agree (§3)")
  validate_record_basics enc.header i vector neighbors.length
  validate_adjacency enc.header enc.levels i neighbors
  let scratch ← encode_node_record [] enc.header.dim vector neighbors
  return { enc.write_hashed scratch with written := enc.written + 1 }

def finish (enc : BodyEncoder) : Result (BitVec 32 × List UInt8) := do
  failIf (enc.written ≠ enc.header.node_count.toNat) (corrupted
    s!"header node_count {enc.header.node_count} != {enc.written} node records")
  return (enc.hasher ^^^ 0xFFFFFFFF#32, enc.inner)

/-- Push the records one after another. -/
def push_records (enc : BodyEncoder) (nodes : List NodeRecord) : Result BodyEncoder :=
  nodes.foldlM (fun enc r => enc.push_record r.vector r.neighbors) enc

end BodyEncoder

def encode_snapshot_body (header : SnapshotHeader) (nodes : List NodeRecord) :
    Result (List UInt8) := do
  let enc ← BodyEncoder.new header (top_levels nodes) []
  let enc ← enc.push_records nodes
  let (_, body) ← enc.finish
  return body

/-! ## Decoding a body -/

structure SnapshotFileData where
  header : SnapshotHeader
  nodes : List NodeRecord
deriving DecidableEq, Repr

/-- The least number of bytes of a record. -/
def min_record_size (dim : UInt16) : ℕ := 2 + 4 * dim.toNat + 1 + 2

/-- An error of the `i`-th record says so. -/
def in_record {α : Type} (i : ℕ) : Result α → Result α
  | .error (.err (.Corrupted msg)) => .error (corrupted s!"node record {i}: {msg}")
  | r => r

/-- The loop of `decode_snapshot_body` over the records. -/
def decode_records (dim : UInt16) : ℕ → ℕ → List UInt8 → Result (List NodeRecord × List UInt8)
  | _, 0, cursor => .ok ([], cursor)
  | i, n + 1, cursor => do
    let (r, used) ← in_record i (decode_node_record cursor dim)
    let cursor ← slice_from cursor used
    let (rs, cursor) ← decode_records dim (i + 1) n cursor
    return (r :: rs, cursor)

def decode_snapshot_body (body : List UInt8) : Result SnapshotFileData := do
  let header ← SnapshotHeader.decode body
  let cursor ← slice_from body SNAPSHOT_HEADER_SIZE
  let min_record := min_record_size header.dim
  failIf (header.node_count.toNat > cursor.length / min_record) (corrupted
    s!"node_count {header.node_count} exceeds the {cursor.length / min_record} records that fit in the {cursor.length} remaining body bytes (min record size {min_record})")
  let (nodes, cursor) ← decode_records header.dim 0 header.node_count.toNat cursor
  failIf (cursor ≠ []) (corrupted
    s!"{cursor.length} trailing bytes after {header.node_count} node records (position is identity — the stream must end exactly)")
  validate_graph_data header nodes
  return ⟨header, nodes⟩

end Ams.HnswAm
