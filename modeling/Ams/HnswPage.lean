/-
The pages of an HNSW index, `pg-am-hnsw/src/{page,node,dir,meta,apply}.rs`: what is read from
them.

There are three kinds of page. A node page is slotted, and a slot holds one entry: the vector,
a state byte, and for each level a count with room for as many identifiers as the level's cap.
A directory page maps consecutive identifiers to `(page, slot)` pairs, and directory pages are
chained. The meta page holds the parameters and the entry point.

None of this carries a checksum, so every function here is given arbitrary bytes. Offsets and
lengths are taken from the page and checked before they are used. A slice or an index of the
source that is out of range is a panic in the model, so that the checks are seen to be enough:
`read_lp_noPanic`, `neighbor_iter_noPanic` and the others say so, for every page.
-/
import Ams.SlottedPage
import Ams.HnswCodec
import Ams.HnswMemory

set_option autoImplicit false

namespace Ams.HnswAm

open Ams.Lib

/-! ## Page kinds -/

abbrev PAGE_TYPE_NODE : ℕ := 1
abbrev PAGE_TYPE_DIR : ℕ := 2
abbrev PAGE_TYPE_META : ℕ := 3

abbrev LINE_POINTER_SIZE : ℕ := 4
abbrev DIR_HEADER_SIZE : ℕ := 24
abbrev DIR_OFF_ORDINAL : ℕ := 36
abbrev DIR_OFF_COUNT : ℕ := 44
abbrev DIR_OFF_NEXT : ℕ := 48

/-- `pd_flags`. -/
def page_type (page : Page) : ℕ := page.readLe 12 2

def dir_ordinal (page : Page) : ℕ := page.readLe DIR_OFF_ORDINAL 8

def dir_count (page : Page) : ℕ := page.readLe DIR_OFF_COUNT 4

def dir_next (page : Page) : PageId := page.readLe DIR_OFF_NEXT 8

/-- `&page[off..stop]`. -/
def page_slice (page : Page) (off stop : ℕ) : Result (List UInt8) :=
  if off ≤ stop ∧ stop ≤ PAGE_SIZE then .ok (page.slice off (stop - off)) else .error .panic

/-! ## Line pointers -/

abbrev LP_NORMAL : ℕ := 1

/-- `(off, len, is_normal)`. -/
def decode_line_pointer (raw : List UInt8) : ℕ × ℕ × Bool :=
  let raw := ofLe raw
  (raw % 2 ^ 15, raw / 2 ^ 17 % 2 ^ 15, raw / 2 ^ 15 % 4 == LP_NORMAL)

def pd_lower (page : Page) : ℕ := page.readLe 14 2

def pd_upper (page : Page) : ℕ := page.readLe 16 2

def pd_special (page : Page) : ℕ := page.readLe 18 2

/-- `idx` of `read_lp`. -/
def lp_idx (slot : ℕ) : ℕ := PAGE_HEADER_SIZE + slot * LINE_POINTER_SIZE

def read_lp (page : Page) (slot : ℕ) : Result (Option (ℕ × ℕ)) :=
  if pd_lower page < PAGE_HEADER_SIZE ∨ PAGE_SIZE < pd_lower page ∨
      (pd_lower page - PAGE_HEADER_SIZE) % LINE_POINTER_SIZE ≠ 0 then .ok none
  else if pd_upper page < pd_lower page ∨ pd_special page < pd_upper page ∨
      PAGE_SIZE < pd_special page then .ok none
  else if pd_lower page < lp_idx slot + LINE_POINTER_SIZE then .ok none
  else do
    let raw ← page_slice page (lp_idx slot) (lp_idx slot + 4)
    let (off, len, is_normal) := decode_line_pointer raw
    if is_normal = false then return none
    else if off < pd_upper page ∨ pd_special page < off + len then return none
    else return some (off, len)

def slot_is_occupied (page : Page) (slot : ℕ) : Result Bool := do
  let lp ← read_lp page slot
  return lp.isSome

def slot_count (page : Page) : Result ℕ := do
  failIf (pd_lower page < PAGE_HEADER_SIZE ∨ PAGE_SIZE < pd_lower page ∨
      (pd_lower page - PAGE_HEADER_SIZE) % LINE_POINTER_SIZE ≠ 0) (corrupted
    s!"slot_count: page is not slotted-initialized (pd_lower={pd_lower page})")
  return (pd_lower page - PAGE_HEADER_SIZE) / LINE_POINTER_SIZE

/-! ## Node entries -/

structure NodeGeometry where
  dim : UInt16
  m : UInt16
  m_max0 : UInt16
deriving DecidableEq, Repr

def level_region_size (cap : UInt16) : ℕ := 2 + 4 * cap.toNat

def entry_size (dim m m_max0 : UInt16) (top_level : ℕ) : ℕ :=
  4 * dim.toNat + 1 + level_region_size m_max0 + top_level * level_region_size m

/-- For levels above 0. -/
def level_offset (dim m m_max0 : UInt16) (level : ℕ) : ℕ :=
  4 * dim.toNat + 1 + level_region_size m_max0 + (level - 1) * level_region_size m

def level_base_offset (dim : UInt16) : ℕ := 4 * dim.toNat + 1

def state_offset (dim : UInt16) : ℕ := 4 * dim.toNat

def level_region_pos (geo : NodeGeometry) (level : ℕ) : ℕ × UInt16 :=
  if level = 0 then (level_base_offset geo.dim, geo.m_max0)
  else (level_offset geo.dim geo.m geo.m_max0 level, geo.m)

def checked_region (entry : List UInt8) (geo : NodeGeometry) (level : ℕ) (what : String) :
    Result (List UInt8) := do
  let (region_off, cap) := level_region_pos geo level
  let region_end := region_off + level_region_size cap
  failIf (entry.length < region_end) (corrupted
    s!"{what}: level {level} region [{region_off}..{region_end}) exceeds the {entry.length}-byte entry (dim/level geometry mismatch)")
  return (entry.drop region_off).take (level_region_size cap)

def checked_count (region : List UInt8) (geo : NodeGeometry) (level : ℕ) (what : String) :
    Result ℕ := do
  let cap := (level_region_pos geo level).2
  let count ← le_at region 0 2
  failIf (cap.toNat < count) (corrupted
    s!"{what}: stored count {count} exceeds reserved capacity {cap} of level {level}")
  return count

def entry_at (page : Page) (slot : ℕ) (what : String) : Result (List UInt8) := do
  match ← read_lp page slot with
  | none => .error (corrupted s!"{what}: slot {slot} is not a live entry on this node page")
  | some (off, len) => page_slice page off (off + len)

def state_byte (entry : List UInt8) (dim : UInt16) (what : String) : Result UInt8 :=
  match entry[state_offset dim]? with
  | some b => .ok b
  | none => .error (corrupted
      s!"{what}: state offset {state_offset dim} exceeds the {entry.length}-byte entry (dim geometry mismatch)")

def entry_top_level (page : Page) (slot : ℕ) (dim : UInt16) : Result ℕ := do
  let entry ← entry_at page slot "entry_top_level"
  let state ← state_byte entry dim "entry_top_level"
  return state.toNat % 64

def entry_is_live (page : Page) (slot : ℕ) (dim : UInt16) : Result Bool := do
  let entry ← entry_at page slot "entry_is_live"
  let state ← state_byte entry dim "entry_is_live"
  return state.toNat / 64 % 2 == 1

def entry_is_tombstoned (page : Page) (slot : ℕ) (dim : UInt16) : Result Bool := do
  let entry ← entry_at page slot "entry_is_tombstoned"
  let state ← state_byte entry dim "entry_is_tombstoned"
  return state.toNat / 128 == 1

/-- The identifiers a `NeighborIter` yields. -/
def collect_ids (region : List UInt8) (count : ℕ) : Result (List NodeId) :=
  if 2 + 4 * count ≤ region.length then .ok (words ((region.drop 2).take (4 * count)))
  else .error .panic

/-- `neighbor_iter(..)?.collect()`. -/
def neighbor_iter (page : Page) (slot : ℕ) (geo : NodeGeometry) (level : ℕ) :
    Result (List NodeId) := do
  let entry ← entry_at page slot "neighbor_iter"
  let region ← checked_region entry geo level "neighbor_iter"
  let count ← checked_count region geo level "neighbor_iter"
  collect_ids region count

/-- The components a `VectorIter` yields. -/
def collect_components (entry : List UInt8) (dim : ℕ) : Result (List F32) :=
  if 4 * dim ≤ entry.length then .ok ((words (entry.take (4 * dim))).map UInt32.ofNat)
  else .error .panic

/-- `vector_iter(..)?.collect()`. -/
def vector_iter (page : Page) (slot : ℕ) (dim : UInt16) : Result (List F32) := do
  let entry ← entry_at page slot "vector_iter"
  failIf (entry.length < 4 * dim.toNat) (corrupted
    s!"vector_iter: dim {dim} exceeds the {entry.length}-byte entry (dim geometry mismatch)")
  collect_components entry dim.toNat

/-! ## The directory -/

abbrev DIR_ENTRIES_PER_PAGE : ℕ := 813
abbrev MAX_DIR_PAGES : ℕ := 4294967296

structure DirChainInfo where
  page_count : ℕ
  hwm : ℕ
  pages : List PageId
deriving DecidableEq, Repr

/-- `u64::checked_mul` and `checked_add`, together. -/
def checked_hwm (ordinal count : ℕ) : Option ℕ :=
  if ordinal * DIR_ENTRIES_PER_PAGE + count < 2 ^ 64 then
    some (ordinal * DIR_ENTRIES_PER_PAGE + count) else none

def check_hwm_node_id_space (hwm : ℕ) : Result Unit :=
  failIf (4294967295 < hwm) (corrupted
    s!"check_dir_chain: high-water mark {hwm} exceeds the u32 NodeId space (§3)")

/-- The loop of `check_dir_chain`, with the number of pages it may still visit. -/
def walk_dir_chain (fetch : PageId → Result Page) :
    ℕ → List PageId → PageId → ℕ → Result DirChainInfo
  | 0, _, _, _ => .error (corrupted
      s!"check_dir_chain: chain exceeds the sanity ceiling of {MAX_DIR_PAGES} pages (cycle or runaway chain)")
  | left + 1, visited, current, expected_ordinal => do
    failIf (current ∈ visited) (corrupted s!"check_dir_chain: cycle detected at page {current}")
    let page ← fetch current
    failIf (page_type page ≠ PAGE_TYPE_DIR) (corrupted
      s!"check_dir_chain: page {current} is not a directory page")
    let ordinal := dir_ordinal page
    failIf (ordinal ≠ expected_ordinal) (corrupted
      s!"check_dir_chain: page {current} has ordinal {ordinal}, expected {expected_ordinal} (ordinals must be consecutive from 0)")
    let count := dir_count page
    failIf (DIR_ENTRIES_PER_PAGE < count) (corrupted
      s!"check_dir_chain: page {current} has count {count} > capacity {DIR_ENTRIES_PER_PAGE}")
    let next := dir_next page
    if next = PageId.INVALID then
      match checked_hwm ordinal count with
      | none => .error (corrupted
          s!"check_dir_chain: high-water mark computation overflows (ordinal {ordinal}, count {count})")
      | some hwm => do
        check_hwm_node_id_space hwm
        return ⟨expected_ordinal + 1, hwm, visited ++ [current]⟩
    else do
      failIf (count ≠ DIR_ENTRIES_PER_PAGE) (corrupted
        s!"check_dir_chain: middle page {current} has count {count}, expected exactly {DIR_ENTRIES_PER_PAGE} (link only when the tail is full)")
      failIf (next = current) (corrupted s!"check_dir_chain: page {current} links to itself")
      walk_dir_chain fetch left (visited ++ [current]) next (expected_ordinal + 1)

def check_dir_chain (head : PageId) (fetch : PageId → Result Page) : Result DirChainInfo := do
  failIf (head = PageId.INVALID) (invalid_argument
    "check_dir_chain: chain head must be a real page (PageId::INVALID)")
  walk_dir_chain fetch MAX_DIR_PAGES [] head 0

def dir_entry (page : Page) (idx : ℕ) : Result (PageId × ℕ) := do
  let count := dir_count page
  failIf (DIR_ENTRIES_PER_PAGE < count) (corrupted
    s!"dir_entry: directory count {count} exceeds capacity {DIR_ENTRIES_PER_PAGE}")
  failIf (count ≤ idx) (corrupted s!"dir_entry: index {idx} >= directory count {count}")
  let off := PAGE_HEADER_SIZE + DIR_HEADER_SIZE + idx * 10
  let target_page ← page_slice page off (off + 8)
  let target_slot ← page_slice page (off + 8) (off + 10)
  return (ofLe target_page, ofLe target_slot)

/-! ## The meta page -/

abbrev META_OFF_ENTRY_POINT : ℕ := 32
abbrev META_OFF_MAX_LEVEL : ℕ := 36
abbrev META_OFF_FORMAT_VERSION : ℕ := 37
abbrev META_OFF_METRIC : ℕ := 38
abbrev META_OFF_SELECTION : ℕ := 39
abbrev META_OFF_DIM : ℕ := 40
abbrev META_OFF_M : ℕ := 42
abbrev META_OFF_M_MAX0 : ℕ := 44
abbrev META_OFF_EF_CONSTRUCTION : ℕ := 46
abbrev META_OFF_EF_SEARCH_DEFAULT : ℕ := 50
abbrev META_OFF_RESERVED : ℕ := 54
abbrev META_OFF_RNG_SEED : ℕ := 56
abbrev META_OFF_DIR_HEAD : ℕ := 64
abbrev META_OFF_SNAPSHOT_FORMAT_VERSION : ℕ := 72
abbrev META_FORMAT_VERSION : ℕ := 1

abbrev NODE_PAGE_USABLE : ℕ := 8156

structure MetaParams where
  entry_point : UInt32
  max_level : ℕ
  metric : Metric
  selection : NeighborSelection
  dim : UInt16
  m : UInt16
  m_max0 : UInt16
  ef_construction : UInt32
  ef_search_default : UInt32
  rng_seed : UInt64
  dir_head : PageId
deriving DecidableEq, Repr

def Metric.from_discriminant (v : ℕ) : Result Metric :=
  match v with
  | 0 => .ok .L2
  | 1 => .ok .Cosine
  | 2 => .ok .InnerProduct
  | _ => .error (corrupted s!"unknown metric discriminant {v} in the meta page")

def NeighborSelection.from_discriminant (v : ℕ) : Result NeighborSelection :=
  match v with
  | 0 => .ok .Heuristic
  | 1 => .ok .Simple
  | _ => .error (corrupted s!"unknown neighbor-selection discriminant {v} in the meta page")

def check_creation_geometry (dim m m_max0 : UInt16) : Result Unit := do
  failIf (dim.toNat = 0) (invalid_argument
    "creation geometry: dim = 0 (M4 §5: rejected at every entry point)")
  let worst := entry_size dim m m_max0 (l_max m)
  failIf (NODE_PAGE_USABLE < worst) (invalid_argument
    s!"creation geometry rejected: worst-case entry 4·{dim} + 1 + (2 + 4·{m_max0}) + {l_max m}·(2 + 4·{m}) = {worst} > page usable {NODE_PAGE_USABLE} (dim/m/m_max0 product-linked check, §7.2)")

def read_meta (page : Page) : Result MetaParams := do
  failIf (page_type page ≠ PAGE_TYPE_META) (corrupted
    s!"page is not a meta page (page_type {page_type page})")
  let version := page.readLe META_OFF_FORMAT_VERSION 1
  failIf (version ≠ META_FORMAT_VERSION) (corrupted
    s!"meta_format_version {version} != {META_FORMAT_VERSION}")
  let metric ← Metric.from_discriminant (page.readLe META_OFF_METRIC 1)
  let selection ← NeighborSelection.from_discriminant (page.readLe META_OFF_SELECTION 1)
  let dim := UInt16.ofNat (page.readLe META_OFF_DIM 2)
  let m := UInt16.ofNat (page.readLe META_OFF_M 2)
  let m_max0 := UInt16.ofNat (page.readLe META_OFF_M_MAX0 2)
  let ef_construction := UInt32.ofNat (page.readLe META_OFF_EF_CONSTRUCTION 4)
  let ef_search_default := UInt32.ofNat (page.readLe META_OFF_EF_SEARCH_DEFAULT 4)
  failIf (dim.toNat = 0) (corrupted "meta page has dim = 0 (M4 §5: rejected at every entry point)")
  failIf (m.toNat < 2) (corrupted s!"meta page has m = {m} < 2")
  failIf (m_max0.toNat < m.toNat) (corrupted s!"meta page has m_max0 = {m_max0} < m = {m}")
  failIf (ef_construction.toNat < m.toNat) (corrupted
    s!"meta page has ef_construction = {ef_construction} < m = {m}")
  failIf (ef_search_default.toNat < m.toNat) (corrupted
    s!"meta page has ef_search_default = {ef_search_default} < m = {m}")
  check_creation_geometry dim m m_max0
  let reserved := page.readLe META_OFF_RESERVED 2
  failIf (reserved ≠ 0) (corrupted s!"meta page reserved field is {reserved}, must be 0")
  let rng_seed := UInt64.ofNat (page.readLe META_OFF_RNG_SEED 8)
  let dir_head := page.readLe META_OFF_DIR_HEAD 8
  failIf (dir_head = PageId.INVALID) (corrupted "meta page has dir_head = PageId::INVALID")
  let snapshot_format_version := page.readLe META_OFF_SNAPSHOT_FORMAT_VERSION 2
  failIf (snapshot_format_version ≠ FORMAT_VERSION) (corrupted
    s!"meta page snapshot_format_version {snapshot_format_version} != {FORMAT_VERSION} (the M4 logical-archive format this build reads)")
  let entry_point := UInt32.ofNat (page.readLe META_OFF_ENTRY_POINT 4)
  let max_level := page.readLe META_OFF_MAX_LEVEL 1
  failIf (63 < max_level) (corrupted
    s!"meta page has max_level = {max_level} > 63 (6-bit top_level convention)")
  failIf (l_max m < max_level) (corrupted
    s!"meta page has max_level = {max_level} > l_max(m = {m}) = {l_max m} (no level draw can produce it)")
  failIf (entry_point.toNat = NodeId.INVALID ∧ max_level ≠ 0) (corrupted
    s!"meta page has entry_point = NodeId::INVALID but max_level = {max_level} (INVALID is only legal for the empty graph, max_level = 0)")
  return {
    entry_point := entry_point
    max_level := max_level
    metric := metric
    selection := selection
    dim := dim
    m := m
    m_max0 := m_max0
    ef_construction := ef_construction
    ef_search_default := ef_search_default
    rng_seed := rng_seed
    dir_head := dir_head }

/-! ## No read panics -/

variable {page : Page} {level off : ℕ}

theorem page_slice_eq_ok {stop : ℕ} {bs : List UInt8} :
    page_slice page off stop = .ok bs ↔
      (off ≤ stop ∧ stop ≤ PAGE_SIZE) ∧ page.slice off (stop - off) = bs := by
  unfold page_slice
  split_ifs with h
  · simp [h]
  · simp [h]

theorem NoPanic.page_slice {stop : ℕ} (h : off ≤ stop) (hstop : stop ≤ PAGE_SIZE) :
    NoPanic (HnswAm.page_slice page off stop) := .of_eq_ok (page_slice_eq_ok.mpr ⟨⟨h, hstop⟩, rfl⟩)

theorem read_lp_noPanic (page : Page) (slot : ℕ) : NoPanic (read_lp page slot) := by
  unfold read_lp
  split_ifs with hlower hupper hidx
  · exact .ok _
  · exact .ok _
  · exact .ok _
  · have h4 : LINE_POINTER_SIZE = 4 := rfl
    refine .bind (.page_slice (by omega) (by omega)) fun raw _ => ?_
    dsimp only
    split_ifs
    · exact .ok _
    · exact .ok _
    · exact .ok _

/-- An entry is within the page. -/
theorem read_lp_bound {slot len : ℕ} (h : read_lp page slot = .ok (some (off, len))) :
    off + len ≤ PAGE_SIZE := by
  unfold read_lp at h
  split_ifs at h with hlower hupper hidx
  · simp at h
  · simp at h
  · simp at h
  · obtain ⟨raw, -, h⟩ := bind_eq_ok.mp h
    dsimp only at h
    split_ifs at h with hnormal hbound
    · simp [pure_eq_ok] at h
    · simp [pure_eq_ok] at h
    · obtain ⟨rfl, rfl⟩ := Prod.mk.inj (Option.some.inj (pure_eq_ok.mp h))
      omega

theorem slot_is_occupied_noPanic (page : Page) (slot : ℕ) : NoPanic (slot_is_occupied page slot) :=
  .bind (read_lp_noPanic page slot) fun _ _ => .ok _

theorem slot_count_noPanic (page : Page) : NoPanic (slot_count page) :=
  .check (.ok _)

theorem entry_at_noPanic (page : Page) (slot : ℕ) (what : String) :
    NoPanic (entry_at page slot what) := by
  refine .bind (read_lp_noPanic page slot) fun lp hlp => ?_
  match lp with
  | none => exact .err _
  | some (off, len) => exact .page_slice (Nat.le_add_right off len) (read_lp_bound hlp)

theorem state_byte_noPanic (entry : List UInt8) (dim : UInt16) (what : String) :
    NoPanic (state_byte entry dim what) := by
  unfold state_byte
  split
  · exact .ok _
  · exact .err _

theorem entry_top_level_noPanic (page : Page) (slot : ℕ) (dim : UInt16) :
    NoPanic (entry_top_level page slot dim) :=
  .bind (entry_at_noPanic _ _ _) fun _ _ => .bind (state_byte_noPanic _ _ _) fun _ _ => .ok _

theorem entry_is_live_noPanic (page : Page) (slot : ℕ) (dim : UInt16) :
    NoPanic (entry_is_live page slot dim) :=
  .bind (entry_at_noPanic _ _ _) fun _ _ => .bind (state_byte_noPanic _ _ _) fun _ _ => .ok _

theorem entry_is_tombstoned_noPanic (page : Page) (slot : ℕ) (dim : UInt16) :
    NoPanic (entry_is_tombstoned page slot dim) :=
  .bind (entry_at_noPanic _ _ _) fun _ _ => .bind (state_byte_noPanic _ _ _) fun _ _ => .ok _

variable {region : List UInt8} {geo : NodeGeometry} {what : String}

theorem checked_region_eq_ok {entry : List UInt8}
    : checked_region entry geo level what = .ok region ↔
      (level_region_pos geo level).1 + level_region_size (level_region_pos geo level).2 ≤
        entry.length ∧
      (entry.drop (level_region_pos geo level).1).take
        (level_region_size (level_region_pos geo level).2) = region := by
  unfold checked_region
  simp only [bind_eq_ok, failIf_eq_ok, exists_const, pure_eq_ok, not_lt]

theorem length_checked_region {entry : List UInt8}
    (h : checked_region entry geo level what = .ok region) :
    region.length = 2 + 4 * (level_region_pos geo level).2.toNat := by
  obtain ⟨hle, rfl⟩ := checked_region_eq_ok.mp h
  rw [List.length_take, List.length_drop]
  unfold level_region_size at hle ⊢
  omega

theorem checked_count_eq_ok {count : ℕ} : checked_count region geo level what = .ok count ↔
      2 ≤ region.length ∧ wal_le region 0 2 = count ∧
        count ≤ (level_region_pos geo level).2.toNat := by
  unfold checked_count
  simp only [bind_eq_ok, failIf_eq_ok, exists_const, pure_eq_ok, le_at, not_lt]
  split_ifs with h
  · simp only [Except.ok.injEq]
    constructor
    · rintro ⟨_, rfl, hle, rfl⟩
      exact ⟨by omega, rfl, hle⟩
    · rintro ⟨-, rfl, hle⟩
      exact ⟨_, rfl, hle, rfl⟩
  · constructor
    · rintro ⟨_, h', -⟩
      exact nomatch h'
    · rintro ⟨h2, -⟩
      exact absurd (by omega) h

theorem neighbor_iter_noPanic (page : Page) (slot : ℕ) (geo : NodeGeometry) (level : ℕ) :
    NoPanic (neighbor_iter page slot geo level) := by
  refine .bind (entry_at_noPanic _ _ _) fun entry _ => .bind ?_ fun region hregion => ?_
  · exact .check (.ok _)
  · have hlen := length_checked_region hregion
    refine .bind ?_ fun count hcount => ?_
    · refine .bind (.of_eq_ok (if_pos ?_)) fun _ _ => .check (.ok _)
      omega
    · obtain ⟨-, -, hle⟩ := checked_count_eq_ok.mp hcount
      refine .of_eq_ok (if_pos ?_)
      omega

theorem vector_iter_noPanic (page : Page) (slot : ℕ) (dim : UInt16) :
    NoPanic (vector_iter page slot dim) := by
  refine .bind (entry_at_noPanic _ _ _) fun entry _ => .bind (.failIf _) fun _ hlen => ?_
  exact .of_eq_ok (if_pos (not_lt.mp (failIf_eq_ok.mp hlen)))

theorem length_vector_iter {slot : ℕ} {dim : UInt16} {v : List F32}
    (h : vector_iter page slot dim = .ok v) : v.length = dim.toNat := by
  unfold vector_iter collect_components at h
  simp only [bind_eq_ok, failIf_eq_ok, exists_const, not_lt] at h
  obtain ⟨entry, -, hlen, h⟩ := h
  rw [if_pos hlen, Except.ok.injEq] at h
  have htake : (entry.take (4 * dim.toNat)).length = 4 * dim.toNat := by
    rw [List.length_take]
    omega
  rw [← h, List.length_map]
  exact (flatMap_words htake).1

theorem walk_dir_chain_noPanic {fetch : PageId → Result Page} (hfetch : ∀ p, NoPanic (fetch p))
    (left : ℕ) (visited : List PageId) (current : PageId) (ordinal : ℕ) :
    NoPanic (walk_dir_chain fetch left visited current ordinal) := by
  induction left generalizing visited current ordinal with
  | zero => exact .err _
  | succ left ih =>
    refine .check <| .bind (hfetch current) fun page _ => .check <| .check <| .check ?_
    dsimp only
    split_ifs
    · split
      · exact .err _
      · exact .check (.ok _)
    · exact .check <| .check <| ih _ _ _

theorem check_dir_chain_noPanic {fetch : PageId → Result Page} (hfetch : ∀ p, NoPanic (fetch p))
    (head : PageId) : NoPanic (check_dir_chain head fetch) :=
  .check <| walk_dir_chain_noPanic hfetch _ _ _ _

theorem dir_entry_eq_ok {idx : ℕ} (hcap : dir_count page ≤ DIR_ENTRIES_PER_PAGE)
    (hidx : idx < dir_count page) : ∃ e, dir_entry page idx = .ok e := by
  have hoff : PAGE_HEADER_SIZE + DIR_HEADER_SIZE + idx * 10 + 10 ≤ PAGE_SIZE := by
    unfold PAGE_HEADER_SIZE DIR_HEADER_SIZE PAGE_SIZE
    unfold DIR_ENTRIES_PER_PAGE at hcap
    omega
  unfold dir_entry
  simp only [failIf_of_not (not_lt.mpr hcap), failIf_of_not (not_le.mpr hidx), ok_bind]
  rw [page_slice_eq_ok.mpr ⟨⟨by omega, by omega⟩, rfl⟩, page_slice_eq_ok.mpr ⟨⟨by omega, hoff⟩, rfl⟩]
  exact ⟨_, rfl⟩

theorem dir_entry_noPanic (page : Page) (idx : ℕ) : NoPanic (dir_entry page idx) := by
  by_cases hcap : dir_count page ≤ DIR_ENTRIES_PER_PAGE
  · by_cases hidx : idx < dir_count page
    · exact .of_eq_ok (dir_entry_eq_ok hcap hidx).choose_spec
    · refine .check <| .bind (.failIf _) fun _ h => ?_
      exact absurd (failIf_eq_ok.mp h) (not_not.mpr (not_lt.mp hidx))
  · refine .bind (.failIf _) fun _ h => ?_
    exact absurd (failIf_eq_ok.mp h) (not_not.mpr (not_le.mp hcap))

theorem metric_from_discriminant_noPanic (v : ℕ) : NoPanic (Metric.from_discriminant v) := by
  unfold Metric.from_discriminant
  split
  · exact .ok _
  · exact .ok _
  · exact .ok _
  · exact .err _

theorem selection_from_discriminant_noPanic (v : ℕ) :
    NoPanic (NeighborSelection.from_discriminant v) := by
  unfold NeighborSelection.from_discriminant
  split
  · exact .ok _
  · exact .ok _
  · exact .err _

theorem read_meta_noPanic (page : Page) : NoPanic (read_meta page) := by
  refine .check <| .check <|
    .bind (metric_from_discriminant_noPanic _) fun _ _ =>
    .bind (selection_from_discriminant_noPanic _) fun _ _ => ?_
  refine .check <| .check <| .check <|
    .check <| .check <|
    .bind (.check (.failIf _)) fun _ _ => ?_
  exact .check <| .check <| .check <|
    .check <| .check <| .check (.ok _)

/-! ## The chain of directory pages -/

section DirChain

variable {pool : PageId → Page} {k : ℕ} {p : PageId} {pages : List PageId}

/-- A page the walk accepts at place `k`. -/
def DirPage (pool : PageId → Page) (k : ℕ) (p : PageId) : Prop :=
  page_type (pool p) = PAGE_TYPE_DIR ∧ dir_ordinal (pool p) = k ∧
    dir_count (pool p) ≤ DIR_ENTRIES_PER_PAGE

/-- The `next` links lead along the pages to `INVALID`, and all pages but the last are full. -/
def DirChain (pool : PageId → Page) : ℕ → List PageId → Prop
  | _, [] => False
  | k, [p] => DirPage pool k p ∧ dir_next (pool p) = PageId.INVALID
  | k, p :: q :: rest => DirPage pool k p ∧ dir_count (pool p) = DIR_ENTRIES_PER_PAGE ∧
      dir_next (pool p) = q ∧ q ≠ PageId.INVALID ∧ DirChain pool (k + 1) (q :: rest)

def dir_total (pool : PageId → Page) (pages : List PageId) : ℕ :=
  (pages.map fun p => dir_count (pool p)).sum

/-- The chain from `head`, and what `check_dir_chain` says of it. -/
structure ChainOf (pool : PageId → Page) (head : PageId) (info : DirChainInfo) : Prop where
  real : head ≠ PageId.INVALID
  head : info.pages.head? = some head
  chain : DirChain pool 0 info.pages
  nodup : info.pages.Nodup
  length_le : info.pages.length ≤ MAX_DIR_PAGES
  total_le : dir_total pool info.pages ≤ 4294967295
  hwm : info.hwm = dir_total pool info.pages
  page_count : info.page_count = info.pages.length

theorem dir_total_cons (pool : PageId → Page) (p : PageId) (pages : List PageId) :
    dir_total pool (p :: pages) = dir_count (pool p) + dir_total pool pages := by
  simp [dir_total]

theorem dir_total_full (k : ℕ) (h : dir_count (pool p) = DIR_ENTRIES_PER_PAGE) :
    k * DIR_ENTRIES_PER_PAGE + dir_total pool (p :: pages) =
      (k + 1) * DIR_ENTRIES_PER_PAGE + dir_total pool pages := by
  rw [dir_total_cons, h, Nat.succ_mul, Nat.add_assoc]

/-- Every identifier below the total has its entry. -/
theorem DirChain.entry (h : DirChain pool k pages) {id : ℕ} (hid : id < dir_total pool pages) :
    ∃ p, pages[id / DIR_ENTRIES_PER_PAGE]? = some p ∧
      ∃ e, dir_entry (pool p) (id % DIR_ENTRIES_PER_PAGE) = .ok e := by
  fun_induction DirChain pool k pages generalizing id with
  | case1 => exact h.elim
  | case2 k p =>
    have hlt : id < dir_count (pool p) := by simpa [dir_total] using hid
    have hcap : id < DIR_ENTRIES_PER_PAGE := lt_of_lt_of_le hlt h.1.2.2
    rw [Nat.div_eq_of_lt hcap, Nat.mod_eq_of_lt hcap]
    exact ⟨p, rfl, dir_entry_eq_ok h.1.2.2 hlt⟩
  | case3 k p q rest ih =>
    obtain ⟨hp, hfull, -, -, hrest⟩ := h
    by_cases hcap : id < DIR_ENTRIES_PER_PAGE
    · rw [Nat.div_eq_of_lt hcap, Nat.mod_eq_of_lt hcap]
      exact ⟨p, rfl, dir_entry_eq_ok hp.2.2 (hfull ▸ hcap)⟩
    · obtain ⟨j, rfl⟩ := Nat.exists_eq_add_of_le (not_lt.mp hcap)
      rw [dir_total_cons, hfull] at hid
      rw [Nat.add_mod_left, Nat.add_div_left _ (by decide), List.getElem?_cons_succ]
      exact ih hrest (Nat.lt_of_add_lt_add_left hid)

/-- The walk from `p` accepts exactly the rest of a chain. -/
theorem walk_dir_chain_eq_ok {left : ℕ} {visited : List PageId} {info : DirChainInfo}
    (hv : visited.Nodup) : walk_dir_chain (fun p => .ok (pool p)) left visited p k = .ok info ↔
      ∃ rest, DirChain pool k (p :: rest) ∧ (visited ++ p :: rest).Nodup ∧ rest.length < left ∧
        k * DIR_ENTRIES_PER_PAGE + dir_total pool (p :: rest) ≤ 4294967295 ∧
        ⟨k + rest.length + 1, k * DIR_ENTRIES_PER_PAGE + dir_total pool (p :: rest),
          visited ++ p :: rest⟩ = info := by
  induction left generalizing k visited p with
  | zero => simp [walk_dir_chain]
  | succ left ih =>
    rw [walk_dir_chain]
    simp only [failIf_bind_eq_ok, ok_bind, not_not, not_lt]
    constructor
    · rintro ⟨hmem, htype, rfl, hcount, h⟩
      have hv' : (visited ++ [p]).Nodup :=
        hv.append (List.nodup_singleton p) (List.disjoint_singleton.mpr hmem)
      split_ifs at h with hnext
      · unfold checked_hwm check_hwm_node_id_space at h
        split_ifs at h
        · simp only [failIf_bind_eq_ok, not_lt, pure_eq_ok] at h
          refine ⟨[], ⟨⟨htype, rfl, hcount⟩, hnext⟩, hv', Nat.succ_pos _, ?_⟩
          simpa [dir_total] using h
      · rw [failIf_bind_eq_ok, failIf_bind_eq_ok, not_not] at h
        obtain ⟨hfull, -, h⟩ := h
        obtain ⟨rest, hchain, hnodup, hlen, hle, hinfo⟩ := (ih hv').mp h
        rw [← List.append_cons] at hnodup hinfo
        rw [← dir_total_full _ hfull] at hle hinfo
        rw [Nat.add_assoc _ 1, Nat.add_comm 1] at hinfo
        exact ⟨_ :: rest, ⟨⟨htype, rfl, hcount⟩, hfull, rfl, hnext, hchain⟩, hnodup,
          Nat.succ_lt_succ hlen, hle, hinfo⟩
    · rintro ⟨rest, hchain, hnodup, hlen, hle, hinfo⟩
      have hmem : p ∉ visited := fun h => List.disjoint_of_nodup_append hnodup h (.head _)
      cases rest with
      | nil =>
        obtain ⟨⟨htype, rfl, hcount⟩, hnext⟩ := hchain
        refine ⟨hmem, htype, rfl, hcount, ?_⟩
        simp only [dir_total, List.map_singleton, List.sum_singleton, List.length_nil,
          Nat.add_zero] at hle hinfo
        rw [if_pos hnext, checked_hwm, if_pos (by omega)]
        exact failIf_bind_eq_ok.mpr ⟨not_lt.mpr hle, pure_eq_ok.mpr hinfo⟩
      | cons q rest =>
        obtain ⟨⟨htype, hord, hcount⟩, hfull, rfl, hreal, hchain⟩ := hchain
        have hne : dir_next (pool p) ≠ p := fun h =>
          (List.nodup_cons.mp hnodup.of_append_right).1 (List.mem_cons.mpr (.inl h.symm))
        rw [List.append_cons] at hnodup hinfo
        rw [dir_total_full _ hfull] at hle hinfo
        rw [List.length_cons, Nat.add_comm rest.length, ← Nat.add_assoc k] at hinfo
        rw [if_neg hreal, failIf_of_not (not_not.mpr hfull), ok_bind, failIf_of_not hne, ok_bind]
        exact ⟨hmem, htype, hord, hcount, (ih hnodup.of_append_left).mpr
          ⟨rest, hchain, hnodup, Nat.lt_of_succ_lt_succ hlen, hle, hinfo⟩⟩

theorem check_dir_chain_iff (head : PageId) (pool : PageId → Page) (info : DirChainInfo) :
    NoPanic (check_dir_chain head fun p => .ok (pool p)) ∧
    (check_dir_chain head (fun p => .ok (pool p)) = .ok info ↔ ChainOf pool head info) ∧
    (ChainOf pool head info → ∀ id < info.hwm,
      ∃ p, info.pages[id / DIR_ENTRIES_PER_PAGE]? = some p ∧
        ∃ e, dir_entry (pool p) (id % DIR_ENTRIES_PER_PAGE) = .ok e) := by
  refine ⟨check_dir_chain_noPanic (fun p => .ok _) head, ?_, fun h id hid => ?_⟩
  · rw [check_dir_chain, failIf_bind_eq_ok, walk_dir_chain_eq_ok List.nodup_nil]
    constructor
    · rintro ⟨hhead, rest, hchain, hnodup, hlen, hle, rfl⟩
      simp only [Nat.zero_mul, Nat.zero_add] at hle ⊢
      exact ⟨hhead, rfl, hchain, hnodup, hlen, hle, rfl, rfl⟩
    · rintro ⟨hhead, h0, hchain, hnodup, hlen, hle, hhwm, hcount⟩
      obtain ⟨rest, hrest⟩ := List.head?_eq_some_iff.mp h0
      rw [hrest] at hchain hnodup hlen hle hhwm hcount
      refine ⟨hhead, rest, hchain, hnodup, hlen, ?_⟩
      rw [Nat.zero_mul, Nat.zero_add, Nat.zero_add, ← hhwm]
      refine ⟨hhwm ▸ hle, ?_⟩
      cases info
      simp_all
  · exact h.chain.entry (h.hwm ▸ hid)

end DirChain

end Ams.HnswAm
