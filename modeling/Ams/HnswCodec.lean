/-
The snapshot codec is exact.

Both checklists of `HnswEncoding` accept the same thing, `ValidGraph`, and each function is
given one equation. `encode_snapshot_body_eq_ok` and `decode_snapshot_body_eq_ok` say that both
succeed exactly on valid data, and that the bytes are `body_bytes` of the data. That no two byte
strings mean one graph, and that nothing the encoder writes is refused, is read off the pair.
-/
import Ams.HnswEncoding

set_option autoImplicit false

namespace Ams.HnswAm

open Ams.Lib
open List (append_assoc append_nil drop_left flatMap_cons forall_mem_cons length_append length_cons
  length_eq_zero_iff length_map)

/-! ## Valid data -/

structure ConstructionOk (h : SnapshotHeader) : Prop where
  dim : h.dim.toNat ≠ 0
  m : 2 ≤ h.m.toNat
  ef_construction : h.m.toNat ≤ h.ef_construction.toNat
  m_max0 : h.m.toNat ≤ h.m_max0.toNat

structure RecordOk (h : SnapshotHeader) (r : NodeRecord) : Prop where
  dim : r.vector.length = h.dim.toNat
  finite : ∀ x ∈ r.vector, x.is_finite = true
  level_pos : r.neighbors ≠ []
  level_le : r.neighbors.length ≤ MAX_LEVEL_COUNT

structure EntryOk (h : SnapshotHeader) (levels : List ℕ) : Prop where
  empty : h.node_count.toNat = 0 → h.entry_point.toNat = EMPTY_GRAPH_ENTRY_POINT ∧
    h.max_level.toNat = 0
  entry : h.node_count.toNat ≠ 0 → h.entry_point.toNat < h.node_count.toNat ∧
    levels[h.entry_point.toNat]? = some h.max_level.toNat
  highest : ∀ top ∈ levels, top ≤ h.max_level.toNat

/-- A neighbour list of node `i`. -/
structure ListOk (h : SnapshotHeader) (levels : List ℕ) (i level : ℕ) (list : List NodeId) :
    Prop where
  degree : list.length ≤ h.cap level
  ascending : list.Pairwise (· < ·)
  no_loop : i ∉ list
  target : ∀ n ∈ list, n < h.node_count.toNat ∧ ∃ top, levels[n]? = some top ∧ level ≤ top

def AdjacencyOk (h : SnapshotHeader) (levels : List ℕ) (i : ℕ) (neighbors : List (List NodeId)) :
    Prop :=
  ∀ level list, neighbors[level]? = some list → ListOk h levels i level list

/-- What both checklists accept. -/
structure ValidGraph (h : SnapshotHeader) (nodes : List NodeRecord) : Prop where
  construction : ConstructionOk h
  count : h.node_count.toNat = nodes.length
  records : ∀ r ∈ nodes, RecordOk h r
  entry : EntryOk h (top_levels nodes)
  adjacency : ∀ i r, nodes[i]? = some r → AdjacencyOk h (top_levels nodes) i r.neighbors

/-! ## The checks -/

variable {h : SnapshotHeader} {u : Unit}

theorem validate_construction_params_eq_ok :
    h.validate_construction_params = .ok u ↔ ConstructionOk h := by
  unfold SnapshotHeader.validate_construction_params
  rw [failIf_bind_eq_ok, failIf_bind_eq_ok, failIf_bind_eq_ok, failIf_eq_ok]
  constructor
  · rintro ⟨hdim, hm, hef, hmax⟩
    exact ⟨hdim, not_lt.mp hm, not_lt.mp hef, not_lt.mp hmax⟩
  · rintro ⟨hdim, hm, hef, hmax⟩
    exact ⟨hdim, not_lt.mpr hm, not_lt.mpr hef, not_lt.mpr hmax⟩

/-- A check on every element of an enumerated list. -/
theorem forM_zipIdx_eq_ok {α : Type} {l : List α} {f : α × ℕ → Result Unit} :
    l.zipIdx.forM f = .ok u ↔ ∀ i a, l[i]? = some a → f (a, i) = .ok () := by
  rw [forM_eq_ok]
  constructor
  · intro h i a ha
    exact h (a, i) (List.mk_mem_zipIdx_iff_getElem?.mpr ha)
  · rintro h ⟨a, i⟩ ha
    exact h i a (List.mk_mem_zipIdx_iff_getElem?.mp ha)

theorem forM_finite_eq_ok {vector : List F32} {e : F32 × ℕ → Failure} :
    (vector.zipIdx.forM fun p => failIf (p.1.is_finite = false) (e p)) = .ok u ↔
      ∀ x ∈ vector, x.is_finite = true := by
  rw [forM_zipIdx_eq_ok]
  constructor
  · intro h x hx
    obtain ⟨i, hi⟩ := List.mem_iff_getElem?.mp hx
    exact Bool.of_not_eq_false (failIf_eq_ok.mp (h i x hi))
  · intro h i x hi
    exact failIf_eq_ok.mpr (by rw [h x (List.mem_of_getElem? hi)]; simp)

variable {i n : ℕ} {r : NodeRecord}

theorem validate_record_basics_eq_ok :
    validate_record_basics h i r.vector r.neighbors.length = .ok u ↔ RecordOk h r := by
  unfold validate_record_basics
  simp only [bind_eq_ok, forM_finite_eq_ok, failIf_eq_ok, exists_const]
  constructor
  · rintro ⟨hdim, hfinite, hpos, hle⟩
    exact ⟨not_not.mp hdim, hfinite, fun hnil => hpos (by rw [hnil]; rfl), not_lt.mp hle⟩
  · rintro ⟨hdim, hfinite, hpos, hle⟩
    exact ⟨not_not.mpr hdim, hfinite, fun h0 => hpos (length_eq_zero_iff.mp h0),
      not_lt.mpr hle⟩

variable {levels : List ℕ}

theorem validate_entry_and_max_level_eq_ok :
    validate_entry_and_max_level h levels = .ok u ↔ EntryOk h levels := by
  have hloop : ∀ (e : ℕ × ℕ → Failure) (v : Unit),
      (levels.zipIdx.forM fun p => failIf (p.1 > h.max_level.toNat) (e p)) = .ok v ↔
        ∀ top ∈ levels, top ≤ h.max_level.toNat := by
    intro e v
    rw [forM_zipIdx_eq_ok]
    constructor
    · intro hall top htop
      obtain ⟨i, hi⟩ := List.mem_iff_getElem?.mp htop
      exact not_lt.mp (failIf_eq_ok.mp (hall i top hi))
    · intro hall i top hi
      exact failIf_eq_ok.mpr (not_lt.mpr (hall top (List.mem_of_getElem? hi)))
  unfold validate_entry_and_max_level
  by_cases h0 : h.node_count.toNat = 0
  · simp only [if_pos h0, bind_eq_ok, failIf_eq_ok, exists_const, hloop]
    constructor
    · rintro ⟨hep, hmax, hall⟩
      exact ⟨fun _ => ⟨not_not.mp hep, not_not.mp hmax⟩, fun hne => absurd h0 hne, hall⟩
    · rintro ⟨hempty, -, hall⟩
      exact ⟨not_not.mpr (hempty h0).1, not_not.mpr (hempty h0).2, hall⟩
  · simp only [if_neg h0, bind_eq_ok, failIf_eq_ok, exists_const, index_eq_ok, hloop]
    constructor
    · rintro ⟨hep, top, htop, hmax, hall⟩
      refine ⟨fun hz => absurd hz h0, fun _ => ⟨not_le.mp hep, ?_⟩, hall⟩
      rw [not_not.mp hmax]
      exact htop
    · rintro ⟨-, hentry, hall⟩
      obtain ⟨hlt, htop⟩ := hentry h0
      exact ⟨not_le.mpr hlt, _, htop, not_not.mpr rfl, hall⟩

/-- Each element is above the one before it. -/
theorem pairwise_lt_iff_prev {list : List ℕ} :
    list.Pairwise (· < ·) ↔
      ∀ j n, list[j]? = some n → ¬ (0 < j ∧ n ≤ list.getD (j - 1) 0) := by
  rw [← List.isChain_iff_pairwise, List.isChain_iff_getElem]
  constructor
  · rintro h j n hn ⟨hj, hle⟩
    obtain ⟨hlt, rfl⟩ := List.getElem?_eq_some_iff.mp hn
    obtain ⟨k, rfl⟩ : ∃ k, j = k + 1 := ⟨j - 1, by omega⟩
    have hstep := h k hlt
    rw [Nat.add_sub_cancel, List.getD, List.getElem?_eq_getElem (by omega), Option.getD_some] at hle
    exact absurd hstep (not_lt.mpr hle)
  · intro h k hk
    have hstep := h (k + 1) _ (List.getElem?_eq_getElem hk)
    rw [Nat.add_sub_cancel, List.getD, List.getElem?_eq_getElem (by omega), Option.getD_some] at hstep
    exact not_le.mp fun hle => hstep ⟨Nat.succ_pos k, hle⟩

theorem validate_neighbor_eq_ok {level : ℕ} {list : List NodeId} {n : NodeId} {j : ℕ} :
    validate_neighbor h levels i level list n j = .ok u ↔
      n ≠ i ∧ ¬ (0 < j ∧ n ≤ list.getD (j - 1) 0) ∧ n < h.node_count.toNat ∧
        ∃ top, levels[n]? = some top ∧ level ≤ top := by
  unfold validate_neighbor
  rw [failIf_bind_eq_ok, failIf_bind_eq_ok, failIf_bind_eq_ok, bind_eq_ok, not_le]
  simp only [index_eq_ok, failIf_eq_ok, not_lt, gt_iff_lt, ne_eq]

variable {neighbors : List (List NodeId)}

theorem validate_adjacency_eq_ok :
    validate_adjacency h levels i neighbors = .ok u ↔ AdjacencyOk h levels i neighbors := by
  unfold validate_adjacency AdjacencyOk
  rw [forM_zipIdx_eq_ok]
  refine forall_congr' fun level => forall_congr' fun list => imp_congr_right fun _ => ?_
  simp only [failIf_bind_eq_ok, forM_zipIdx_eq_ok, validate_neighbor_eq_ok]
  constructor
  · rintro ⟨hcap, hall⟩
    refine ⟨not_lt.mp hcap, ?_, ?_, ?_⟩
    · exact pairwise_lt_iff_prev.mpr fun j n hn => (hall j n hn).2.1
    · intro hmem
      obtain ⟨j, hj⟩ := List.mem_iff_getElem?.mp hmem
      exact (hall j i hj).1 rfl
    · intro n hn
      obtain ⟨j, hj⟩ := List.mem_iff_getElem?.mp hn
      exact (hall j n hj).2.2
  · rintro ⟨hcap, hasc, hloop, htarget⟩
    refine ⟨not_lt.mpr hcap, fun j n hn => ?_⟩
    have hmem := List.mem_of_getElem? hn
    refine ⟨?_, pairwise_lt_iff_prev.mp hasc j n hn, htarget n hmem⟩
    rintro rfl
    exact hloop hmem

variable {nodes : List NodeRecord}

theorem validate_graph_data_eq_ok (hc : ConstructionOk h) :
    validate_graph_data h nodes = .ok u ↔ ValidGraph h nodes := by
  unfold validate_graph_data
  simp only [bind_eq_ok, failIf_eq_ok, exists_const, forM_zipIdx_eq_ok,
    validate_record_basics_eq_ok, validate_entry_and_max_level_eq_ok, validate_adjacency_eq_ok]
  simp only [forM_eq_ok, failIf_eq_ok]
  constructor
  · rintro ⟨hcount, hrec, -, -, hentry, hadj⟩
    refine ⟨hc, not_not.mp hcount, fun r hr => ?_, hentry, hadj⟩
    obtain ⟨i, hi⟩ := List.mem_iff_getElem?.mp hr
    exact hrec i r hi
  · rintro ⟨-, hcount, hrec, hentry, hadj⟩
    refine ⟨not_not.mpr hcount, fun i r hi => hrec r (List.mem_of_getElem? hi), (), ?_,
      hentry, hadj⟩
    intro r hr h0
    exact (hrec r hr).level_pos (length_eq_zero_iff.mp h0)

/-! ## Header bytes -/

variable {bytes cursor rest : List UInt8}

variable {off w : ℕ}

theorem le_at_eq_ok {v : ℕ} :
    le_at bytes off w = .ok v ↔ off + w ≤ bytes.length ∧ wal_le bytes off w = v := by
  unfold le_at
  split_ifs with h
  · simp [h]
  · simp [h]

theorem slice_from_eq_ok :
    slice_from bytes n = .ok rest ↔ n ≤ bytes.length ∧ bytes.drop n = rest := by
  unfold slice_from
  split_ifs with h
  · simp [h]
  · simp [h]

/-- The bytes a field was read from. -/
theorem leBytes_wal_le (h : off + w ≤ bytes.length) :
    leBytes w (wal_le bytes off w) = (bytes.drop off).take w := leBytes_ofLe_slice h

theorem wal_le_lt (bytes : List UInt8) (off w : ℕ) : wal_le bytes off w < 256 ^ w :=
  ofLe_slice_lt bytes off w

namespace SnapshotHeader

theorem length_encode (h : SnapshotHeader) : h.encode.length = 25 := by
  simp [encode, fields, List.flatten]

theorem wal_le_encode (h : SnapshotHeader) (rest : List UInt8) {k off w v : ℕ}
    (hk : h.fields[k]? = some (leBytes w v)) (hoff : ((h.fields.take k).map List.length).sum = off)
    (hv : v < 256 ^ w) : wal_le (h.encode ++ rest) off w = v := by
  rw [wal_le, encode, take_drop_flatten hk hoff (length_leBytes w v), ofLe_leBytes_of_lt hv]

/-- **The header.** It is decoded from its own bytes, whatever follows, and from no others. -/
theorem decode_eq_ok {bytes : List UInt8} {h : SnapshotHeader} :
    decode bytes = .ok h ↔ ConstructionOk h ∧ ∃ rest, bytes = h.encode ++ rest := by
  unfold decode
  simp only [bind_eq_ok, failIf_eq_ok, exists_const, le_at_eq_ok, pure_eq_ok,
    validate_construction_params_eq_ok]
  constructor
  · rintro ⟨hlen, _, ⟨h0, rfl⟩, hmagic, _, ⟨h1, rfl⟩, hversion, _, ⟨h2, rfl⟩, _, ⟨h3, rfl⟩, _,
      ⟨h4, rfl⟩, _, ⟨h5, rfl⟩, _, ⟨h6, rfl⟩, _, ⟨h7, rfl⟩, _, ⟨h8, rfl⟩, hc, rfl⟩
    refine ⟨hc, bytes.drop 25, ?_⟩
    have hfields : ∀ off w, wal_le bytes off w % 256 ^ w = wal_le bytes off w := fun off w =>
      Nat.mod_eq_of_lt (wal_le_lt bytes off w)
    have h16 : ∀ off, (UInt16.ofNat (wal_le bytes off 2)).toNat = wal_le bytes off 2 := fun off => by
      rw [UInt16.toNat_ofNat']
      exact hfields off 2
    have h32 : ∀ off, (UInt32.ofNat (wal_le bytes off 4)).toNat = wal_le bytes off 4 := fun off => by
      rw [UInt32.toNat_ofNat']
      exact hfields off 4
    have h8' : (UInt8.ofNat (wal_le bytes 24 1)).toNat = wal_le bytes 24 1 := by
      rw [UInt8.toNat_ofNat']
      exact hfields 24 1
    rw [encode, fields, ← not_not.mp hmagic, ← not_not.mp hversion]
    simp only [h16, h32, h8', List.flatten_cons, List.flatten_nil, append_nil]
    rw [leBytes_wal_le h0, leBytes_wal_le h1, leBytes_wal_le h2, leBytes_wal_le h3,
      leBytes_wal_le h4, leBytes_wal_le h5, leBytes_wal_le h6, leBytes_wal_le h7,
      leBytes_wal_le h8]
    -- the nine slices follow one another
    have htake : bytes.take 25 = (bytes.drop 0).take 4 ++ ((bytes.drop 4).take 2 ++
        ((bytes.drop 6).take 2 ++ ((bytes.drop 8).take 2 ++ ((bytes.drop 10).take 2 ++
        ((bytes.drop 12).take 4 ++ ((bytes.drop 16).take 4 ++ ((bytes.drop 20).take 4 ++
        (bytes.drop 24).take 1))))))) := by
      rw [show 25 = 4 + (2 + (2 + (2 + (2 + (4 + (4 + (4 + 1))))))) from rfl]
      simp only [List.take_add, List.drop_drop, List.drop_zero]
    rw [← htake, List.take_append_drop]
  · rintro ⟨hc, rest, rfl⟩
    have hlen : (h.encode ++ rest).length = 25 + rest.length := by
      rw [length_append, length_encode]
    have hle : ∀ n, n ≤ 25 → n ≤ (h.encode ++ rest).length := fun n hn => by omega
    refine ⟨not_lt.mpr (hle 25 le_rfl), _, ⟨hle _ (by norm_num), rfl⟩, ?_, _, ⟨hle _ (by norm_num), rfl⟩, ?_, _,
      ⟨hle _ (by norm_num), rfl⟩, _, ⟨hle _ (by norm_num), rfl⟩, _, ⟨hle _ (by norm_num), rfl⟩, _,
      ⟨hle _ (by norm_num), rfl⟩, _, ⟨hle _ (by norm_num), rfl⟩, _, ⟨hle _ (by norm_num), rfl⟩, _,
      ⟨hle _ (by norm_num), rfl⟩, ?_⟩
    · rw [h.wal_le_encode rest (k := 0) rfl (by simp) (by decide)]
      exact not_not.mpr rfl
    · rw [h.wal_le_encode rest (k := 1) rfl (by simp [fields]) (by decide)]
      exact not_not.mpr rfl
    · rw [h.wal_le_encode rest (k := 2) rfl (by simp [fields]) h.dim.toNat_lt,
        h.wal_le_encode rest (k := 3) rfl (by simp [fields]) h.m.toNat_lt,
        h.wal_le_encode rest (k := 4) rfl (by simp [fields]) h.m_max0.toNat_lt,
        h.wal_le_encode rest (k := 5) rfl (by simp [fields]) h.ef_construction.toNat_lt,
        h.wal_le_encode rest (k := 6) rfl (by simp [fields]) h.node_count.toNat_lt,
        h.wal_le_encode rest (k := 7) rfl (by simp [fields]) h.entry_point.toNat_lt,
        h.wal_le_encode rest (k := 8) rfl (by simp [fields]) h.max_level.toNat_lt]
      simp only [UInt16.ofNat_toNat, UInt32.ofNat_toNat, UInt8.ofNat_toNat]
      exact ⟨hc, trivial⟩

end SnapshotHeader

/-! ## Record bytes -/

def list_bytes (list : List NodeId) : List UInt8 := leBytes 2 list.length ++ list.flatMap (leBytes 4)

/-- A record as it is written. -/
def record_bytes (r : NodeRecord) : List UInt8 :=
  [0] ++ ([0] ++ (r.vector.flatMap (fun x => leBytes 4 x.toNat) ++
    (leBytes 1 r.neighbors.length ++ r.neighbors.flatMap list_bytes)))

/-- The ids and the lengths of the lists fit their widths. -/
def InWidth (neighbors : List (List NodeId)) : Prop :=
  ∀ list ∈ neighbors, list.length < 256 ^ 2 ∧ ∀ n ∈ list, n < 256 ^ 4

variable {b : List UInt8}

theorem encode_lists_eq_ok {out : List UInt8} {level : ℕ} {lists : List (List NodeId)} :
    encode_lists out level lists = .ok b ↔
      (∀ list ∈ lists, list.length < 256 ^ 2) ∧ b = out ++ lists.flatMap list_bytes := by
  induction lists generalizing out level with
  | nil =>
    rw [encode_lists, Except.ok.injEq, List.flatMap_nil, append_nil]
    exact ⟨fun h => ⟨fun _ hl => absurd hl (by simp), h.symm⟩, fun h => h.2.symm⟩
  | cons list lists ih =>
    rw [encode_lists, failIf_bind_eq_ok, ih, flatMap_cons, forall_mem_cons,
      ← list_bytes, append_assoc, and_assoc]
    refine and_congr_left fun _ => ?_
    constructor
    · intro h
      norm_num
      omega
    · intro h
      norm_num at h
      omega

variable {dim : UInt16}

theorem encode_node_record_eq_ok {out : List UInt8} :
    encode_node_record out dim r.vector r.neighbors = .ok b ↔
      (r.vector.length = dim.toNat ∧ r.neighbors ≠ [] ∧ r.neighbors.length ≤ MAX_LEVEL_COUNT ∧
        (∀ x ∈ r.vector, x.is_finite = true)) ∧
      (∀ list ∈ r.neighbors, list.length < 256 ^ 2) ∧ b = out ++ record_bytes r := by
  unfold encode_node_record
  simp only [bind_eq_ok, failIf_eq_ok, exists_const, forM_finite_eq_ok, encode_lists_eq_ok,
    record_bytes, append_assoc, not_lt, gt_iff_lt, ne_eq, not_not, and_assoc]

theorem take_eq_ok {a : List UInt8} {what : String} :
    take cursor n what = .ok (a, rest) ↔ a.length = n ∧ cursor = a ++ rest := by
  unfold take
  split_ifs with h
  · apply iff_of_false (by simp)
    rintro ⟨hlen, rfl⟩
    rw [length_append] at h
    omega
  · rw [Except.ok.injEq, Prod.mk.injEq]
    constructor
    · rintro ⟨rfl, rfl⟩
      refine ⟨?_, (List.take_append_drop n cursor).symm⟩
      rw [List.length_take]
      omega
    · rintro ⟨rfl, rfl⟩
      exact ⟨List.take_left, drop_left⟩

/-- The words of a concatenation of four-byte numbers. -/
theorem words_flatMap {l : List ℕ} (h : ∀ n ∈ l, n < 256 ^ 4) : words (l.flatMap (leBytes 4)) = l := by
  induction l with
  | nil => rfl
  | cons n l ih =>
    have hn := ofLe_leBytes_of_lt (h n (.head _))
    have hcons : words (leBytes 4 n ++ l.flatMap (leBytes 4)) =
        ofLe (leBytes 4 n) :: words (l.flatMap (leBytes 4)) := rfl
    rw [flatMap_cons, hcons, hn, ih fun k hk => h k (List.mem_cons_of_mem n hk)]

/-- Bytes in a multiple of four are the concatenation of their words. -/
theorem flatMap_words {bs : List UInt8} (h : bs.length = 4 * n) :
    (words bs).length = n ∧ (words bs).flatMap (leBytes 4) = bs ∧ ∀ w ∈ words bs, w < 256 ^ 4 := by
  induction n generalizing bs with
  | zero =>
    rw [length_eq_zero_iff.mp h]
    exact ⟨rfl, rfl, fun w hw => absurd hw (by simp [words])⟩
  | succ n ih =>
    match bs, h with
    | a :: b :: c :: d :: bs, h =>
      simp only [length_cons] at h
      have hbs : bs.length = 4 * n := by omega
      obtain ⟨hlen, hflat, hlt⟩ := ih hbs
      rw [words]
      refine ⟨by rw [length_cons, hlen], ?_, ?_⟩
      · have hword := leBytes_ofLe [a, b, c, d]
        rw [length_cons, length_cons, length_cons, List.length_singleton] at hword
        rw [flatMap_cons, hflat, hword]
        rfl
      · intro w hw
        rcases List.mem_cons.mp hw with rfl | hw
        · exact ofLe_lt [a, b, c, d]
        · exact hlt w hw
    | [], h => simp at h
    | [_], h => simp at h; omega
    | [_, _], h => simp at h; omega
    | [_, _, _], h => simp at h; omega

theorem decode_vector_eq_ok {ws : List ℕ} {v : List F32} :
    decode_vector i ws = .ok v ↔ v = ws.map UInt32.ofNat ∧ ∀ x ∈ v, x.is_finite = true := by
  induction ws generalizing i v with
  | nil =>
    rw [decode_vector, Except.ok.injEq, List.map_nil]
    constructor
    · rintro rfl
      exact ⟨rfl, fun x hx => absurd hx (by simp)⟩
    · rintro ⟨rfl, -⟩
      rfl
  | cons w ws ih =>
    rw [decode_vector, failIf_bind_eq_ok, bind_eq_ok]
    simp only [ih, pure_eq_ok, List.map_cons]
    constructor
    · rintro ⟨hfin, xs, ⟨rfl, hall⟩, rfl⟩
      refine ⟨rfl, forall_mem_cons.mpr ⟨Bool.of_not_eq_false hfin, hall⟩⟩
    · rintro ⟨rfl, hall⟩
      obtain ⟨hfin, hall⟩ := forall_mem_cons.mp hall
      exact ⟨by rw [hfin]; simp, _, ⟨rfl, hall⟩, rfl⟩

/-- The vector's bytes. -/
theorem decode_vector_words {bs : List UInt8} {v : List F32} (hlen : bs.length = 4 * n) :
    decode_vector i (words bs) = .ok v ↔
      v.length = n ∧ bs = v.flatMap (fun x => leBytes 4 x.toNat) ∧ ∀ x ∈ v, x.is_finite = true := by
  obtain ⟨hwords, hflat, hlt⟩ := flatMap_words hlen
  rw [decode_vector_eq_ok]
  have hmap : ∀ l : List F32, l.flatMap (fun x => leBytes 4 x.toNat) =
      (l.map UInt32.toNat).flatMap (leBytes 4) := fun l => by rw [List.flatMap_map]
  constructor
  · rintro ⟨rfl, hfin⟩
    refine ⟨by rw [length_map, hwords], ?_, hfin⟩
    have hid : (words bs).map (UInt32.toNat ∘ UInt32.ofNat) = words bs := by
      rw [List.map_congr_left (g := id), List.map_id]
      intro w hw
      exact UInt32.toNat_ofNat_of_lt' (hlt w hw)
    rw [hmap, List.map_map, hid, hflat]
  · rintro ⟨rfl, rfl, hfin⟩
    refine ⟨?_, hfin⟩
    rw [hmap, words_flatMap, List.map_map]
    · simp [Function.comp_def]
    · intro n hn
      obtain ⟨x, -, rfl⟩ := List.mem_map.mp hn
      exact x.toNat_lt

theorem decode_lists_eq_ok {lists : List (List NodeId)} :
    decode_lists n cursor = .ok (lists, rest) ↔
      lists.length = n ∧ InWidth lists ∧ cursor = lists.flatMap list_bytes ++ rest := by
  induction n generalizing cursor lists with
  | zero =>
    rw [decode_lists, Except.ok.injEq, Prod.mk.injEq]
    constructor
    · rintro ⟨rfl, rfl⟩
      exact ⟨rfl, fun l hl => absurd hl (by simp), rfl⟩
    · rintro ⟨hlen, -, rfl⟩
      rw [length_eq_zero_iff.mp hlen]
      exact ⟨rfl, rfl⟩
  | succ n ih =>
    rw [decode_lists]
    simp only [bind_eq_ok, pure_eq_ok, Prod.exists, take_eq_ok, Prod.mk.injEq]
    constructor
    · rintro ⟨count, c1, ⟨hcount, rfl⟩, ids, c2, ⟨hids, rfl⟩, ls, c3, hls, rfl, rfl⟩
      obtain ⟨hlss, hwidth, rfl⟩ := ih.mp hls
      obtain ⟨hlen, hflat, hlt⟩ := flatMap_words hids
      have hbound := ofLe_lt count
      rw [hcount] at hbound
      refine ⟨by rw [length_cons, hlss], ?_, ?_⟩
      · exact forall_mem_cons.mpr ⟨⟨by rw [hlen]; exact hbound, hlt⟩, hwidth⟩
      · have hcb := leBytes_ofLe count
        rw [hcount] at hcb
        rw [flatMap_cons, list_bytes, hlen, hflat, hcb, append_assoc, append_assoc]
    · rintro ⟨hlen, hwidth, rfl⟩
      obtain ⟨list, ls, rfl⟩ := List.exists_cons_of_length_eq_add_one hlen
      obtain ⟨⟨hshort, hsmall⟩, hwidth⟩ := forall_mem_cons.mp hwidth
      have hcount : ofLe (leBytes 2 list.length) = list.length := ofLe_leBytes_of_lt hshort
      refine ⟨leBytes 2 list.length, list.flatMap (leBytes 4) ++ (ls.flatMap list_bytes ++ rest),
        ⟨length_leBytes 2 _, ?_⟩, list.flatMap (leBytes 4), ls.flatMap list_bytes ++ rest, ⟨?_, rfl⟩,
        ls, rest, ih.mpr ⟨Nat.succ.inj hlen, hwidth, rfl⟩, ?_, rfl⟩
      · rw [flatMap_cons, list_bytes, append_assoc, append_assoc]
      · rw [hcount, List.length_flatMap]
        simp [Nat.mul_comm]
      · rw [words_flatMap hsmall]

/-- A record as the decoder accepts it. -/
structure Decodable (dim : UInt16) (r : NodeRecord) : Prop where
  dim : r.vector.length = dim.toNat
  finite : ∀ x ∈ r.vector, x.is_finite = true
  level_pos : r.neighbors ≠ []
  level_le : r.neighbors.length ≤ MAX_LEVEL_COUNT
  width : InWidth r.neighbors

theorem length_one {l : List UInt8} (h : l.length = 1) : ∃ b, l = [b] := List.length_eq_one_iff.mp h

/-- **A record.** It is decoded from its own bytes, whatever follows, and from no others. -/
theorem decode_node_record_eq_ok {used : ℕ} :
    decode_node_record bytes dim = .ok (r, used) ↔
      Decodable dim r ∧ used = (record_bytes r).length ∧
        ∃ rest, bytes = record_bytes r ++ rest := by
  unfold decode_node_record
  simp only [bind_eq_ok, pure_eq_ok, Prod.exists, take_eq_ok, failIf_eq_ok, exists_const, index_eq_ok,
    decode_lists_eq_ok, Prod.mk.injEq]
  constructor
  · rintro ⟨fs, c0, ⟨hf, rfl⟩, f, hf0, hzero, rs, c1, ⟨hr, rfl⟩, rb, hr0, hrzero, vs, c2, ⟨hv, rfl⟩,
      vector, hvec, lc, c3, ⟨hl, rfl⟩, k, hk0, hkpos, hkle, lists, c4, ⟨hlen, hwidth, rfl⟩, rfl, rfl⟩
    obtain ⟨f', rfl⟩ := length_one hf
    obtain ⟨r', rfl⟩ := length_one hr
    obtain ⟨k', rfl⟩ := length_one hl
    obtain rfl : f' = f := Option.some.inj hf0
    obtain rfl : r' = rb := Option.some.inj hr0
    obtain rfl : k' = k := Option.some.inj hk0
    obtain ⟨hdim, rfl, hfin⟩ := (decode_vector_words hv).mp hvec
    have hk : leBytes 1 lists.length = [k'] := by
      have h := leBytes_ofLe [k']
      rw [List.length_singleton] at h
      rw [hlen, ← h]
      simp [ofLe]
    have hkne : lists ≠ [] := by
      rintro rfl
      apply hkpos
      rw [List.length_nil] at hlen
      exact UInt8.toNat_inj.mp hlen.symm
    have hbytes : record_bytes ⟨vector, lists⟩ ++ c4 =
        [f'] ++ ([r'] ++ (vector.flatMap (fun x => leBytes 4 x.toNat) ++
          ([k'] ++ (lists.flatMap list_bytes ++ c4)))) := by
      rw [record_bytes, hk, not_not.mp hzero, not_not.mp hrzero]
      simp only [append_assoc]
    refine ⟨⟨hdim, hfin, hkne, ?_, hwidth⟩, ?_, c4, hbytes.symm⟩
    · rw [hlen]
      exact not_lt.mp hkle
    · rw [← hbytes, length_append]
      omega
  · rintro ⟨⟨hdim, hfin, hpos, hle, hwidth⟩, rfl, rest, rfl⟩
    have hk : leBytes 1 r.neighbors.length = [UInt8.ofNat r.neighbors.length] := rfl
    have hlt : r.neighbors.length < 256 := by
      unfold MAX_LEVEL_COUNT at hle
      omega
    have hto : (UInt8.ofNat r.neighbors.length).toNat = r.neighbors.length := by
      rw [UInt8.toNat_ofNat']
      exact Nat.mod_eq_of_lt hlt
    have hvlen : (r.vector.flatMap fun x => leBytes 4 x.toNat).length = 4 * dim.toNat := by
      rw [List.length_flatMap, ← hdim]
      simp [Nat.mul_comm]
    refine ⟨[0], _, ⟨rfl, ?_⟩, 0, rfl, by simp, [0], _, ⟨rfl, rfl⟩, 0, rfl, by simp,
      r.vector.flatMap fun x => leBytes 4 x.toNat, _, ⟨hvlen, rfl⟩, r.vector,
      (decode_vector_words hvlen).mpr ⟨hdim, rfl, hfin⟩, [UInt8.ofNat r.neighbors.length], _,
      ⟨rfl, rfl⟩, _, rfl, ?_, ?_, r.neighbors, rest, ⟨hto.symm, hwidth, rfl⟩, rfl, ?_⟩
    · rw [record_bytes, hk]
      simp only [append_assoc]
    · intro h0
      rw [h0] at hto
      exact hpos (length_eq_zero_iff.mp hto.symm)
    · rw [hto]
      exact not_lt.mpr hle
    · rw [length_append]
      omega

/-! ## The body -/

/-- The bytes of a graph. -/
def body_bytes (h : SnapshotHeader) (nodes : List NodeRecord) : List UInt8 :=
  h.encode ++ nodes.flatMap record_bytes

theorem SnapshotHeader.cap_lt (h : SnapshotHeader) (level : ℕ) : h.cap level < 256 ^ 2 := by
  unfold SnapshotHeader.cap
  split_ifs
  · exact h.m_max0.toNat_lt
  · exact h.m.toNat_lt

theorem AdjacencyOk.inWidth (hadj : AdjacencyOk h levels i neighbors) :
    InWidth neighbors := by
  intro list hlist
  obtain ⟨level, hlevel⟩ := List.mem_iff_getElem?.mp hlist
  have hok := hadj level list hlevel
  refine ⟨hok.degree.trans_lt (h.cap_lt level), fun n hn => ?_⟩
  exact (hok.target n hn).1.trans h.node_count.toNat_lt

namespace BodyEncoder

/-- A record the streaming encoder takes as its `i`-th. -/
structure Takes (h : SnapshotHeader) (levels : List ℕ) (i : ℕ) (r : NodeRecord) : Prop where
  room : i ≠ h.node_count.toNat
  summary : ∃ top, levels[i]? = some top ∧ r.neighbors.length = top + 1
  record : RecordOk h r
  adjacency : AdjacencyOk h levels i r.neighbors

variable {r : NodeRecord}

theorem push_record_eq_ok {enc enc' : BodyEncoder} :
    enc.push_record r.vector r.neighbors = .ok enc' ↔
      Takes enc.header enc.levels enc.written r ∧
        enc' = { enc.write_hashed (record_bytes r) with written := enc.written + 1 } := by
  unfold push_record
  simp only [bind_eq_ok, failIf_eq_ok, exists_const, index_eq_ok, pure_eq_ok,
    validate_record_basics_eq_ok, validate_adjacency_eq_ok, encode_node_record_eq_ok,
    List.nil_append]
  constructor
  · rintro ⟨hroom, top, htop, hlen, hrec, hadj, _, ⟨-, -, rfl⟩, rfl⟩
    exact ⟨⟨hroom, ⟨top, htop, not_not.mp hlen⟩, hrec, hadj⟩, rfl⟩
  · rintro ⟨⟨hroom, ⟨top, htop, hlen⟩, hrec, hadj⟩, rfl⟩
    refine ⟨hroom, top, htop, not_not.mpr hlen, hrec, hadj, _, ⟨?_, ?_, rfl⟩, rfl⟩
    · exact ⟨hrec.dim, hrec.level_pos, hrec.level_le, hrec.finite⟩
    · exact fun list hlist => (hadj.inWidth list hlist).1

variable {nodes : List NodeRecord}

/-- The encoder after the records. -/
theorem push_records_eq_ok {enc enc' : BodyEncoder} :
    enc.push_records nodes = .ok enc' ↔
      (∀ i r, nodes[i]? = some r → Takes enc.header enc.levels (enc.written + i) r) ∧
        enc' = { enc.write_hashed (nodes.flatMap record_bytes) with
          written := enc.written + nodes.length } := by
  induction nodes generalizing enc with
  | nil =>
    rw [push_records, List.foldlM_nil, pure_eq_ok]
    simp [write_hashed, eq_comm]
  | cons r nodes ih =>
    rw [push_records, List.foldlM_cons, bind_eq_ok]
    simp only [← push_records.eq_def, push_record_eq_ok]
    have hstate : ∀ e : BodyEncoder, e = { enc.write_hashed (record_bytes r) with
        written := enc.written + 1 } → { e.write_hashed (nodes.flatMap record_bytes) with
          written := e.written + nodes.length } =
        { enc.write_hashed ((r :: nodes).flatMap record_bytes) with
          written := enc.written + (r :: nodes).length } := by
      rintro e rfl
      simp [write_hashed, List.foldl_append, Nat.add_assoc, Nat.add_comm 1]
    constructor
    · rintro ⟨e, ⟨htake, he⟩, hrest⟩
      obtain ⟨hall, rfl⟩ := ih.mp hrest
      refine ⟨?_, hstate e he⟩
      intro i s hs
      match i with
      | 0 => exact Option.some.inj hs ▸ htake
      | i + 1 =>
        have h := hall i s hs
        rw [he, Nat.add_assoc, Nat.add_comm 1] at h
        exact h
    · rintro ⟨hall, rfl⟩
      refine ⟨_, ⟨hall 0 r rfl, rfl⟩, ih.mpr ⟨?_, (hstate _ rfl).symm⟩⟩
      intro i s hs
      have h := hall (i + 1) s hs
      rw [Nat.add_comm i, ← Nat.add_assoc] at h
      exact h

/-- The calls of a writer: the header, the records, the end. -/
def feed (header : SnapshotHeader) (nodes : List NodeRecord) (inner : List UInt8) :
    Result (BitVec 32 × List UInt8) := do
  let enc ← BodyEncoder.new header (top_levels nodes) inner
  let enc ← enc.push_records nodes
  enc.finish

theorem top_levels_getElem? {i : ℕ} (h : nodes[i]? = some r) :
    (top_levels nodes)[i]? = some ((r.neighbors.length - 1) % 256) := by
  rw [top_levels, List.getElem?_map, h, Option.map_some]

variable {h : SnapshotHeader}

theorem RecordOk.summary (hr : RecordOk h r) :
    (r.neighbors.length - 1) % 256 + 1 = r.neighbors.length := by
  have hpos := List.length_pos_iff.mpr hr.level_pos
  have hle := hr.level_le
  unfold MAX_LEVEL_COUNT at hle
  omega

/-- The summary and the records checked one by one are what the decoder checks at once. -/
theorem takes_iff_valid :
    (ConstructionOk h ∧ h.node_count.toNat = nodes.length ∧ EntryOk h (top_levels nodes) ∧
      ∀ i r, nodes[i]? = some r → Takes h (top_levels nodes) i r) ↔ ValidGraph h nodes := by
  constructor
  · rintro ⟨hc, hcount, hentry, hall⟩
    refine ⟨hc, hcount, fun r hr => ?_, hentry, fun i r hi => (hall i r hi).adjacency⟩
    obtain ⟨i, hi⟩ := List.mem_iff_getElem?.mp hr
    exact (hall i r hi).record
  · rintro ⟨hc, hcount, hrec, hentry, hadj⟩
    refine ⟨hc, hcount, hentry, fun i r hi => ?_⟩
    have hr := hrec r (List.mem_of_getElem? hi)
    refine ⟨?_, ⟨_, top_levels_getElem? hi, (RecordOk.summary hr).symm⟩, hr, hadj i r hi⟩
    have hlt := (List.getElem?_eq_some_iff.mp hi).1
    omega

/-- **The streaming encoder.** It takes exactly the valid graphs, appends their bytes, and its
CRC is the CRC of what it appended. -/
theorem feed_eq_ok {inner out : List UInt8} {crc : BitVec 32} :
    feed h nodes inner = .ok (crc, out) ↔
      ValidGraph h nodes ∧ crc = crc32 (body_bytes h nodes) ∧ out = inner ++ body_bytes h nodes := by
  unfold feed new finish
  simp only [bind_eq_ok, failIf_eq_ok, exists_const, pure_eq_ok, Prod.mk.injEq,
    validate_construction_params_eq_ok, validate_entry_and_max_level_eq_ok]
  rw [← takes_iff_valid]
  have hlen : (top_levels nodes).length = nodes.length := length_map _
  have hcrc : ∀ a b : List UInt8, (b.foldl crc32_byte (a.foldl crc32_byte 0xFFFFFFFF#32)) ^^^
      0xFFFFFFFF#32 = crc32 (a ++ b) := fun a b => by rw [crc32, List.foldl_append]
  constructor
  · rintro ⟨_, ⟨hc, hcount, hentry, rfl⟩, _, hpush, -, rfl, rfl⟩
    obtain ⟨hall, rfl⟩ := push_records_eq_ok.mp hpush
    refine ⟨⟨hc, by rw [← hlen]; exact not_not.mp hcount, hentry, fun i r hi => ?_⟩, ?_, ?_⟩
    · exact Nat.zero_add i ▸ hall i r hi
    · exact hcrc _ _
    · exact append_assoc _ _ _
  · rintro ⟨⟨hc, hcount, hentry, hall⟩, rfl, rfl⟩
    refine ⟨_, ⟨hc, not_not.mpr (hcount.trans hlen.symm), hentry, rfl⟩, _,
      push_records_eq_ok.mpr ⟨fun i r hi => ?_, rfl⟩, ?_, hcrc _ _, append_assoc _ _ _⟩
    · exact (Nat.zero_add i).symm ▸ hall i r hi
    · exact not_not.mpr ((Nat.zero_add nodes.length).trans hcount.symm)

end BodyEncoder

theorem encode_snapshot_body_eq_ok :
    encode_snapshot_body h nodes = .ok b ↔ ValidGraph h nodes ∧ b = body_bytes h nodes := by
  have hfeed : encode_snapshot_body h nodes =
      (BodyEncoder.feed h nodes [] >>= fun p => pure p.2) := by
    unfold encode_snapshot_body BodyEncoder.feed
    simp only [bind_assoc]
  rw [hfeed, bind_eq_ok]
  simp only [Prod.exists, BodyEncoder.feed_eq_ok, pure_eq_ok, List.nil_append]
  constructor
  · rintro ⟨_, _, ⟨hvalid, -, rfl⟩, rfl⟩
    exact ⟨hvalid, rfl⟩
  · rintro ⟨hvalid, rfl⟩
    exact ⟨_, _, ⟨hvalid, rfl, rfl⟩, rfl⟩

/-! ## Decoding the body -/

theorem in_record_eq_ok {α : Type} {x : Result α} {a : α} :
    in_record i x = .ok a ↔ x = .ok a := by
  unfold in_record
  split
  · simp [corrupted]
  · rfl

theorem drop_record :
    (record_bytes r ++ rest).drop (record_bytes r).length = rest := drop_left

theorem decode_records_eq_ok {rs : List NodeRecord} :
    decode_records dim i n cursor = .ok (rs, rest) ↔
      rs.length = n ∧ (∀ r ∈ rs, Decodable dim r) ∧ cursor = rs.flatMap record_bytes ++ rest := by
  induction n generalizing i cursor rs with
  | zero =>
    rw [decode_records, Except.ok.injEq, Prod.mk.injEq]
    constructor
    · rintro ⟨rfl, rfl⟩
      exact ⟨rfl, fun r hr => absurd hr (by simp), rfl⟩
    · rintro ⟨hlen, -, rfl⟩
      rw [length_eq_zero_iff.mp hlen]
      exact ⟨rfl, rfl⟩
  | succ n ih =>
    rw [decode_records]
    simp only [bind_eq_ok, Prod.exists, in_record_eq_ok, decode_node_record_eq_ok,
      slice_from_eq_ok, pure_eq_ok, Prod.mk.injEq]
    constructor
    · rintro ⟨r, _, ⟨hr, rfl, tail, rfl⟩, _, ⟨-, rfl⟩, rs, _, hrest, rfl, rfl⟩
      rw [drop_record] at hrest
      obtain ⟨hlen, hall, rfl⟩ := ih.mp hrest
      refine ⟨by rw [length_cons, hlen], forall_mem_cons.mpr ⟨hr, hall⟩, ?_⟩
      rw [flatMap_cons, append_assoc]
    · rintro ⟨hlen, hall, rfl⟩
      obtain ⟨r, rs, rfl⟩ := List.exists_cons_of_length_eq_add_one hlen
      obtain ⟨hr, hall⟩ := forall_mem_cons.mp hall
      have hcons : (r :: rs).flatMap record_bytes ++ rest =
          record_bytes r ++ (rs.flatMap record_bytes ++ rest) := by
        rw [flatMap_cons, append_assoc]
      rw [hcons]
      refine ⟨r, _, ⟨hr, rfl, _, rfl⟩, _, ⟨?_, rfl⟩, rs, rest, ?_, rfl, rfl⟩
      · rw [length_append]
        exact Nat.le_add_right _ _
      · rw [drop_record]
        exact ih.mpr ⟨Nat.succ.inj hlen, hall, rfl⟩

theorem ValidGraph.decodable (hv : ValidGraph h nodes) :
    ∀ r ∈ nodes, Decodable h.dim r := by
  intro r hr
  obtain ⟨i, hi⟩ := List.mem_iff_getElem?.mp hr
  have hrec := hv.records r hr
  exact ⟨hrec.dim, hrec.finite, hrec.level_pos, hrec.level_le, (hv.adjacency i r hi).inWidth⟩

theorem Decodable.min_record_size_le (hr : Decodable dim r) :
    min_record_size dim ≤ (record_bytes r).length := by
  obtain ⟨list, lists, heq⟩ := List.exists_cons_of_ne_nil hr.level_pos
  have hvec : (r.vector.flatMap fun x => leBytes 4 x.toNat).length = 4 * dim.toNat := by
    rw [List.length_flatMap, ← hr.dim]
    simp [Nat.mul_comm]
  unfold record_bytes min_record_size
  simp only [length_append, length_leBytes, hvec, List.length_singleton, heq,
    flatMap_cons, list_bytes]
  omega

theorem mul_le_length_flatMap {α β : Type} {f : α → List β} {l : List α} {k : ℕ}
    (h : ∀ a ∈ l, k ≤ (f a).length) : l.length * k ≤ (l.flatMap f).length := by
  induction l with
  | nil => simp
  | cons a l ih =>
    obtain ⟨ha, hl⟩ := forall_mem_cons.mp h
    rw [length_cons, flatMap_cons, length_append, Nat.add_mul, Nat.one_mul,
      Nat.add_comm]
    exact Nat.add_le_add ha (ih hl)

theorem SnapshotHeader.drop_encode (h : SnapshotHeader) (rest : List UInt8) :
    (h.encode ++ rest).drop SNAPSHOT_HEADER_SIZE = rest := by
  have hleft : (h.encode ++ rest).drop h.encode.length = rest := drop_left
  rwa [h.length_encode] at hleft

/-- **The decoder.** It accepts exactly the bytes of valid graphs. -/
theorem decode_snapshot_body_eq_ok {body : List UInt8} {d : SnapshotFileData} :
    decode_snapshot_body body = .ok d ↔
      ValidGraph d.header d.nodes ∧ body = body_bytes d.header d.nodes := by
  unfold decode_snapshot_body
  simp only [bind_eq_ok, failIf_eq_ok, exists_const, Prod.exists, slice_from_eq_ok, pure_eq_ok,
    SnapshotHeader.decode_eq_ok]
  constructor
  · rintro ⟨h, ⟨hc, rest, rfl⟩, _, ⟨-, rfl⟩, -, nodes, tail, hrecords, hend, u, hvalid, rfl⟩
    obtain ⟨-, -, hrest⟩ := decode_records_eq_ok.mp hrecords
    refine ⟨(validate_graph_data_eq_ok hc).mp hvalid, ?_⟩
    rw [h.drop_encode, not_not.mp hend, append_nil] at hrest
    rw [body_bytes, hrest]
  · rintro ⟨hvalid, rfl⟩
    obtain ⟨h, nodes⟩ := d
    have hc : ConstructionOk h := hvalid.construction
    refine ⟨h, ⟨hc, _, rfl⟩, _, ⟨?_, h.drop_encode _⟩, ?_, nodes, [], ?_, not_not.mpr rfl,
      (), (validate_graph_data_eq_ok hc).mpr hvalid, rfl⟩
    · rw [body_bytes, length_append, h.length_encode]
      exact Nat.le_add_right _ _
    · -- every record has the least size
      have hsize := mul_le_length_flatMap fun r hr =>
        (hvalid.decodable r hr).min_record_size_le
      have hpos : 0 < min_record_size h.dim := by
        unfold min_record_size
        omega
      rw [gt_iff_lt, not_lt, hvalid.count, Nat.le_div_iff_mul_le hpos]
      exact hsize
    · refine decode_records_eq_ok.mpr ⟨hvalid.count.symm, hvalid.decodable, ?_⟩
      rw [append_nil]

/-! ## No panic -/

theorem NoPanic.le_at (h : off + w ≤ bytes.length) :
    NoPanic (HnswAm.le_at bytes off w) := .of_eq_ok (le_at_eq_ok.mpr ⟨h, rfl⟩)

theorem NoPanic.take (cursor : List UInt8) (n : ℕ) (what : String) :
    NoPanic (HnswAm.take cursor n what) := by
  unfold HnswAm.take
  split_ifs
  · exact .err _
  · exact .ok _

theorem length_of_take {what : String} {p : List UInt8 × List UInt8}
    (h : take cursor n what = .ok p) : p.1.length = n := (take_eq_ok.mp h).1

theorem validate_construction_params_noPanic (h : SnapshotHeader) :
    NoPanic h.validate_construction_params := by
  unfold SnapshotHeader.validate_construction_params
  exact .check <| .check <| .check <|
    .failIf _

theorem SnapshotHeader.decode_noPanic (bytes : List UInt8) : NoPanic (decode bytes) := by
  unfold decode
  refine .bind (.failIf _) fun _ hlen => ?_
  have hlen : 25 ≤ bytes.length := not_lt.mp (failIf_eq_ok.mp hlen)
  have hle : ∀ n, n ≤ 25 → n ≤ bytes.length := fun n hn => hn.trans hlen
  refine .bind (.le_at (hle _ (by norm_num))) fun _ _ => .check <|
    .bind (.le_at (hle _ (by norm_num))) fun _ _ => .check <|
    .bind (.le_at (hle _ (by norm_num))) fun _ _ => .bind (.le_at (hle _ (by norm_num))) fun _ _ =>
    .bind (.le_at (hle _ (by norm_num))) fun _ _ => .bind (.le_at (hle _ (by norm_num))) fun _ _ =>
    .bind (.le_at (hle _ (by norm_num))) fun _ _ => .bind (.le_at (hle _ (by norm_num))) fun _ _ =>
    .bind (.le_at (hle _ (by norm_num))) fun _ _ =>
    .bind (validate_construction_params_noPanic _) fun _ _ => .ok _

theorem decode_vector_noPanic (i : ℕ) (ws : List ℕ) : NoPanic (decode_vector i ws) := by
  induction ws generalizing i with
  | nil => exact .ok _
  | cons w ws ih =>
    rw [decode_vector]
    exact .check <| .bind (ih _) fun _ _ => .ok _

theorem decode_lists_noPanic (n : ℕ) (cursor : List UInt8) : NoPanic (decode_lists n cursor) := by
  induction n generalizing cursor with
  | zero => exact .ok _
  | succ n ih =>
    rw [decode_lists]
    exact .bind (.take _ _ _) fun _ _ => .bind (.take _ _ _) fun _ _ => .bind (ih _) fun _ _ => .ok _

theorem decode_node_record_noPanic (bytes : List UInt8) (dim : UInt16) :
    NoPanic (decode_node_record bytes dim) := by
  unfold decode_node_record
  refine .bind (.take _ _ _) fun _ h0 => .bind (.index (by rw [length_of_take h0]; norm_num))
    fun _ _ => .check ?_
  refine .bind (.take _ _ _) fun _ h1 => .bind (.index (by rw [length_of_take h1]; norm_num))
    fun _ _ => .check ?_
  refine .bind (.take _ _ _) fun _ _ => .bind (decode_vector_noPanic _ _) fun _ _ => ?_
  refine .bind (.take _ _ _) fun _ h2 => .bind (.index (by rw [length_of_take h2]; norm_num))
    fun _ _ => .check <| .check ?_
  exact .bind (decode_lists_noPanic _ _) fun _ _ => .ok _

theorem in_record_noPanic {α : Type} {x : Result α} (h : NoPanic x) :
    NoPanic (in_record i x) := by
  unfold in_record
  split
  · exact .err _
  · exact h

theorem decode_records_noPanic (dim : UInt16) (i n : ℕ) (cursor : List UInt8) :
    NoPanic (decode_records dim i n cursor) := by
  induction n generalizing i cursor with
  | zero => exact .ok _
  | succ n ih =>
    rw [decode_records]
    refine .bind (in_record_noPanic (decode_node_record_noPanic cursor dim)) fun p hp => ?_
    obtain ⟨-, hused, rest, hcursor⟩ := decode_node_record_eq_ok.mp (in_record_eq_ok.mp hp)
    refine .bind (.of_eq_ok (slice_from_eq_ok.mpr ⟨?_, rfl⟩)) fun _ _ =>
      .bind (ih _ _) fun _ _ => .ok _
    rw [hused, hcursor, length_append]
    exact Nat.le_add_right _ _

theorem validate_record_basics_noPanic (h : SnapshotHeader) (i : ℕ) (vector : List F32) (n : ℕ) :
    NoPanic (validate_record_basics h i vector n) := by
  unfold validate_record_basics
  exact .check <| .bind (.forM fun _ _ => .failIf _) fun _ _ =>
    .check (.failIf _)

theorem validate_entry_and_max_level_noPanic (hlen : h.node_count.toNat = levels.length) :
    NoPanic (validate_entry_and_max_level h levels) := by
  unfold validate_entry_and_max_level
  have hloop : ∀ e : ℕ × ℕ → HnswError, NoPanic (levels.zipIdx.forM fun p =>
      failIf (p.1 > h.max_level.toNat) (.err (e p))) := fun e => .forM fun _ _ => .failIf _
  split_ifs
  · exact .check <| .check <| hloop _
  · refine .bind (.failIf _) fun _ hep => .bind (.index ?_) fun _ _ => .check <| hloop _
    rw [← hlen]
    exact not_le.mp (failIf_eq_ok.mp hep)

theorem validate_adjacency_noPanic (hlen : h.node_count.toNat = levels.length) :
    NoPanic (validate_adjacency h levels i neighbors) := by
  unfold validate_adjacency
  refine .forM fun _ _ => .check <| .forM fun _ _ => ?_
  unfold validate_neighbor
  refine .check <| .check <| .bind (.failIf _) fun _ hn =>
    .bind (.index ?_) fun _ _ => ?_
  · rw [← hlen]
    exact not_le.mp (failIf_eq_ok.mp hn)
  · exact .failIf _

theorem validate_graph_data_noPanic (h : SnapshotHeader) (nodes : List NodeRecord) :
    NoPanic (validate_graph_data h nodes) := by
  unfold validate_graph_data
  refine .bind (.failIf _) fun _ hcount => .bind (.forM fun _ _ =>
    validate_record_basics_noPanic _ _ _ _) fun _ hrecs => ?_
  have hlen : h.node_count.toNat = (top_levels nodes).length := by
    rw [not_not.mp (failIf_eq_ok.mp hcount), top_levels, length_map]
  -- the records have levels, so that the subtraction does not underflow
  refine .bind (.of_eq_ok (a := ()) (forM_eq_ok.mpr fun r hr => failIf_eq_ok.mpr ?_)) fun _ _ =>
    .bind (validate_entry_and_max_level_noPanic hlen) fun _ _ =>
      .forM fun _ _ => validate_adjacency_noPanic hlen
  obtain ⟨i, hi⟩ := List.mem_iff_getElem?.mp hr
  have hrec := validate_record_basics_eq_ok.mp (forM_zipIdx_eq_ok.mp hrecs i r hi)
  exact fun h0 => hrec.level_pos (length_eq_zero_iff.mp h0)

theorem decode_snapshot_body_noPanic (body : List UInt8) : NoPanic (decode_snapshot_body body) := by
  unfold decode_snapshot_body
  refine .bind (SnapshotHeader.decode_noPanic body) fun h hh => ?_
  obtain ⟨-, rest, hrest⟩ := SnapshotHeader.decode_eq_ok.mp hh
  refine .bind (.of_eq_ok (slice_from_eq_ok.mpr ⟨?_, rfl⟩)) fun _ _ => .check <|
    .bind (decode_records_noPanic _ _ _ _) fun _ _ => .check <|
    .bind (validate_graph_data_noPanic _ _) fun _ _ => .ok _
  rw [hrest, length_append, h.length_encode]
  exact Nat.le_add_right _ _

/-- **The codec is exact.** What is encoded is decoded to the same header and records, and the
streaming encoder fed the same records appends the same bytes, with their CRC; decoding any
bytes does not panic, and what it accepts is encoded to the same bytes. -/
theorem snapshot_body_codec_exact :
    (∀ h nodes b, encode_snapshot_body h nodes = .ok b →
      decode_snapshot_body b = .ok ⟨h, nodes⟩ ∧
      ∀ inner, BodyEncoder.feed h nodes inner = .ok (crc32 b, inner ++ b)) ∧
    ∀ b, decode_snapshot_body b ≠ .error .panic ∧
      ∀ d, decode_snapshot_body b = .ok d → encode_snapshot_body d.header d.nodes = .ok b := by
  refine ⟨fun h nodes b henc => ?_, fun b => ⟨?_, fun d hd => ?_⟩⟩
  · obtain ⟨hvalid, rfl⟩ := encode_snapshot_body_eq_ok.mp henc
    refine ⟨decode_snapshot_body_eq_ok.mpr ⟨hvalid, rfl⟩, fun inner => ?_⟩
    exact BodyEncoder.feed_eq_ok.mpr ⟨hvalid, rfl, rfl⟩
  · exact (decode_snapshot_body_noPanic b).ne_panic
  · exact encode_snapshot_body_eq_ok.mpr (decode_snapshot_body_eq_ok.mp hd)

/-- One node with one component and no neighbours. -/
def one_node : SnapshotFileData where
  header := ⟨1, 2, 2, 2, 1, 0, 0⟩
  nodes := [⟨[0], [[]]⟩]

theorem snapshot_body_codec_exact_one_node :
    decode_snapshot_body (body_bytes one_node.header one_node.nodes) = .ok one_node ∧
      BodyEncoder.feed one_node.header one_node.nodes [] =
        .ok (crc32 (body_bytes one_node.header one_node.nodes),
          body_bytes one_node.header one_node.nodes) := by
  have henc : encode_snapshot_body one_node.header one_node.nodes =
      .ok (body_bytes one_node.header one_node.nodes) := by decide +kernel
  obtain ⟨hdec, hfeed⟩ := snapshot_body_codec_exact.1 _ _ _ henc
  exact ⟨hdec, hfeed []⟩

end Ams.HnswAm
