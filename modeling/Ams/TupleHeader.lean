/-
The 64-byte tuple header of `pg-am-heap/src/tuple.rs` as a record, its flag bits,
and the four in-place stamps the heap applies to it.

The stamps live here rather than with the access method because three layers
share them: the online paths, the redo handlers (which leave `t_cid` alone) and
the row-lock protocol. What each layer needs of them is collected at the end:
which of `t_xmax`, `HEAP_XMAX_LOCK_ONLY`, `HEAP_XMAX_IS_SHARE` and
`HEAP_HOT_UPDATED` a stamp sets, and that it leaves the rest alone.
-/
import Ams.Types

set_option autoImplicit false

namespace Ams

/-! ## Flag bits -/

/-- The source's test `mask & FLAG != 0`. -/
def hasFlag (mask flag : BitVec 16) : Bool := mask &&& flag != 0#16

theorem hasFlag_or (m f g : BitVec 16) :
    hasFlag (m ||| f) g = (hasFlag m g || hasFlag f g) := by
  unfold hasFlag
  have hdist : (m ||| f) &&& g = (m &&& g) ||| (f &&& g) := by
    ext i
    simp [Bool.and_or_distrib_right]
  rw [hdist, Bool.eq_iff_iff]
  simp only [bne_iff_ne, ne_eq, Bool.or_eq_true]
  rw [BitVec.or_eq_zero_iff, not_and_or]

theorem hasFlag_and (m k g : BitVec 16) : hasFlag (m &&& k) g = hasFlag m (k &&& g) := by
  unfold hasFlag
  rw [BitVec.and_assoc]

@[simp] theorem hasFlag_zero (m : BitVec 16) : hasFlag m 0#16 = false := by
  simp [hasFlag]

-- `t_infomask`
abbrev HEAP_HASNULL : BitVec 16 := 0x0001#16
abbrev HEAP_HASVARWIDTH : BitVec 16 := 0x0002#16
abbrev HEAP_HASEXTERNAL : BitVec 16 := 0x0004#16
abbrev HEAP_XMAX_LOCK_ONLY : BitVec 16 := 0x1000#16
abbrev HEAP_UPDATED : BitVec 16 := 0x2000#16
abbrev HEAP_XMAX_IS_SHARE : BitVec 16 := 0x4000#16

-- `t_infomask2`: the column count in bits 0..=10, flags above
abbrev HEAP_NATTS_MASK : BitVec 16 := 0x07FF#16
abbrev HEAP_HAS_NODEID : BitVec 16 := 0x0800#16
abbrev HEAP_HOT_UPDATED : BitVec 16 := 0x4000#16
abbrev HEAP_ONLY_TUPLE : BitVec 16 := 0x8000#16

-- `t_flags`: the low four bits hold the encoding version
abbrev TUPLE_VERSION_MASK : BitVec 16 := 0x000F#16
abbrev TUPLE_VERSION_M2 : BitVec 16 := 0#16

/-- Size of the fixed tuple header in bytes. -/
abbrev TUPLE_HEADER_SIZE : ℕ := 64

/-! ## The header -/

/-- The tuple header, field by field. -/
structure TupleHeader where
  /-- Inserting transaction. -/
  t_xmin : TxnId
  /-- Deleting or locking transaction, or `INVALID`. -/
  t_xmax : TxnId
  t_agent_id : ℕ
  t_trace_id : Vector UInt8 16
  /-- Next version of a HOT chain. -/
  t_ctid : Tid
  t_infomask : BitVec 16
  t_infomask2 : BitVec 16
  /-- Offset of the attribute data from the tuple start. -/
  t_hoff : ℕ
  t_flags : BitVec 16
  /-- Command id, of the insert or of the latest stamp. -/
  t_cid : ℕ
deriving DecidableEq, Repr

namespace TupleHeader

/-- A header with the caller's identity fields; the codec fills in the rest. -/
def new (t_xmin t_xmax : TxnId) (t_agent_id : ℕ) (t_trace_id : Vector UInt8 16) (t_ctid : Tid)
    (t_cid : ℕ) : TupleHeader where
  t_xmin := t_xmin
  t_xmax := t_xmax
  t_agent_id := t_agent_id
  t_trace_id := t_trace_id
  t_ctid := t_ctid
  t_infomask := 0#16
  t_infomask2 := 0#16
  t_hoff := 0
  t_flags := 0#16
  t_cid := t_cid

/-- Number of columns. -/
def natts (h : TupleHeader) : ℕ := (h.t_infomask2 &&& HEAP_NATTS_MASK).toNat

/-- `t_xmax` is a row lock, not a delete. -/
abbrev lock_only (h : TupleHeader) : Bool := hasFlag h.t_infomask HEAP_XMAX_LOCK_ONLY

/-- `t_xmax` is a shared row lock. -/
abbrev is_share (h : TupleHeader) : Bool := hasFlag h.t_infomask HEAP_XMAX_IS_SHARE

/-- The version has a HOT successor at `t_ctid`. -/
abbrev hot_updated (h : TupleHeader) : Bool := hasFlag h.t_infomask2 HEAP_HOT_UPDATED

/-- The version is reachable only through a HOT chain. -/
abbrev heap_only (h : TupleHeader) : Bool := hasFlag h.t_infomask2 HEAP_ONLY_TUPLE

/-- The `t_xmax` a visibility judgment sees: a lock is masked out. -/
def visibility_xmax (h : TupleHeader) : TxnId :=
  if h.lock_only then TxnId.INVALID else h.t_xmax

/-! ## The stamps -/

/-- `HeapAM::stamp_xmin`: the writer's own XID. -/
def stamp_xmin (h : TupleHeader) (xid : TxnId) : TupleHeader := { h with t_xmin := xid }

/-- `HeapAM::stamp_hot_only`: the writer's XID and the chain-member bit. -/
def stamp_hot_only (h : TupleHeader) (xid : TxnId) : TupleHeader :=
  { h with t_xmin := xid, t_infomask2 := h.t_infomask2 ||| HEAP_ONLY_TUPLE }

/-- `HeapAM::stamp_deleted`. A real stamp supersedes any lock on the row. -/
def stamp_deleted (h : TupleHeader) (xmax : TxnId) (curcid : ℕ) (updated : Bool) : TupleHeader :=
  { h with
    t_xmax := xmax
    t_cid := curcid
    t_infomask :=
      (if updated then h.t_infomask ||| HEAP_UPDATED else h.t_infomask)
        &&& ~~~(HEAP_XMAX_LOCK_ONLY ||| HEAP_XMAX_IS_SHARE) }

/-- `HeapAM::stamp_hot_update`: the stamp of an update, plus the chain link. -/
def stamp_hot_update (h : TupleHeader) (xmax : TxnId) (curcid : ℕ) (new_tid : Tid) : TupleHeader :=
  { h with
    t_xmax := xmax
    t_cid := curcid
    t_infomask :=
      (h.t_infomask ||| HEAP_UPDATED) &&& ~~~(HEAP_XMAX_LOCK_ONLY ||| HEAP_XMAX_IS_SHARE)
    t_ctid := new_tid
    t_infomask2 := h.t_infomask2 ||| HEAP_HOT_UPDATED }

/-- `HeapAM::stamp_lock_only`. An exclusive stamp supersedes a shared one. -/
def stamp_lock_only (h : TupleHeader) (locker : TxnId) (curcid : ℕ) (shared : Bool) : TupleHeader :=
  { h with
    t_xmax := locker
    t_cid := curcid
    t_infomask :=
      if shared then h.t_infomask ||| HEAP_XMAX_LOCK_ONLY ||| HEAP_XMAX_IS_SHARE
      else (h.t_infomask ||| HEAP_XMAX_LOCK_ONLY) &&& ~~~HEAP_XMAX_IS_SHARE }

section Stamps

variable (h : TupleHeader) (x : TxnId) (c : ℕ) (b : Bool) (tid : Tid)

@[simp] theorem stamp_deleted_lock_only : (h.stamp_deleted x c b).lock_only = false := by
  simp only [lock_only, stamp_deleted, hasFlag_and]
  exact hasFlag_zero _

@[simp] theorem stamp_deleted_is_share : (h.stamp_deleted x c b).is_share = false := by
  simp only [is_share, stamp_deleted, hasFlag_and]
  exact hasFlag_zero _

@[simp] theorem stamp_hot_update_lock_only :
    (h.stamp_hot_update x c tid).lock_only = false := by
  simp only [lock_only, stamp_hot_update, hasFlag_and]
  exact hasFlag_zero _

@[simp] theorem stamp_hot_update_is_share : (h.stamp_hot_update x c tid).is_share = false := by
  simp only [is_share, stamp_hot_update, hasFlag_and]
  exact hasFlag_zero _

@[simp] theorem stamp_hot_update_hot_updated :
    (h.stamp_hot_update x c tid).hot_updated = true := by
  simp only [hot_updated, stamp_hot_update, hasFlag_or]
  rw [show hasFlag HEAP_HOT_UPDATED HEAP_HOT_UPDATED = true from by decide, Bool.or_true]

@[simp] theorem stamp_hot_update_heap_only :
    (h.stamp_hot_update x c tid).heap_only = h.heap_only := by
  simp only [heap_only, stamp_hot_update, hasFlag_or]
  rw [show hasFlag HEAP_HOT_UPDATED HEAP_ONLY_TUPLE = false from by decide, Bool.or_false]

@[simp] theorem stamp_hot_only_heap_only : (h.stamp_hot_only x).heap_only = true := by
  simp only [heap_only, stamp_hot_only, hasFlag_or]
  rw [show hasFlag HEAP_ONLY_TUPLE HEAP_ONLY_TUPLE = true from by decide, Bool.or_true]

@[simp] theorem stamp_hot_only_hot_updated :
    (h.stamp_hot_only x).hot_updated = h.hot_updated := by
  simp only [hot_updated, stamp_hot_only, hasFlag_or]
  rw [show hasFlag HEAP_ONLY_TUPLE HEAP_HOT_UPDATED = false from by decide, Bool.or_false]

@[simp] theorem stamp_lock_only_lock_only : (h.stamp_lock_only x c b).lock_only = true := by
  cases b
  · simp only [lock_only, stamp_lock_only, Bool.false_eq_true, if_false, hasFlag_and, hasFlag_or]
    rw [show hasFlag HEAP_XMAX_LOCK_ONLY (~~~HEAP_XMAX_IS_SHARE &&& HEAP_XMAX_LOCK_ONLY) = true
      from by decide, Bool.or_true]
  · simp only [lock_only, stamp_lock_only, if_true, hasFlag_or]
    rw [show hasFlag HEAP_XMAX_LOCK_ONLY HEAP_XMAX_LOCK_ONLY = true from by decide, Bool.or_true,
      Bool.true_or]

@[simp] theorem stamp_lock_only_is_share : (h.stamp_lock_only x c b).is_share = b := by
  cases b
  · simp only [is_share, stamp_lock_only, Bool.false_eq_true, if_false, hasFlag_and]
    exact hasFlag_zero _
  · simp only [is_share, stamp_lock_only, if_true, hasFlag_or]
    rw [show hasFlag HEAP_XMAX_IS_SHARE HEAP_XMAX_IS_SHARE = true from by decide, Bool.or_true]

end Stamps

end TupleHeader

end Ams
