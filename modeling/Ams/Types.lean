/-
The identifiers every layer shares: `pg-storage/src/types.rs`, the commit-log
states of `pg-storage/src/clog.rs`, and the heap's error type.

The newtypes around `u64` are plain naturals here. Nothing below depends on the
counters wrapping: 64-bit XIDs and LSNs are the source's own answer to
wraparound, so a run long enough to exhaust them is outside every statement.
Where a value is written into bytes the width reappears, in `Ams.Lib.Bytes`.
-/
import Mathlib.Tactic

set_option autoImplicit false

namespace Ams

/-- A transaction identifier. `0` is reserved. -/
abbrev TxnId := ℕ

/-- `TxnId::INVALID`. -/
abbrev TxnId.INVALID : TxnId := 0

/-- `TxnId::FIRST`. -/
abbrev TxnId.FIRST : TxnId := 1

/-- A physical page identifier. `0` is reserved and never allocated. -/
abbrev PageId := ℕ

/-- `PageId::INVALID`. -/
abbrev PageId.INVALID : PageId := 0

/-- A log sequence number; `0` means "no record". -/
abbrev Lsn := ℕ

/-- A relation identifier. -/
abbrev Oid := ℕ

/-- A tuple address: page and line-pointer slot. -/
structure Tid where
  page_id : PageId
  slot_id : ℕ
deriving DecidableEq, Repr

/-- Transaction commit status, the 4-bit CLOG state. `SubCommitted` is reserved
and never written by the transaction manager. -/
inductive TxnState where
  | InProgress
  | Committed
  | Aborted
  | SubCommitted
deriving DecidableEq, Repr

/-- A transaction whose outcome is recorded. -/
def TxnState.Terminal : TxnState → Prop
  | .Committed => True
  | .Aborted => True
  | .InProgress => False
  | .SubCommitted => False

instance : DecidablePred TxnState.Terminal
  | .Committed => isTrue trivial
  | .Aborted => isTrue trivial
  | .InProgress => isFalse id
  | .SubCommitted => isFalse id

/-- What `ClogAccessor::get_state` answers: a total function, because a missing
entry reads as `InProgress`. -/
abbrev Clog := TxnId → TxnState

/-- `ClogAccessor::set_state`. -/
def Clog.set_state (clog : Clog) (xid : TxnId) (state : TxnState) : Clog :=
  Function.update clog xid state

@[simp] theorem Clog.set_state_self (clog : Clog) (xid : TxnId) (state : TxnState) :
    clog.set_state xid state xid = state := Function.update_self ..

theorem Clog.set_state_of_ne (clog : Clog) {xid x : TxnId} (state : TxnState) (h : x ≠ xid) :
    clog.set_state xid state x = clog x := Function.update_of_ne h ..

/-- The errors of the heap access method. -/
inductive HeapError where
  | PageFull (needed available : ℕ)
  | InvalidSlot (slot : ℕ)
  | TupleTooLarge (len : ℕ)
  | Corrupted (msg : String)
  | InvalidArgument (msg : String)
  | TupleNotFound (tid : Tid)
  | TupleConcurrentlyUpdated (tid : Tid)
  | DeadlockVictim
  | Storage (msg : String)
deriving DecidableEq, Repr

end Ams
