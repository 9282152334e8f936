/-
The transaction manager, `pg-txn/src/manager.rs`: XID allocation, the active set,
the snapshot registry and the vacuum horizon.

The source keeps the active set and the registry under one mutex and splits the
end of a transaction in two: `end_txn` writes the CLOG first and removes the XID
from the active set afterwards, with no lock held in between. Every other
operation is one critical section. The steps below are exactly those pieces, so
a schedule of this system is an interleaving the mutex allows.

The write-ahead log is not modelled here. `commit_txn` and `abort_txn` reach
`end_txn` only after the record is durable and leave the manager untouched when
it is not, so a failed call is a run without the two steps.
-/
import Ams.Types
import Ams.Lib.Run
import Ams.Lib.OrdMap
import Mathlib.Data.List.Sort

set_option autoImplicit false

namespace Ams

open Ams.Lib

/-- An MVCC snapshot: which transactions' effects a scan may see. -/
structure Snapshot where
  /-- Smallest XID still running (or `xmax`). -/
  xmin : TxnId
  /-- First XID not yet assigned. -/
  xmax : TxnId
  /-- The active set when the snapshot was taken, ascending. -/
  xip : List TxnId
  /-- The transaction that took the snapshot. -/
  current_xid : TxnId
  /-- Command counter of that transaction. -/
  curcid : ℕ
deriving DecidableEq, Repr

/-- `TxnManager` with its shared state: `active` is the hash set of running XIDs,
`snapshot_xmins` the registry from `xmin` to the number of live snapshots there. -/
structure TxnManager where
  txn_id_clock : TxnId
  clog : Clog
  active : List TxnId
  snapshot_xmins : OrdMap TxnId ℕ
  live_snapshots : ℕ

namespace TxnManager

/-- A manager over a clock and a commit log, with nothing running. -/
def new (txn_id_clock : TxnId) (clog : Clog) : TxnManager where
  txn_id_clock := txn_id_clock
  clog := clog
  active := []
  snapshot_xmins := OrdMap.empty
  live_snapshots := 0

/-- Allocate the clock's XID and mark it active, in one critical section. -/
def begin_txn (m : TxnManager) : TxnId × TxnManager :=
  (m.txn_id_clock,
    { m with
      txn_id_clock := m.txn_id_clock + 1
      active := m.active.insert m.txn_id_clock })

/-- Take a snapshot for `current_xid` and register its `xmin` in the same
critical section. -/
def snapshot (m : TxnManager) (current_xid : TxnId) : Snapshot × TxnManager :=
  let xmax := m.txn_id_clock
  let xip := m.active.insertionSort (· ≤ ·)
  let xmin := xip.head?.getD xmax
  ({ xmin, xmax, xip, current_xid, curcid := 0 },
    { m with
      snapshot_xmins := m.snapshot_xmins.insert xmin ((m.snapshot_xmins.get? xmin).getD 0 + 1)
      live_snapshots := m.live_snapshots + 1 })

/-- `SnapshotGuard::drop` for the guard of a snapshot registered at `xmin`. -/
def drop_guard (m : TxnManager) (xmin : TxnId) : TxnManager :=
  { m with
    snapshot_xmins :=
      match m.snapshot_xmins.get? xmin with
      | some count =>
        if count - 1 = 0 then m.snapshot_xmins.erase xmin
        else m.snapshot_xmins.insert xmin (count - 1)
      | none => m.snapshot_xmins
    live_snapshots := m.live_snapshots - 1 }

/-- First half of `end_txn`: the CLOG write. -/
def set_state (m : TxnManager) (xid : TxnId) (state : TxnState) : TxnManager :=
  { m with clog := m.clog.set_state xid state }

/-- Second half of `end_txn`: the active-set removal. -/
def remove_active (m : TxnManager) (xid : TxnId) : TxnManager :=
  { m with active := m.active.filter (· ≠ xid) }

/-- Is `xid` a live, in-flight transaction? -/
def is_active (m : TxnManager) (xid : TxnId) : Bool := xid ∈ m.active

/-- The vacuum horizon: the registry's smallest key, else the smallest active
XID, else the clock. -/
def oldest_snapshot_xmin (m : TxnManager) : TxnId :=
  match m.snapshot_xmins.keys.head? with
  | some xmin => xmin
  | none => m.active.min?.getD m.txn_id_clock

end TxnManager

/-! ## The system

`live` holds the snapshots whose guard has not been dropped and `taken` every
snapshot returned so far; both are bookkeeping about the callers, the manager
itself never reads them. -/

/-- The manager together with the snapshots it handed out. -/
structure TxnSys where
  mgr : TxnManager
  live : List Snapshot
  taken : List Snapshot

/-- The steps of the system. Commit and abort are each two of them. -/
inductive TxnOp where
  | begin_txn
  | snapshot (current_xid : TxnId)
  | drop_guard (i : ℕ)
  | commit_set_state (xid : TxnId)
  | abort_set_state (xid : TxnId)
  | remove_active (xid : TxnId)
deriving DecidableEq, Repr

namespace TxnSys

/-- A freshly created manager, before any call. -/
def new (txn_id_clock : TxnId) (clog : Clog) : TxnSys := ⟨.new txn_id_clock clog, [], []⟩

/-- `xid` has begun and its outcome is not recorded yet. The manager itself does
not check this: "callers pair one `begin_txn` with exactly one
`commit_txn`/`abort_txn`". -/
def Unfinished (m : TxnManager) (xid : TxnId) : Prop :=
  xid ≠ TxnId.INVALID ∧ xid < m.txn_id_clock ∧ ¬ (m.clog xid).Terminal

instance (m : TxnManager) (xid : TxnId) : Decidable (Unfinished m xid) :=
  inferInstanceAs (Decidable (_ ∧ _ ∧ ¬ _))

/-- One step. A guard is dropped once, by its position among the live ones; the
active-set removal follows the CLOG write of the same transaction. -/
def step (s : TxnSys) : TxnOp → Option TxnSys
  | .begin_txn => some { s with mgr := s.mgr.begin_txn.2 }
  | .snapshot current_xid =>
    let (snap, mgr) := s.mgr.snapshot current_xid
    some { mgr, live := s.live ++ [snap], taken := s.taken ++ [snap] }
  | .drop_guard i =>
    match s.live[i]? with
    | some snap => some { s with mgr := s.mgr.drop_guard snap.xmin, live := s.live.eraseIdx i }
    | none => none
  | .commit_set_state xid =>
    if Unfinished s.mgr xid then some { s with mgr := s.mgr.set_state xid .Committed } else none
  | .abort_set_state xid =>
    if Unfinished s.mgr xid then some { s with mgr := s.mgr.set_state xid .Aborted } else none
  | .remove_active xid =>
    if (s.mgr.clog xid).Terminal then some { s with mgr := s.mgr.remove_active xid } else none

/-- Everything a step can do, guards included. Every invariant below is a case
analysis of this. -/
theorem step_cases {s t : TxnSys} {op : TxnOp} (h : step s op = some t) :
    (op = .begin_txn ∧ t = { s with mgr := s.mgr.begin_txn.2 }) ∨
    (∃ x, op = .snapshot x ∧ t = ⟨(s.mgr.snapshot x).2, s.live ++ [(s.mgr.snapshot x).1],
      s.taken ++ [(s.mgr.snapshot x).1]⟩) ∨
    (∃ i snap, op = .drop_guard i ∧ s.live[i]? = some snap ∧
      t = { s with mgr := s.mgr.drop_guard snap.xmin, live := s.live.eraseIdx i }) ∨
    (∃ x st, (op = .commit_set_state x ∧ st = .Committed ∨ op = .abort_set_state x ∧ st = .Aborted)
      ∧ Unfinished s.mgr x ∧ t = { s with mgr := s.mgr.set_state x st }) ∨
    (∃ x, op = .remove_active x ∧ (s.mgr.clog x).Terminal ∧
      t = { s with mgr := s.mgr.remove_active x }) := by
  cases op with
  | begin_txn =>
    simp only [step, Option.some.injEq] at h
    exact .inl ⟨rfl, h.symm⟩
  | snapshot x =>
    simp only [step, Option.some.injEq] at h
    exact .inr (.inl ⟨x, rfl, h.symm⟩)
  | drop_guard i =>
    simp only [step] at h
    split at h
    · rename_i snap hsnap
      exact .inr (.inr (.inl ⟨i, snap, rfl, hsnap, (Option.some.inj h).symm⟩))
    · cases h
  | commit_set_state x =>
    simp only [step] at h
    split_ifs at h with hx
    exact .inr (.inr (.inr (Or.inl
      ⟨x, .Committed, .inl ⟨rfl, rfl⟩, hx, (Option.some.inj h).symm⟩)))
  | abort_set_state x =>
    simp only [step] at h
    split_ifs at h with hx
    exact .inr (.inr (.inr (Or.inl
      ⟨x, .Aborted, .inr ⟨rfl, rfl⟩, hx, (Option.some.inj h).symm⟩)))
  | remove_active x =>
    simp only [step] at h
    split_ifs at h with hx
    exact .inr (.inr (.inr (.inr ⟨x, rfl, hx, (Option.some.inj h).symm⟩)))

/-- A recorded outcome is never rewritten. -/
theorem step_terminal {s t : TxnSys} {op : TxnOp} (h : step s op = some t) {x : TxnId}
    (hx : (s.mgr.clog x).Terminal) : t.mgr.clog x = s.mgr.clog x := by
  obtain ⟨-, rfl⟩ | ⟨y, -, rfl⟩ | ⟨i, snap, -, -, rfl⟩ | ⟨y, st, -, hy, rfl⟩ | ⟨y, -, -, rfl⟩ :=
    step_cases h
  · rfl
  · rfl
  · rfl
  · have hne : x ≠ y := by
      rintro rfl
      exact hy.2.2 hx
    exact Clog.set_state_of_ne _ _ hne
  · rfl

/-- Outcomes persist along a run. -/
theorem run_terminal {s t : TxnSys} {ops : List TxnOp} (h : run step s ops = some t) {x : TxnId}
    (hx : (s.mgr.clog x).Terminal) : t.mgr.clog x = s.mgr.clog x := by
  refine run_relates (fun _ => True)
    (fun s t : TxnSys => (s.mgr.clog x).Terminal → t.mgr.clog x = s.mgr.clog x)
    (fun _ _ => rfl) (fun s t u hst htu hx => ?_) (fun _ _ _ _ _ => trivial)
    (fun s l t _ hstep => step_terminal hstep) trivial h hx
  have h1 := hst hx
  rw [htu (h1 ▸ hx), h1]

/-- No step records an outcome for the reserved XID. -/
theorem run_clog_invalid {s t : TxnSys} {ops : List TxnOp} (h : run step s ops = some t) :
    t.mgr.clog TxnId.INVALID = s.mgr.clog TxnId.INVALID := by
  refine run_relates (fun _ => True)
    (fun s t : TxnSys => t.mgr.clog TxnId.INVALID = s.mgr.clog TxnId.INVALID)
    (fun _ => rfl) (fun s t u hst htu => htu.trans hst) (fun _ _ _ _ _ => trivial)
    (fun s l t _ hstep => ?_) trivial h
  obtain ⟨-, rfl⟩ | ⟨y, -, rfl⟩ | ⟨i, snap, -, -, rfl⟩ | ⟨y, st, -, hy, rfl⟩ | ⟨y, -, -, rfl⟩ :=
    step_cases hstep
  · rfl
  · rfl
  · rfl
  · exact Clog.set_state_of_ne _ _ (Ne.symm hy.1)
  · rfl

end TxnSys

end Ams
