/-
Transaction outcomes and transaction identifiers across crashes: `commit_txn`,
`abort_txn`, the checkpoint and `recover_inner`, as far as they touch the commit log, the
active-transaction table and the XID clock.

What recovery knows of a transaction comes from four places, each with a cut of its own:
the commit log as the disk has it, the table of active transactions a checkpoint wrote, the
log from the superblock's checkpoint on, and the superblock. The commit barrier ties them:
while a checkpoint runs, no transaction is between its commit record and its commit-log bit.

# The argument

Two kinds of facts are kept apart. `Inv` holds in every run. It has what recovery needs for
commits (a commit record before the superblock's checkpoint is in the synced commit log) and
for identifiers (everything recovery can see of a transaction is below the superblock's
`next_txn_id` or is a record in the tail it replays). `Settled` is the same for
transactions that did not commit, and holds as long as every recovery reads the table its
superblock's checkpoint wrote. It does not read it when the log ends with the
`CheckpointEnd` of a later checkpoint, whose superblock write the crash came before.

An LSN is the position of a record in the log, counted from 1.
-/
import Ams.Types
import Ams.Lib.Run

set_option autoImplicit false

namespace Ams.TxnRecovery

open Lib
open List (mem_append mem_filter mem_of_mem_take mem_singleton take_take)
open Function (update update_self update_of_ne)

/-! ## Records and files -/

/-- A record of the log. `Stamped` is any record that carries an XID, other than the two
that end a transaction; `Unstamped` any that carries none. -/
inductive TxnRecord where
  | Stamped (txn_id : TxnId)
  | TxnCommit (xid : TxnId)
  | TxnAbort (xid : TxnId)
  | CheckpointBegin
  | CheckpointEnd (checkpoint_lsn : Lsn)
  | Unstamped
deriving DecidableEq

def TxnRecord.txn_id : TxnRecord → TxnId
  | .Stamped x => x
  | .TxnCommit x => x
  | .TxnAbort x => x
  | _ => TxnId.INVALID

/-- The record that ends a transaction. -/
def end_record : Bool → TxnId → TxnRecord
  | true, x => .TxnCommit x
  | false, x => .TxnAbort x

def end_state : Bool → TxnState
  | true => .Committed
  | false => .Aborted

/-- The superblock's fields recovery starts from; LSN 0 is no checkpoint. -/
structure TxnSuperblock where
  checkpoint_lsn : Lsn
  next_txn_id : TxnId
deriving DecidableEq

/-! ## Recovery -/

/-- The records from an LSN on; with no checkpoint, all of them. -/
def tail_from (log : List TxnRecord) (lsn : Lsn) : List TxnRecord := log.drop (lsn - 1)

/-- `find_latest_checkpoint_end`: the checkpoint the last `CheckpointEnd` is of. -/
def find_latest_checkpoint_end (tail : List TxnRecord) : Option Lsn :=
  tail.foldl (fun latest r => match r with
    | .CheckpointEnd lsn => some lsn
    | _ => latest) none

/-- The table analysis starts from: the file of the superblock's checkpoint if the last
`CheckpointEnd` is its own, and otherwise none. -/
def att_baseline (sb : TxnSuperblock) (att_file : Lsn → List TxnId) (tail : List TxnRecord) :
    List TxnId :=
  match find_latest_checkpoint_end tail with
  | some lsn => if lsn = sb.checkpoint_lsn then att_file lsn else []
  | none => []

/-- One record of the analysis scan. The table is a set, here a list read by membership. -/
def scan_record (att : List TxnId) : TxnRecord → List TxnId
  | .TxnCommit x => att.filter (· ≠ x)
  | .TxnAbort x => att.filter (· ≠ x)
  | r => if r.txn_id ≠ TxnId.INVALID then r.txn_id :: att else att

/-- The handlers of `redo.rs`. -/
def redo_record (clog : TxnId → TxnState) : TxnRecord → TxnId → TxnState
  | .TxnCommit x => update clog x .Committed
  | .TxnAbort x => update clog x .Aborted
  | _ => clog

/-- The largest XID `replay_wal` sees. -/
def replayed_max_txn_id (tail : List TxnRecord) : TxnId :=
  tail.foldl (fun top r => if top < r.txn_id then r.txn_id else top) TxnId.INVALID

/-- Where `recover_inner` starts the XID clock. -/
def recovered_next_txn_id (sb : TxnSuperblock) (tail : List TxnRecord) : TxnId :=
  if replayed_max_txn_id tail ≠ TxnId.INVALID then
    max sb.next_txn_id (replayed_max_txn_id tail + 1)
  else sb.next_txn_id

/-- The transactions undo takes to be in flight: those analysis found and redo has not
given an outcome. -/
def recovered_att (sb : TxnSuperblock) (att_file : Lsn → List TxnId) (tail : List TxnRecord)
    (clog : TxnId → TxnState) : List TxnId :=
  (tail.foldl scan_record (att_baseline sb att_file tail)).filter fun x =>
    clog x ≠ .Committed ∧ clog x ≠ .Aborted

/-- The commit log after redo and `HeapUndoHandler`. -/
def recovered_clog (sb : TxnSuperblock) (att_file : Lsn → List TxnId) (tail : List TxnRecord)
    (disk : TxnId → TxnState) (x : TxnId) : TxnState :=
  let clog := tail.foldl redo_record disk
  if x ∈ recovered_att sb att_file tail clog then .Aborted else clog x

/-! ## The system -/

/-- Where a transaction is. `ending` is between the append of its last record, whose end is
the boundary, and its commit-log bit. -/
inductive TxnPhase where
  | idle
  | active
  | ending (commit : Bool) (boundary : Lsn)
deriving DecidableEq

def TxnPhase.is_ending : TxnPhase → Bool
  | .ending _ _ => true
  | _ => false

/-- What a checkpoint has done, after each of its steps. -/
inductive CheckpointStage where
  | begun
  | att_written
  | clog_flushed
  | next_read (next_txn_id : TxnId)
  | ended (next_txn_id : TxnId) (end_boundary : Lsn)
  | wal_flushed (next_txn_id : TxnId)

/-- A checkpoint under way. -/
structure RunningCheckpoint where
  begin_lsn : Lsn
  stage : CheckpointStage

/-- `clog` is the commit log as the process reads it and `clog_synced` as of its last
flush. A file of active transactions that is not there reads as an empty table. -/
structure RecSys where
  log : List TxnRecord
  synced : Lsn
  clock : TxnId
  phase : TxnId → TxnPhase
  clog : TxnId → TxnState
  clog_synced : TxnId → TxnState
  sb : TxnSuperblock
  att_file : Lsn → List TxnId
  checkpoint : Option RunningCheckpoint

/-- A crash keeps a cut of the log; of the commit-log bits set since the last flush, it
loses those it is told to. -/
inductive RecOp where
  | begin_txn
  | append_record (xid : TxnId)
  | append_other
  | sync (upto : Lsn)
  | append_end (xid : TxnId) (commit : Bool)
  | end_txn (xid : TxnId)
  | checkpoint_begin
  | checkpoint_att
  | checkpoint_clog
  | checkpoint_next
  | checkpoint_end
  | checkpoint_flush
  | checkpoint_superblock
  | checkpoint_fails
  | crash (kept : Lsn) (lost : TxnId → Bool)

namespace RecSys

/-- A new database. -/
def create : RecSys where
  log := []
  synced := 0
  clock := TxnId.FIRST
  phase _ := .idle
  clog _ := .InProgress
  clog_synced _ := .InProgress
  sb := ⟨0, TxnId.FIRST⟩
  att_file _ := []
  checkpoint := none

/-- `begin_txn`, and the XID it hands out. -/
def begin_txn (s : RecSys) : RecSys × TxnId :=
  ({ s with clock := s.clock + 1, phase := update s.phase s.clock .active }, s.clock)

/-- `active_xids`. -/
def active_xids (s : RecSys) : List TxnId :=
  (List.range s.clock).filter fun x => s.phase x ≠ .idle

/-- The commit log a crash leaves on the disk. -/
def disk (s : RecSys) (lost : TxnId → Bool) (x : TxnId) : TxnState :=
  if lost x then s.clog_synced x else s.clog x

/-- `recover_inner` on what a crash leaves. -/
def recover (s : RecSys) (kept : Lsn) (lost : TxnId → Bool) : RecSys :=
  let log := s.log.take kept
  let tail := tail_from log s.sb.checkpoint_lsn
  { s with
    log := log
    synced := kept
    clock := recovered_next_txn_id s.sb tail
    phase := fun _ => .idle
    clog := recovered_clog s.sb s.att_file tail (s.disk lost)
    clog_synced := s.disk lost
    checkpoint := none }

def step (s : RecSys) : RecOp → Option RecSys
  | .begin_txn => some s.begin_txn.1
  | .append_record x =>
    if s.phase x = .active then some { s with log := s.log ++ [.Stamped x] } else none
  | .append_other => some { s with log := s.log ++ [.Unstamped] }
  | .sync upto =>
    if s.synced ≤ upto ∧ upto ≤ s.log.length then some { s with synced := upto } else none
  | .append_end x commit =>
    -- the barrier's read guard, held from here to the end of `end_txn`
    if s.phase x = .active ∧ s.checkpoint.isNone then
      some { s with
        log := s.log ++ [end_record commit x]
        phase := update s.phase x (.ending commit (s.log.length + 1)) }
    else none
  | .end_txn x =>
    -- `flush_to` has returned: the record is synced up to its end
    match s.phase x with
    | .ending commit boundary =>
      if boundary ≤ s.synced then
        some { s with
          clog := update s.clog x (end_state commit)
          phase := update s.phase x .idle }
      else none
    | _ => none
  | .checkpoint_begin =>
    -- the barrier's write guard waits for every transaction that is ending
    if s.checkpoint.isNone ∧ ∀ x < s.clock, (s.phase x).is_ending = false then
      some { s with
        log := s.log ++ [.CheckpointBegin]
        checkpoint := some ⟨s.log.length + 1, .begun⟩ }
    else none
  | .checkpoint_att =>
    match s.checkpoint with
    | some ⟨lsn, .begun⟩ => some { s with
        att_file := update s.att_file lsn s.active_xids
        checkpoint := some ⟨lsn, .att_written⟩ }
    | _ => none
  | .checkpoint_clog =>
    match s.checkpoint with
    | some ⟨lsn, .att_written⟩ => some { s with
        clog_synced := s.clog
        checkpoint := some ⟨lsn, .clog_flushed⟩ }
    | _ => none
  | .checkpoint_next =>
    match s.checkpoint with
    | some ⟨lsn, .clog_flushed⟩ => some { s with checkpoint := some ⟨lsn, .next_read s.clock⟩ }
    | _ => none
  | .checkpoint_end =>
    match s.checkpoint with
    | some ⟨lsn, .next_read next⟩ => some { s with
        log := s.log ++ [.CheckpointEnd lsn]
        checkpoint := some ⟨lsn, .ended next (s.log.length + 1)⟩ }
    | _ => none
  | .checkpoint_flush =>
    match s.checkpoint with
    | some ⟨lsn, .ended next boundary⟩ =>
      if boundary ≤ s.synced then some { s with checkpoint := some ⟨lsn, .wal_flushed next⟩ }
      else none
    | _ => none
  | .checkpoint_superblock =>
    match s.checkpoint with
    | some ⟨lsn, .wal_flushed next⟩ => some { s with sb := ⟨lsn, next⟩, checkpoint := none }
    | _ => none
  | .checkpoint_fails => some { s with checkpoint := none }
  | .crash kept lost =>
    if s.synced ≤ kept ∧ kept ≤ s.log.length then some (s.recover kept lost) else none

/-- What a step does: its guard, and the state after. -/
inductive Steps (s : RecSys) : RecOp → RecSys → Prop
  | begin_txn : Steps s .begin_txn s.begin_txn.1
  | append_record (x : TxnId) (hact : s.phase x = .active) :
    Steps s (.append_record x) { s with log := s.log ++ [.Stamped x] }
  | append_other : Steps s .append_other { s with log := s.log ++ [.Unstamped] }
  | sync (upto : Lsn) (hle : s.synced ≤ upto) (hlen : upto ≤ s.log.length) :
    Steps s (.sync upto) { s with synced := upto }
  | append_end (x : TxnId) (commit : Bool) (hact : s.phase x = .active)
    (hnone : s.checkpoint.isNone) : Steps s (.append_end x commit) { s with
      log := s.log ++ [end_record commit x]
      phase := update s.phase x (.ending commit (s.log.length + 1)) }
  | end_txn (x : TxnId) (commit : Bool) (boundary : Lsn)
    (hph : s.phase x = .ending commit boundary) (hsync : boundary ≤ s.synced) :
    Steps s (.end_txn x) { s with
      clog := update s.clog x (end_state commit)
      phase := update s.phase x .idle }
  | checkpoint_begin (hnone : s.checkpoint.isNone)
    (hbar : ∀ x < s.clock, (s.phase x).is_ending = false) : Steps s .checkpoint_begin { s with
      log := s.log ++ [.CheckpointBegin]
      checkpoint := some ⟨s.log.length + 1, .begun⟩ }
  | checkpoint_att (lsn : Lsn) (hck : s.checkpoint = some ⟨lsn, .begun⟩) :
    Steps s .checkpoint_att { s with
      att_file := update s.att_file lsn s.active_xids
      checkpoint := some ⟨lsn, .att_written⟩ }
  | checkpoint_clog (lsn : Lsn) (hck : s.checkpoint = some ⟨lsn, .att_written⟩) :
    Steps s .checkpoint_clog { s with
      clog_synced := s.clog
      checkpoint := some ⟨lsn, .clog_flushed⟩ }
  | checkpoint_next (lsn : Lsn) (hck : s.checkpoint = some ⟨lsn, .clog_flushed⟩) :
    Steps s .checkpoint_next { s with checkpoint := some ⟨lsn, .next_read s.clock⟩ }
  | checkpoint_end (lsn : Lsn) (next : TxnId) (hck : s.checkpoint = some ⟨lsn, .next_read next⟩) :
    Steps s .checkpoint_end { s with
      log := s.log ++ [.CheckpointEnd lsn]
      checkpoint := some ⟨lsn, .ended next (s.log.length + 1)⟩ }
  | checkpoint_flush (lsn : Lsn) (next : TxnId) (boundary : Lsn)
    (hck : s.checkpoint = some ⟨lsn, .ended next boundary⟩) (hsync : boundary ≤ s.synced) :
    Steps s .checkpoint_flush { s with checkpoint := some ⟨lsn, .wal_flushed next⟩ }
  | checkpoint_superblock (lsn : Lsn) (next : TxnId)
    (hck : s.checkpoint = some ⟨lsn, .wal_flushed next⟩) :
    Steps s .checkpoint_superblock { s with sb := ⟨lsn, next⟩, checkpoint := none }
  | checkpoint_fails : Steps s .checkpoint_fails { s with checkpoint := none }
  | crash (kept : Lsn) (lost : TxnId → Bool) (hk : s.synced ≤ kept) (hlen : kept ≤ s.log.length) :
    Steps s (.crash kept lost) (s.recover kept lost)

variable {s t : RecSys}

theorem step_cases {op : RecOp} (hst : s.step op = some t) : Steps s op t := by
  cases op with
  | begin_txn | append_other | checkpoint_fails =>
    cases hst
    constructor
  | append_record | sync | append_end | checkpoint_begin | crash =>
    obtain ⟨hguard, rfl⟩ := guarded hst
    constructor <;> simp_all
  | end_txn | checkpoint_flush =>
    simp only [step] at hst
    split at hst
    · obtain ⟨hguard, rfl⟩ := guarded hst
      constructor <;> assumption
    · cases hst
  | checkpoint_att | checkpoint_clog | checkpoint_next | checkpoint_end | checkpoint_superblock =>
    simp only [step] at hst
    split at hst <;> cases hst
    constructor
    assumption

end RecSys

/-! ## What the log says of a transaction -/

/-- A record carries the XID. -/
def Carries (log : List TxnRecord) (x : TxnId) : Prop := ∃ r ∈ log, r.txn_id = x

variable {log tail : List TxnRecord} {x : TxnId}

theorem Carries.mono {log' : List TxnRecord} (h : Carries log x) (hsub : log ⊆ log') :
    Carries log' x := by
  obtain ⟨r, hr, hx⟩ := h
  exact ⟨r, hsub hr, hx⟩

theorem carries_end_record {commit : Bool} (h : end_record commit x ∈ log) : Carries log x :=
  ⟨_, h, by cases commit <;> rfl⟩

variable {r : TxnRecord}

theorem carries_append (h : Carries (log ++ [r]) x) : Carries log x ∨ r.txn_id = x := by
  obtain ⟨r', hr', hx⟩ := h
  rcases mem_append.mp hr' with hmem | hmem
  · exact .inl ⟨r', hmem, hx⟩
  · rw [mem_singleton.mp hmem] at hx
    exact .inr hx

/-- A cut of the log and the records of it from an LSN on. -/
theorem carries_cut (h : Carries log x) (lsn : Lsn) :
    Carries (log.take (lsn - 1)) x ∨ Carries (tail_from log lsn) x := by
  obtain ⟨r, hr, hx⟩ := h
  rw [← List.take_append_drop (lsn - 1) log] at hr
  rcases mem_append.mp hr with hmem | hmem
  · exact .inl ⟨r, hmem, hx⟩
  · exact .inr ⟨r, hmem, hx⟩

/-! ## What recovery computes -/

/-- Of a transaction with at most one end record, redo leaves the state that record gives,
and what was there if it sees none. -/
theorem foldl_redo_record {disk : TxnId → TxnState} (tail : List TxnRecord)
    (hexcl : .TxnCommit x ∈ tail → .TxnAbort x ∉ tail) :
    tail.foldl redo_record disk x =
      if .TxnCommit x ∈ tail then .Committed
      else if .TxnAbort x ∈ tail then .Aborted else disk x := by
  -- on the last record, which decides if it is one of the transaction's
  induction tail using List.reverseRecOn with
  | nil => simp
  | append_singleton tail r ih =>
    have hexcl' : .TxnCommit x ∈ tail → .TxnAbort x ∉ tail := fun hc ha =>
      hexcl (List.mem_append_left _ hc) (List.mem_append_left _ ha)
    rw [List.foldl_append, List.foldl_cons, List.foldl_nil]
    by_cases hcommit : r = .TxnCommit x
    · subst hcommit
      rw [if_pos (by simp)]
      exact update_self ..
    by_cases habort : r = .TxnAbort x
    · subst habort
      rw [if_neg (fun hc => hexcl hc (by simp)), if_pos (by simp)]
      exact update_self ..
    have hkeep : redo_record (tail.foldl redo_record disk) r x = tail.foldl redo_record disk x := by
      cases r with
      | TxnCommit y =>
        have hne : x ≠ y := fun heq => hcommit (by rw [heq])
        exact update_of_ne hne ..
      | TxnAbort y =>
        have hne : x ≠ y := fun heq => habort (by rw [heq])
        exact update_of_ne hne ..
      | Stamped y => rfl
      | CheckpointBegin => rfl
      | CheckpointEnd lsn => rfl
      | Unstamped => rfl
    rw [hkeep, ih hexcl']
    have hc : .TxnCommit x ∈ tail ++ [r] ↔ .TxnCommit x ∈ tail := by
      rw [mem_append, mem_singleton]
      exact or_iff_left fun heq => hcommit heq.symm
    have ha : .TxnAbort x ∈ tail ++ [r] ↔ .TxnAbort x ∈ tail := by
      rw [mem_append, mem_singleton]
      exact or_iff_left fun heq => habort heq.symm
    simp only [hc, ha]

variable {att : List TxnId}

theorem mem_scan_record (h : x ∈ scan_record att r) :
    x ∈ att ∨ r.txn_id = x := by
  have hinsert : ∀ y, x ∈ (if y ≠ TxnId.INVALID then y :: att else att) → x ∈ att ∨ y = x := by
    intro y hy
    split_ifs at hy
    · rcases List.mem_cons.mp hy with heq | hmem
      · exact .inr heq.symm
      · exact .inl hmem
    · exact .inl hy
  cases r with
  | TxnCommit y => exact .inl (List.mem_of_mem_filter h)
  | TxnAbort y => exact .inl (List.mem_of_mem_filter h)
  | Stamped y => exact hinsert _ h
  | CheckpointBegin => exact hinsert _ h
  | CheckpointEnd lsn => exact hinsert _ h
  | Unstamped => exact hinsert _ h

/-- Analysis finds no transaction out of nowhere. -/
theorem mem_foldl_scan_record (h : x ∈ tail.foldl scan_record att) : x ∈ att ∨ Carries tail x := by
  induction tail generalizing att with
  | nil => exact .inl h
  | cons r tail ih =>
    rcases ih h with hmem | hc
    · rcases mem_scan_record hmem with hatt | hr
      · exact .inl hatt
      · exact .inr ⟨r, (.head _), hr⟩
    · exact .inr (hc.mono (List.subset_cons_self _ _))

/-- A record that does not end the transaction keeps it in the table. -/
theorem scan_record_keeps (hc : r ≠ .TxnCommit x) (ha : r ≠ .TxnAbort x) (hx : x ≠ TxnId.INVALID)
    (h : x ∈ att ∨ r.txn_id = x) : x ∈ scan_record att r := by
  have hinsert : ∀ y, x ∈ att ∨ y = x → x ∈ (if y ≠ TxnId.INVALID then y :: att else att) := by
    intro y hy
    split_ifs with hy0
    · rcases hy with hmem | rfl
      · exact List.mem_cons_of_mem _ hmem
      · exact .head _
    · rcases hy with hmem | rfl
      · exact hmem
      · exact absurd hx hy0
  cases r with
  | TxnCommit y =>
    have hne : x ≠ y := fun heq => hc (by rw [heq])
    exact mem_filter.mpr ⟨h.resolve_right hne.symm, decide_eq_true hne⟩
  | TxnAbort y =>
    have hne : x ≠ y := fun heq => ha (by rw [heq])
    exact mem_filter.mpr ⟨h.resolve_right hne.symm, decide_eq_true hne⟩
  | Stamped y => exact hinsert _ h
  | CheckpointBegin => exact hinsert _ h
  | CheckpointEnd lsn => exact hinsert _ h
  | Unstamped => exact hinsert _ h

/-- A transaction the table or the tail knows of is found, unless the tail ends it. -/
theorem foldl_scan_record_finds (hx : x ≠ TxnId.INVALID) (hc : .TxnCommit x ∉ tail)
    (ha : .TxnAbort x ∉ tail) (h : x ∈ att ∨ Carries tail x) : x ∈ tail.foldl scan_record att := by
  induction tail generalizing att with
  | nil =>
    rcases h with h | ⟨r, hr, -⟩
    · exact h
    · simp at hr
  | cons r tail ih =>
    have hrc : r ≠ .TxnCommit x := fun heq => hc (by simp [heq])
    have hra : r ≠ .TxnAbort x := fun heq => ha (by simp [heq])
    refine ih (fun hm => hc (.tail _ hm)) (fun hm => ha (.tail _ hm)) ?_
    rcases h with hmem | ⟨r', hr', hrx⟩
    · exact .inl (scan_record_keeps hrc hra hx (.inl hmem))
    · rcases List.mem_cons.mp hr' with rfl | htail
      · exact .inl (scan_record_keeps hrc hra hx (.inr hrx))
      · exact .inr ⟨r', htail, hrx⟩

theorem mem_att_baseline {sb : TxnSuperblock} {att_file : Lsn → List TxnId}
    (h : x ∈ att_baseline sb att_file tail) :
    x ∈ att_file sb.checkpoint_lsn := by
  unfold att_baseline at h
  split at h
  · split_ifs at h with heq
    · rwa [← heq]
    · simp at h
  · simp at h

theorem le_replayed_max_txn_id (tail : List TxnRecord) (h : Carries tail x) :
    x ≤ replayed_max_txn_id tail := by
  -- on the last record: the largest so far is at least as large as before
  induction tail using List.reverseRecOn with
  | nil =>
    obtain ⟨r, hr, -⟩ := h
    simp at hr
  | append_singleton tail r ih =>
    unfold replayed_max_txn_id at ih ⊢
    rw [List.foldl_append, List.foldl_cons, List.foldl_nil]
    rcases carries_append h with hc | rfl
    · have hle := ih hc
      split_ifs with hlt
      · exact hle.trans hlt.le
      · exact hle
    · split_ifs with hlt
      · exact le_rfl
      · exact not_lt.mp hlt

theorem le_recovered_next_txn_id (sb : TxnSuperblock) (tail : List TxnRecord) :
    sb.next_txn_id ≤ recovered_next_txn_id sb tail := by
  unfold recovered_next_txn_id
  split_ifs
  · exact le_max_left _ _
  · exact le_rfl

/-- **The clock restarts above every XID in the tail.** -/
theorem lt_recovered_next_txn_id {sb : TxnSuperblock} (hsb : 1 ≤ sb.next_txn_id)
    (h : Carries tail x) :
    x < recovered_next_txn_id sb tail := by
  have hle := le_replayed_max_txn_id tail h
  unfold recovered_next_txn_id
  split_ifs with hmax
  · exact (Nat.lt_succ_of_le hle).trans_le (le_max_right _ _)
  · have hzero : replayed_max_txn_id tail = 0 := not_not.mp hmax
    rw [hzero] at hle
    exact (Nat.lt_succ_of_le hle).trans_le hsb

/-! ## The invariant -/

/-- What the log and the commit log say of one transaction. -/
structure TxnOk (log : List TxnRecord) (synced : Lsn) (phase : TxnPhase) (state : TxnState)
    (x : TxnId) : Prop where
  one_end : .TxnCommit x ∈ log → .TxnAbort x ∉ log
  committed : state = .Committed → .TxnCommit x ∈ log.take synced
  aborted : state = .Aborted → .TxnCommit x ∉ log
  written : state ≠ .SubCommitted
  idle : phase = .idle → .TxnCommit x ∈ log → state = .Committed
  active : phase = .active → state = .InProgress ∧ ∀ commit, end_record commit x ∉ log
  ending : ∀ commit boundary, phase = .ending commit boundary →
    state = .InProgress ∧ end_record commit x ∈ log.take boundary ∧ end_record (!commit) x ∉ log

theorem mem_take_append {n : ℕ} (h : r ∈ log.take n) (r' : TxnRecord) : r ∈ (log ++ [r']).take n :=
  ((List.prefix_append log [r']).take n).subset h

/-- A record that does not end the transaction. -/
theorem TxnOk.append {synced : Lsn} {phase : TxnPhase} {state : TxnState}
    (h : TxnOk log synced phase state x) (hr : ∀ commit, r ≠ end_record commit x) :
    TxnOk (log ++ [r]) synced phase state x := by
  have hmem : ∀ commit, end_record commit x ∈ log ++ [r] → end_record commit x ∈ log := by
    intro commit hm
    rcases mem_append.mp hm with hl | hl
    · exact hl
    · exact absurd (mem_singleton.mp hl).symm (hr commit)
  exact {
    one_end := fun hc ha => h.one_end (hmem true hc) (hmem false ha)
    committed := fun hs => mem_take_append (h.committed hs) r
    aborted := fun hs hc => h.aborted hs (hmem true hc)
    written := h.written
    idle := fun hp hc => h.idle hp (hmem true hc)
    active := fun hp => ⟨(h.active hp).1, fun commit hc => (h.active hp).2 commit (hmem commit hc)⟩
    ending := by
      rintro commit boundary hp
      obtain ⟨hs, hin, hout⟩ := h.ending commit boundary hp
      exact ⟨hs, mem_take_append hin r, fun hc => hout (hmem _ hc)⟩ }

theorem TxnOk.sync {synced upto : Lsn} {phase : TxnPhase} {state : TxnState}
    (h : TxnOk log synced phase state x) (hle : synced ≤ upto) :
    TxnOk log upto phase state x :=
  { h with committed := fun hs => List.take_subset_take_left _ hle (h.committed hs) }

namespace CheckpointStage

def past_att : CheckpointStage → Prop
  | .begun => False
  | _ => True

def past_clog : CheckpointStage → Prop
  | .begun => False
  | .att_written => False
  | _ => True

def next : CheckpointStage → Option TxnId
  | .next_read n => some n
  | .ended n _ => some n
  | .wal_flushed n => some n
  | _ => none

def boundary : CheckpointStage → Option Lsn
  | .ended _ b => some b
  | _ => none

def flushed : CheckpointStage → Prop
  | .wal_flushed _ => True
  | _ => False

end CheckpointStage

namespace RecSys

/-- The XIDs that recovery will know of at a checkpoint are below the given one. -/
structure Below (s : RecSys) (lsn : Lsn) (next : TxnId) : Prop where
  pos : 1 ≤ next
  le : next ≤ s.clock
  carried : ∀ x, Carries (s.log.take (lsn - 1)) x → x < next
  att : ∀ x ∈ s.att_file lsn, x < next

/-- A checkpoint under way. -/
structure CheckpointOk (s : RecSys) (c : RunningCheckpoint) : Prop where
  le : c.begin_lsn ≤ s.log.length
  later : s.sb.checkpoint_lsn < c.begin_lsn
  barrier : ∀ x, (s.phase x).is_ending = false
  att : c.stage.past_att → ∀ x ∈ s.att_file c.begin_lsn, x < s.clock
  clog : c.stage.past_clog → ∀ x, .TxnCommit x ∈ s.log.take (c.begin_lsn - 1) →
    s.clog_synced x = .Committed
  below : ∀ next, c.stage.next = some next → s.Below c.begin_lsn next
  clog_below : ∀ next, c.stage.next = some next → ∀ x, s.clog x ≠ .InProgress → x < next
  boundary : ∀ b, c.stage.boundary = some b → c.begin_lsn ≤ b
  flushed : c.stage.flushed → c.begin_lsn ≤ s.synced
  past : c.stage.next.isSome → c.stage.past_clog

/-- The invariant of every run. -/
structure Inv (s : RecSys) : Prop where
  synced : s.synced ≤ s.log.length
  sb_synced : s.sb.checkpoint_lsn ≤ s.synced
  fresh : ∀ x, s.clock ≤ x → s.phase x = .idle
  carried : ∀ x, Carries s.log x → x < s.clock
  clog_lt : ∀ x, s.clog x ≠ .InProgress → x < s.clock
  sb_below : s.Below s.sb.checkpoint_lsn s.sb.next_txn_id
  clog_known : ∀ x, s.clog x ≠ .InProgress →
    x < s.sb.next_txn_id ∨ Carries (tail_from (s.log.take s.synced) s.sb.checkpoint_lsn) x
  clog_synced : ∀ x, s.clog_synced x = s.clog x ∨ s.clog_synced x = .InProgress
  sb_clog : ∀ x, .TxnCommit x ∈ s.log.take (s.sb.checkpoint_lsn - 1) →
    s.clog_synced x = .Committed
  txn : ∀ x, TxnOk s.log s.synced (s.phase x) (s.clog x) x
  checkpoint : ∀ c, s.checkpoint = some c → s.CheckpointOk c

theorem create_inv : create.Inv where
  synced := le_rfl
  sb_synced := le_rfl
  fresh _ _ := rfl
  carried x h := by
    obtain ⟨r, hr, -⟩ := h
    exact absurd hr (by simp [create])
  clog_lt x h := absurd rfl h
  sb_below := {
    pos := le_rfl
    le := le_rfl
    carried := fun x h => by
      obtain ⟨r, hr, -⟩ := h
      exact absurd hr (by simp [create])
    att := fun x h => absurd h (by simp [create]) }
  clog_known x h := absurd rfl h
  clog_synced x := .inl rfl
  sb_clog x h := absurd h (by simp [create])
  txn x := {
    one_end := fun h => absurd h (by simp [create])
    committed := fun h => absurd h (by simp [create])
    aborted := fun h => absurd h (by simp [create])
    written := by simp [create]
    idle := fun _ h => absurd h (by simp [create])
    active := fun h => absurd h (by simp [create])
    ending := fun _ _ h => absurd h (by simp [create]) }
  checkpoint c h := absurd h (by simp [create])

/-! ## Frames -/

/-- What a cut of the log before an LSN in it says does not change as the log grows. -/
theorem take_append_cut {log : List TxnRecord} {lsn : Lsn} (h : lsn ≤ log.length)
    (r : TxnRecord) : (log ++ [r]).take (lsn - 1) = log.take (lsn - 1) :=
  List.take_append_of_le_length ((Nat.sub_le _ _).trans h)

variable {s t : RecSys}

theorem Below.append {lsn : Lsn} {next : TxnId} (h : s.Below lsn next) (hle : lsn ≤ s.log.length)
    (r : TxnRecord) (phase : TxnId → TxnPhase) :
    Below { s with log := s.log ++ [r], phase := phase } lsn next :=
  { h with
    carried := fun x hx => by
      change Carries ((s.log ++ [r]).take (lsn - 1)) x at hx
      rw [take_append_cut hle] at hx
      exact h.carried x hx }

theorem CheckpointOk.append {c : RunningCheckpoint} (h : s.CheckpointOk c) (r : TxnRecord) :
    CheckpointOk { s with log := s.log ++ [r] } c :=
  { h with
    le := h.le.trans (by simp)
    clog := fun hc x hx => by
      change _ ∈ (s.log ++ [r]).take (c.begin_lsn - 1) at hx
      rw [take_append_cut h.le] at hx
      exact h.clog hc x hx
    below := fun next hn => (h.below next hn).append h.le r s.phase }

/-- A record is appended. The transactions' phases may change, but not with a checkpoint
running. -/
theorem Inv.append (h : s.Inv) {r : TxnRecord} {phase : TxnId → TxnPhase}
    (hid : r.txn_id < s.clock) (hfresh : ∀ x, s.clock ≤ x → phase x = .idle)
    (htxn : ∀ x, TxnOk (s.log ++ [r]) s.synced (phase x) (s.clog x) x)
    (hphase : s.checkpoint.isNone ∨ phase = s.phase) :
    Inv { s with log := s.log ++ [r], phase := phase } where
  synced := h.synced.trans (by simp)
  sb_synced := h.sb_synced
  fresh := hfresh
  carried x hx := by
    rcases carries_append hx with hc | rfl
    · exact h.carried x hc
    · exact hid
  clog_lt := h.clog_lt
  sb_below := h.sb_below.append (h.sb_synced.trans h.synced) r phase
  clog_known x hx := by
    change _ ∨ Carries (tail_from ((s.log ++ [r]).take s.synced) _) x
    rw [List.take_append_of_le_length h.synced]
    exact h.clog_known x hx
  clog_synced := h.clog_synced
  sb_clog x hx := by
    change _ ∈ (s.log ++ [r]).take _ at hx
    rw [take_append_cut (h.sb_synced.trans h.synced)] at hx
    exact h.sb_clog x hx
  txn := htxn
  checkpoint c hc := by
    rcases hphase with hnone | rfl
    · change s.checkpoint = some c at hc
      rw [hc] at hnone
      simp at hnone
    · exact (h.checkpoint c hc).append r

/-- A record that ends no transaction. -/
theorem Inv.append_skip (h : s.Inv) {r : TxnRecord} (hid : r.txn_id < s.clock)
    (hr : ∀ commit x, r ≠ end_record commit x) : Inv { s with log := s.log ++ [r] } :=
  h.append hid h.fresh (fun x => (h.txn x).append fun commit => hr commit x) (.inr rfl)

theorem Inv.clock_pos (h : s.Inv) : 0 < s.clock :=
  Nat.lt_of_lt_of_le h.sb_below.pos h.sb_below.le

/-! ## Transactions -/

theorem Inv.begin_txn (h : s.Inv) : Inv s.begin_txn.1 := by
  have hgrow : ∀ {x}, x < s.clock → x < s.clock + 1 := fun hx => Nat.lt_succ_of_lt hx
  have hno : ∀ commit, end_record commit s.clock ∉ s.log := fun commit hm =>
    absurd (h.carried _ (carries_end_record hm)) (lt_irrefl _)
  have hbelow : ∀ {lsn next}, s.Below lsn next → s.begin_txn.1.Below lsn next := fun hb =>
    { hb with le := hb.le.trans (Nat.le_succ _) }
  refine { h with
    fresh := fun x hx => ?_
    carried := fun x hx => hgrow (h.carried x hx)
    clog_lt := fun x hx => hgrow (h.clog_lt x hx)
    sb_below := hbelow h.sb_below
    txn := fun x => ?_
    checkpoint := fun c hc => ?_ }
  · change s.clock + 1 ≤ x at hx
    have hlt : s.clock < x := Nat.lt_of_succ_le hx
    exact (update_of_ne hlt.ne' ..).trans (h.fresh x hlt.le)
  · change TxnOk s.log s.synced (update s.phase s.clock .active x) (s.clog x) x
    by_cases hx : x = s.clock
    · subst hx
      -- the XID is new: the log and the commit log say nothing of it
      have hstate : s.clog s.clock = .InProgress := by
        by_contra hne
        exact absurd (h.clog_lt _ hne) (lt_irrefl _)
      rw [update_self]
      exact { h.txn s.clock with
        idle := fun hp => absurd hp (by simp)
        active := fun _ => ⟨hstate, hno⟩
        ending := fun _ _ hp => absurd hp (by simp) }
    · rw [update_of_ne hx]
      exact h.txn x
  · have hck := h.checkpoint c hc
    refine { hck with
      barrier := fun x => ?_
      att := fun ha x hx => hgrow (hck.att ha x hx)
      below := fun next hn => hbelow (hck.below next hn) }
    change (update s.phase s.clock .active x).is_ending = false
    by_cases hx : x = s.clock
    · rw [hx, update_self]
      rfl
    · rw [update_of_ne hx]
      exact hck.barrier x

variable {x : TxnId}

theorem Inv.active_lt (h : s.Inv) (hx : s.phase x ≠ .idle) :
    x < s.clock := by
  by_contra hge
  exact hx (h.fresh x (not_lt.mp hge))

theorem Inv.append_end (h : s.Inv) {commit : Bool} (hact : s.phase x = .active)
    (hnone : s.checkpoint.isNone) :
    Inv { s with
      log := s.log ++ [end_record commit x]
      phase := update s.phase x (.ending commit (s.log.length + 1)) } := by
  have hlt : x < s.clock := h.active_lt (by rw [hact]; simp)
  obtain ⟨hstate, hno⟩ := (h.txn x).active hact
  refine h.append ?_ (fun y hy => ?_) (fun y => ?_) (.inl hnone)
  · have hid : (end_record commit x).txn_id = x := by cases commit <;> rfl
    rwa [hid]
  · have hne : y ≠ x := (hlt.trans_le hy).ne'
    rw [update_of_ne hne]
    exact h.fresh y hy
  · by_cases hy : y = x
    · subst hy
      rw [update_self]
      have hother : end_record (!commit) y ∉ s.log ++ [end_record commit y] := by
        rw [mem_append, mem_singleton]
        rintro (hm | heq)
        · exact hno _ hm
        · cases commit <;> exact absurd heq (by simp [end_record])
      have hone : .TxnCommit y ∈ s.log ++ [end_record commit y] →
          .TxnAbort y ∉ s.log ++ [end_record commit y] := by
        intro hc ha
        cases commit
        · exact hother hc
        · exact hother ha
      exact {
        one_end := hone
        committed := fun hs => absurd (hs.symm.trans hstate) (by simp)
        aborted := fun hs => absurd (hs.symm.trans hstate) (by simp)
        written := (h.txn y).written
        idle := fun hp => absurd hp (by simp)
        active := fun hp => absurd hp (by simp)
        ending := by
          rintro c b hp
          obtain ⟨rfl, rfl⟩ := TxnPhase.ending.inj hp
          refine ⟨hstate, ?_, hother⟩
          rw [List.take_of_length_le (by simp)]
          simp }
    · rw [update_of_ne hy]
      refine (h.txn y).append fun c heq => hy ?_
      cases commit <;> cases c <;> simp [end_record] at heq <;> exact heq.symm

theorem Inv.no_checkpoint (h : s.Inv) (hx : (s.phase x).is_ending = true) : s.checkpoint = none := by
  -- the barrier: a checkpoint and an ending transaction exclude each other
  rcases hc : s.checkpoint with _ | c
  · rfl
  · have hfalse := (h.checkpoint c hc).barrier x
    rw [hx] at hfalse
    simp at hfalse

theorem Inv.end_txn (h : s.Inv) (hst : s.step (.end_txn x) = some t) : Inv t := by
  cases step_cases hst with
  | end_txn x commit boundary hph hsync =>
  obtain ⟨hstate, hin, hout⟩ := (h.txn x).ending commit boundary hph
  have hnone := h.no_checkpoint (x := x) (by rw [hph]; rfl)
  have hsynced : end_record commit x ∈ s.log.take s.synced :=
    List.take_subset_take_left _ hsync hin
  have hlt : x < s.clock := h.active_lt (by rw [hph]; simp)
  have hset : ∀ {y}, update s.clog x (end_state commit) y ≠ .InProgress →
      y = x ∨ s.clog y ≠ .InProgress := by
    intro y hy
    by_cases hyx : y = x
    · exact .inl hyx
    · rw [update_of_ne hyx] at hy
      exact .inr hy
  refine { h with
    fresh := fun y hy => ?_
    clog_lt := fun y hy => ?_
    sb_below := { h.sb_below with }
    clog_known := fun y hy => ?_
    clog_synced := fun y => ?_
    txn := fun y => ?_
    checkpoint := fun c hc => absurd (hnone.symm.trans hc) (by simp) }
  · have hne : y ≠ x := (hlt.trans_le hy).ne'
    exact (update_of_ne hne ..).trans (h.fresh y hy)
  · rcases hset hy with rfl | hy
    · exact hlt
    · exact h.clog_lt y hy
  · rcases hset hy with rfl | hy
    · -- its last record is synced, before the superblock's checkpoint or after it
      rcases carries_cut (carries_end_record hsynced) s.sb.checkpoint_lsn with hold | htail
      · refine .inl (h.sb_below.carried y (hold.mono ?_))
        rw [take_take]
        exact List.take_subset_take_left _ (min_le_left _ _)
      · exact .inr htail
    · exact h.clog_known y hy
  · by_cases hyx : y = x
    · right
      subst hyx
      rcases h.clog_synced y with heq | heq
      · exact heq.trans hstate
      · exact heq
    · have hkeep : update s.clog x (end_state commit) y = s.clog y :=
        update_of_ne hyx ..
      exact (h.clog_synced y).imp_left fun heq => heq.trans hkeep.symm
  · change TxnOk s.log s.synced (update s.phase x .idle y)
      (update s.clog x (end_state commit) y) y
    by_cases hyx : y = x
    · subst hyx
      rw [update_self, update_self]
      have hmem : end_record commit y ∈ s.log := mem_of_mem_take hsynced
      cases commit with
      | true => exact {
          one_end := (h.txn y).one_end
          committed := fun _ => hsynced
          aborted := fun hs => absurd hs (by simp [end_state])
          written := by simp [end_state]
          idle := fun _ _ => rfl
          active := fun hp => absurd hp (by simp)
          ending := fun _ _ hp => absurd hp (by simp) }
      | false => exact {
          one_end := (h.txn y).one_end
          committed := fun hs => absurd hs (by simp [end_state])
          aborted := fun _ => hout
          written := by simp [end_state]
          idle := fun _ hc => absurd hc hout
          active := fun hp => absurd hp (by simp)
          ending := fun _ _ hp => absurd hp (by simp) }
    · rw [update_of_ne hyx, update_of_ne hyx]
      exact h.txn y

theorem Inv.sync (h : s.Inv) {upto : Lsn} (hle : s.synced ≤ upto) (hlen : upto ≤ s.log.length) :
    Inv { s with synced := upto } :=
  { h with
    synced := hlen
    sb_synced := h.sb_synced.trans hle
    sb_below := { h.sb_below with }
    clog_known := fun x hx => (h.clog_known x hx).imp_right fun hc =>
      hc.mono (((List.take_prefix_take_left hle).drop _).subset)
    txn := fun x => (h.txn x).sync hle
    checkpoint := fun c hc => { h.checkpoint c hc with
      below := fun next hn => { (h.checkpoint c hc).below next hn with }
      flushed := fun hf => ((h.checkpoint c hc).flushed hf).trans hle } }

/-! ## Checkpoints -/

theorem Inv.not_ending (h : s.Inv) (hbar : ∀ x < s.clock, (s.phase x).is_ending = false)
    (x : TxnId) :
    (s.phase x).is_ending = false := by
  by_cases hx : x < s.clock
  · exact hbar x hx
  · rw [h.fresh x (not_lt.mp hx)]
    rfl

/-- A stage before the next transaction id is read has nothing to say about it. -/
theorem CheckpointOk.early {c : RunningCheckpoint} (hnext : c.stage.next = none)
    (hboundary : c.stage.boundary = none) (hflushed : ¬ c.stage.flushed)
    (le : c.begin_lsn ≤ s.log.length) (later : s.sb.checkpoint_lsn < c.begin_lsn)
    (barrier : ∀ x, (s.phase x).is_ending = false)
    (att : c.stage.past_att → ∀ x ∈ s.att_file c.begin_lsn, x < s.clock)
    (clog : c.stage.past_clog → ∀ x, .TxnCommit x ∈ s.log.take (c.begin_lsn - 1) →
      s.clog_synced x = .Committed) : s.CheckpointOk c where
  le := le
  later := later
  barrier := barrier
  att := att
  clog := clog
  below _ hn := by simp [hnext] at hn
  clog_below _ hn := by simp [hnext] at hn
  boundary _ hb := by simp [hboundary] at hb
  flushed hf := (hflushed hf).elim
  past hp := by simp [hnext] at hp

theorem Inv.checkpoint_begin (h : s.Inv) (hst : s.step .checkpoint_begin = some t) : Inv t := by
  cases step_cases hst with
  | checkpoint_begin hnone hbar =>
  have hgrown := h.append_skip (r := .CheckpointBegin) h.clock_pos
    (by rintro (_ | _) x <;> simp [end_record])
  refine { hgrown with
    sb_below := { hgrown.sb_below with }
    checkpoint := fun c hc => ?_ }
  cases hc
  exact .early rfl rfl not_false (by simp) (Nat.lt_succ_of_le (h.sb_synced.trans h.synced))
    (h.not_ending hbar) False.elim False.elim

theorem mem_active_xids :
    x ∈ s.active_xids ↔ x < s.clock ∧ s.phase x ≠ .idle := by
  unfold active_xids
  rw [mem_filter, List.mem_range, decide_eq_true_iff]

theorem Inv.checkpoint_att (h : s.Inv) (hst : s.step .checkpoint_att = some t) : Inv t := by
  cases step_cases hst with
  | checkpoint_att lsn hck =>
  have hok := h.checkpoint _ hck
  have hne : s.sb.checkpoint_lsn ≠ lsn := hok.later.ne
  refine { h with
    sb_below := { h.sb_below with att := fun x hx => h.sb_below.att x ?_ }
    checkpoint := fun c hc => ?_ }
  · change x ∈ update s.att_file lsn s.active_xids s.sb.checkpoint_lsn at hx
    rwa [update_of_ne hne] at hx
  · cases hc
    refine .early rfl rfl not_false hok.le hok.later hok.barrier (fun _ x hx => ?_) False.elim
    change x ∈ update s.att_file lsn s.active_xids lsn at hx
    rw [update_self] at hx
    exact (mem_active_xids.mp hx).1

/-- With no transaction ending, a commit record is in the commit log. -/
theorem Inv.committed_of_barrier (h : s.Inv) (hbar : (s.phase x).is_ending = false)
    (hc : .TxnCommit x ∈ s.log) :
    s.clog x = .Committed := by
  rcases hph : s.phase x with _ | _ | ⟨commit, boundary⟩
  · exact (h.txn x).idle hph hc
  · exact absurd hc (((h.txn x).active hph).2 true)
  · rw [hph] at hbar
    exact absurd hbar (by simp [TxnPhase.is_ending])

theorem Inv.checkpoint_clog (h : s.Inv) (hst : s.step .checkpoint_clog = some t) : Inv t := by
  cases step_cases hst with
  | checkpoint_clog lsn hck =>
  have hok := h.checkpoint _ hck
  refine { h with
    sb_below := { h.sb_below with }
    clog_synced := fun x => .inl rfl
    sb_clog := fun x hx => h.committed_of_barrier (hok.barrier x) (mem_of_mem_take hx)
    checkpoint := fun c hc => ?_ }
  cases hc
  exact .early rfl rfl not_false hok.le hok.later hok.barrier (fun _ => hok.att trivial)
    fun _ x hx => h.committed_of_barrier (hok.barrier x) (mem_of_mem_take hx)

theorem Inv.checkpoint_next (h : s.Inv) (hst : s.step .checkpoint_next = some t) : Inv t := by
  cases step_cases hst with
  | checkpoint_next lsn hck =>
  have hok := h.checkpoint _ hck
  refine { h with
    sb_below := { h.sb_below with }
    checkpoint := fun c hc => ?_ }
  cases hc
  exact { hok with
    att := fun _ => hok.att trivial
    clog := fun _ => hok.clog trivial
    below := fun next hn => by
      cases hn
      exact {
        pos := h.clock_pos
        le := le_rfl
        carried := fun x hx => h.carried x (hx.mono (List.take_subset _ _))
        att := hok.att trivial }
    clog_below := fun next hn x hx => by
      cases hn
      exact h.clog_lt x hx
    boundary := fun _ hb => absurd hb (by simp [CheckpointStage.boundary])
    flushed := fun hf => hf.elim
    past := fun _ => trivial }

theorem Inv.checkpoint_end (h : s.Inv) (hst : s.step .checkpoint_end = some t) : Inv t := by
  cases step_cases hst with
  | checkpoint_end lsn next hck =>
  have hok := h.checkpoint _ hck
  have hgrown := h.append_skip (r := .CheckpointEnd lsn) h.clock_pos
    (by rintro (_ | _) x <;> simp [end_record])
  have hok' := hok.append (.CheckpointEnd lsn)
  refine { hgrown with
    sb_below := { hgrown.sb_below with }
    checkpoint := fun c hc => ?_ }
  cases hc
  exact { hok' with
    att := fun _ => hok'.att trivial
    clog := fun _ => hok'.clog trivial
    below := fun n hn => { hok'.below n hn with }
    boundary := fun b hb => by
      cases hb
      exact hok.le.trans (Nat.le_succ _)
    flushed := fun hf => hf.elim
    past := fun _ => trivial }

theorem Inv.checkpoint_flush (h : s.Inv) (hst : s.step .checkpoint_flush = some t) : Inv t := by
  cases step_cases hst with
  | checkpoint_flush lsn next boundary hck hsync =>
  have hok := h.checkpoint _ hck
  refine { h with
    sb_below := { h.sb_below with }
    checkpoint := fun c hc => ?_ }
  cases hc
  exact { hok with
    att := fun _ => hok.att trivial
    clog := fun _ => hok.clog trivial
    below := fun n hn => { hok.below n hn with }
    boundary := fun _ hb => absurd hb (by simp [CheckpointStage.boundary])
    flushed := fun _ => (hok.boundary boundary rfl).trans hsync
    past := fun _ => trivial }

theorem Inv.checkpoint_superblock (h : s.Inv) (hst : s.step .checkpoint_superblock = some t) :
    Inv t := by
  cases step_cases hst with
  | checkpoint_superblock lsn next hck =>
  have hok := h.checkpoint _ hck
  exact { h with
    sb_synced := hok.flushed trivial
    sb_below := { hok.below next rfl with }
    clog_known := fun x hx => .inl (hok.clog_below next rfl x hx)
    sb_clog := hok.clog trivial
    checkpoint := fun c hc => absurd hc (by simp) }

/-! ## Crashes -/

/-- A bit on the disk is the one the process read, or not set. -/
theorem Inv.disk_eq (h : s.Inv) (lost : TxnId → Bool) (x : TxnId) :
    s.disk lost x = s.clog x ∨ s.disk lost x = .InProgress := by
  unfold disk
  split_ifs
  · exact h.clog_synced x
  · exact .inl rfl

/-- A bit of the last flush is on the disk. -/
theorem Inv.disk_of_synced (h : s.Inv) (lost : TxnId → Bool) (hx : s.clog_synced x ≠ .InProgress) :
    s.disk lost x = s.clog_synced x := by
  unfold disk
  split_ifs
  · rfl
  · exact ((h.clog_synced x).resolve_right hx).symm

section Recover

variable {s : RecSys} (h : s.Inv) {kept : Lsn} (hk : s.synced ≤ kept) (lost : TxnId → Bool)
  (x : TxnId)

/-- The records recovery replays. -/
def replayed (s : RecSys) (kept : Lsn) : List TxnRecord :=
  tail_from (s.log.take kept) s.sb.checkpoint_lsn

theorem recover_clog :
    (s.recover kept lost).clog x =
      if x ∈ recovered_att s.sb s.att_file (s.replayed kept)
        ((s.replayed kept).foldl redo_record (s.disk lost)) then .Aborted
      else (s.replayed kept).foldl redo_record (s.disk lost) x := rfl

theorem replayed_subset (s : RecSys) (kept : Lsn) : s.replayed kept ⊆ s.log.take kept :=
  List.drop_subset _ _

include h in
theorem redo_replayed :
    (s.replayed kept).foldl redo_record (s.disk lost) x =
      if .TxnCommit x ∈ s.replayed kept then .Committed
      else if .TxnAbort x ∈ s.replayed kept then .Aborted else s.disk lost x := by
  have hsub : s.replayed kept ⊆ s.log := fun r hr =>
    mem_of_mem_take (replayed_subset s kept hr)
  exact foldl_redo_record _ fun hc ha => (h.txn x).one_end (hsub hc) (hsub ha)

theorem mem_recovered_att {clog : TxnId → TxnState} {sb : TxnSuperblock}
    {att_file : Lsn → List TxnId} {tail : List TxnRecord} :
    x ∈ recovered_att sb att_file tail clog ↔
      x ∈ tail.foldl scan_record (att_baseline sb att_file tail) ∧
        clog x ≠ .Committed ∧ clog x ≠ .Aborted := by
  unfold recovered_att
  rw [mem_filter, decide_eq_true_iff]

include h hk in
/-- A record in the cut is in the tail, or it is before the superblock's checkpoint. -/
theorem mem_cut_or_replayed {r : TxnRecord} (hr : r ∈ s.log.take kept) :
    r ∈ s.log.take (s.sb.checkpoint_lsn - 1) ∨ r ∈ s.replayed kept := by
  have hcut : s.sb.checkpoint_lsn - 1 ≤ kept := (Nat.sub_le _ _).trans (h.sb_synced.trans hk)
  rw [← List.take_append_drop (s.sb.checkpoint_lsn - 1) (s.log.take kept), take_take,
    min_eq_left hcut] at hr
  exact mem_append.mp hr

include h hk in
/-- **A commit record in the cut is recovered**, from the commit log's last flush or by
redo. -/
theorem recovered_commit (hc : .TxnCommit x ∈ s.log.take kept) :
    (s.recover kept lost).clog x = .Committed := by
  have hredo : (s.replayed kept).foldl redo_record (s.disk lost) x = .Committed := by
    rw [redo_replayed h]
    rcases mem_cut_or_replayed h hk hc with hold | htail
    · have habort : .TxnAbort x ∉ s.replayed kept := fun ha =>
        (h.txn x).one_end (mem_of_mem_take hc)
          (List.take_subset _ _ (replayed_subset s kept ha))
      have hflushed := h.sb_clog x hold
      have hdisk := h.disk_of_synced lost (x := x) (by rw [hflushed]; simp)
      rw [if_neg habort, hdisk, hflushed, ite_self]
    · rw [if_pos htail]
  rw [recover_clog, if_neg (fun hm => ((mem_recovered_att x).mp hm).2.1 hredo)]
  exact hredo

include h hk in
/-- What recovery calls committed has its record in the cut. -/
theorem commit_of_recovered (hc : (s.recover kept lost).clog x = .Committed) :
    .TxnCommit x ∈ s.log.take kept := by
  rw [recover_clog] at hc
  split_ifs at hc with hatt
  rw [redo_replayed h] at hc
  split_ifs at hc with h1 h2
  · exact replayed_subset s kept h1
  · have hclog : s.clog x = .Committed := by
      rcases h.disk_eq lost x with heq | heq
      · exact heq.symm.trans hc
      · exact absurd (heq.symm.trans hc) (by simp)
    exact List.take_subset_take_left _ hk ((h.txn x).committed hclog)

include h in
theorem recovered_written : (s.recover kept lost).clog x ≠ .SubCommitted := by
  intro hc
  rw [recover_clog] at hc
  split_ifs at hc with hatt
  rw [redo_replayed h] at hc
  split_ifs at hc
  rcases h.disk_eq lost x with heq | heq
  · exact (h.txn x).written (heq.symm.trans hc)
  · exact absurd (heq.symm.trans hc) (by simp)

include h hk in
/-- Whatever recovery knows an outcome of is below the superblock's XID or in the tail. -/
theorem recovered_known (hc : (s.recover kept lost).clog x ≠ .InProgress) :
    x < s.sb.next_txn_id ∨ Carries (s.replayed kept) x := by
  rw [recover_clog] at hc
  split_ifs at hc with hatt
  · rcases mem_foldl_scan_record ((mem_recovered_att x).mp hatt).1 with hbase | htail
    · exact .inl (h.sb_below.att x (mem_att_baseline hbase))
    · exact .inr htail
  · rw [redo_replayed h] at hc
    split_ifs at hc with h1 h2
    · exact .inr (@carries_end_record _ x true h1)
    · exact .inr (@carries_end_record _ x false h2)
    · have hclog : s.clog x ≠ .InProgress := by
        rcases h.disk_eq lost x with heq | heq
        · rwa [← heq]
        · exact absurd heq hc
      refine (h.clog_known x hclog).imp_right fun hcar => hcar.mono ?_
      exact ((List.take_prefix_take_left hk).drop _).subset

include h hk in
/-- Recovery does not change an outcome it finds. -/
theorem recovered_of_disk (hc : s.disk lost x ≠ .InProgress) :
    (s.recover kept lost).clog x = s.disk lost x := by
  have hclog : s.disk lost x = s.clog x := (h.disk_eq lost x).resolve_right hc
  rcases hstate : s.clog x with _ | _ | _ | _
  · exact absurd (hclog.trans hstate) hc
  · have hin := List.take_subset_take_left _ hk ((h.txn x).committed hstate)
    rw [recovered_commit h hk lost x hin, hclog, hstate]
  · have hno : .TxnCommit x ∉ s.replayed kept := fun hm =>
      (h.txn x).aborted hstate (mem_of_mem_take (replayed_subset s kept hm))
    have hredo : (s.replayed kept).foldl redo_record (s.disk lost) x = .Aborted := by
      rw [redo_replayed h, if_neg hno, hclog, hstate, ite_self]
    rw [recover_clog, if_neg (fun hm => ((mem_recovered_att x).mp hm).2.2 hredo), hredo, hclog,
      hstate]
  · exact absurd hstate (h.txn x).written

end Recover

theorem Inv.recover (h : s.Inv) {kept : Lsn} (hk : s.synced ≤ kept) (hlen : kept ≤ s.log.length)
    (lost : TxnId → Bool) : Inv (s.recover kept lost) := by
  have hlog : (s.recover kept lost).log = s.log.take kept := rfl
  have hcut : s.sb.checkpoint_lsn - 1 ≤ kept := (Nat.sub_le _ _).trans (h.sb_synced.trans hk)
  have hold : (s.log.take kept).take (s.sb.checkpoint_lsn - 1) =
      s.log.take (s.sb.checkpoint_lsn - 1) := by
    rw [take_take, min_eq_left hcut]
  have hself : (s.log.take kept).take kept = s.log.take kept := by
    rw [take_take, min_self]
  have hnext : s.sb.next_txn_id ≤ (s.recover kept lost).clock := le_recovered_next_txn_id _ _
  have htail : ∀ y, Carries (s.replayed kept) y → y < (s.recover kept lost).clock := fun y hy =>
    lt_recovered_next_txn_id h.sb_below.pos hy
  exact {
    synced := by
      rw [hlog, List.length_take, min_eq_left hlen]
      exact le_rfl
    sb_synced := h.sb_synced.trans hk
    fresh := fun _ _ => rfl
    carried := fun y hy => by
      obtain ⟨r, hr, rfl⟩ := hy
      rcases mem_cut_or_replayed h hk hr with hold | htl
      · exact (h.sb_below.carried _ ⟨r, hold, rfl⟩).trans_le hnext
      · exact htail _ ⟨r, htl, rfl⟩
    clog_lt := fun y hy => by
      rcases recovered_known h hk lost y hy with hlt | hc
      · exact hlt.trans_le hnext
      · exact htail y hc
    sb_below := {
      pos := h.sb_below.pos
      le := hnext
      carried := fun y hy => by
        change Carries ((s.log.take kept).take (s.sb.checkpoint_lsn - 1)) y at hy
        rw [hold] at hy
        exact h.sb_below.carried y hy
      att := h.sb_below.att }
    clog_known := fun y hy => by
      change _ ∨ Carries (tail_from ((s.log.take kept).take kept) _) y
      rw [hself]
      exact recovered_known h hk lost y hy
    clog_synced := fun y => by
      change s.disk lost y = _ ∨ s.disk lost y = _
      by_cases hd : s.disk lost y = .InProgress
      · exact .inr hd
      · exact .inl (recovered_of_disk h hk lost y hd).symm
    sb_clog := fun y hy => by
      change _ ∈ (s.log.take kept).take (s.sb.checkpoint_lsn - 1) at hy
      rw [hold] at hy
      have hflushed := h.sb_clog y hy
      exact (h.disk_of_synced lost (by rw [hflushed]; simp)).trans hflushed
    txn := fun y => {
      one_end := fun hc ha => (h.txn y).one_end (mem_of_mem_take hc) (mem_of_mem_take ha)
      committed := fun hs => by
        change _ ∈ (s.log.take kept).take kept
        rw [hself]
        exact commit_of_recovered h hk lost y hs
      aborted := fun hs hc => by
        rw [recovered_commit h hk lost y hc] at hs
        simp at hs
      written := recovered_written h lost y
      idle := fun _ hc => recovered_commit h hk lost y hc
      active := fun hp => absurd hp (by simp [RecSys.recover])
      ending := fun _ _ hp => absurd hp (by simp [RecSys.recover]) }
    checkpoint := fun c hc => absurd hc (by simp [RecSys.recover]) }

theorem Inv.step {op : RecOp} (h : s.Inv) (hst : s.step op = some t) : Inv t := by
  cases step_cases hst with
  | begin_txn => exact h.begin_txn
  | append_record x hact =>
    have hlt : x < s.clock := h.active_lt (by rw [hact]; simp)
    exact h.append_skip (r := .Stamped x) hlt (by rintro (_ | _) y <;> simp [end_record])
  | append_other => exact h.append_skip h.clock_pos (by rintro (_ | _) y <;> simp [end_record])
  | sync upto hle hlen => exact h.sync hle hlen
  | append_end x commit hact hnone => exact h.append_end hact hnone
  | end_txn => exact h.end_txn hst
  | checkpoint_begin => exact h.checkpoint_begin hst
  | checkpoint_att => exact h.checkpoint_att hst
  | checkpoint_clog => exact h.checkpoint_clog hst
  | checkpoint_next => exact h.checkpoint_next hst
  | checkpoint_end => exact h.checkpoint_end hst
  | checkpoint_flush => exact h.checkpoint_flush hst
  | checkpoint_superblock => exact h.checkpoint_superblock hst
  | checkpoint_fails =>
    exact { h with
      sb_below := { h.sb_below with }
      checkpoint := fun c hc => absurd hc (by simp) }
  | crash kept lost hk hlen => exact h.recover hk hlen lost

/-! ## Identifiers are not reused -/

/-- What a step keeps of what is durable: the synced log and the outcomes on the disk. -/
structure Durable (s t : RecSys) : Prop where
  log : s.log.take s.synced <+: t.log.take t.synced
  clog : ∀ x, s.clog_synced x ≠ .InProgress → t.clog_synced x ≠ .InProgress

theorem Durable.refl (s : RecSys) : Durable s s := ⟨List.prefix_rfl, fun _ h => h⟩

theorem Durable.trans {u : RecSys} (h : Durable s t) (h' : Durable t u) : Durable s u :=
  ⟨h.log.trans h'.log, fun x hx => h'.clog x (h.clog x hx)⟩

theorem Durable.append {r : TxnRecord} (h : s.Inv) (hlog : t.log = s.log ++ [r])
    (hsync : t.synced = s.synced) (hclog : t.clog_synced = s.clog_synced) : Durable s t := by
  refine ⟨?_, fun x hx => by rwa [hclog]⟩
  rw [hlog, hsync, List.take_append_of_le_length h.synced]

theorem Durable.of_eq (hlog : t.log = s.log) (hsync : t.synced = s.synced)
    (hclog : t.clog_synced = s.clog_synced) : Durable s t :=
  ⟨by rw [hlog, hsync], fun x hx => by rwa [hclog]⟩

theorem Inv.durable {op : RecOp} (h : s.Inv) (hst : s.step op = some t) :
    Durable s t := by
  cases step_cases hst with
  | begin_txn | end_txn | checkpoint_att | checkpoint_next | checkpoint_flush
  | checkpoint_superblock | checkpoint_fails => exact .of_eq rfl rfl rfl
  | append_record | append_other | append_end | checkpoint_begin | checkpoint_end =>
    exact .append h rfl rfl rfl
  | sync upto hle => exact ⟨List.take_prefix_take_left hle, fun _ hx => hx⟩
  | checkpoint_clog =>
    refine ⟨List.prefix_rfl, fun x hx => ?_⟩
    have heq := (h.clog_synced x).resolve_right hx
    change s.clog x ≠ _
    rwa [← heq]
  | crash kept lost hk =>
    refine ⟨?_, fun x hx => ?_⟩
    · change _ <+: (s.log.take kept).take kept
      rw [take_take, min_self]
      exact List.take_prefix_take_left hk
    · change s.disk lost x ≠ _
      rwa [h.disk_of_synced lost hx]

end RecSys

namespace RecSys

/-- The recovery after the crash reads the table of its superblock's checkpoint: there is
none yet, or the last `CheckpointEnd` in what the crash keeps is its own. -/
def Anchored (s : RecSys) : RecOp → Prop
  | .crash kept _ => s.sb.checkpoint_lsn = 0 ∨
      find_latest_checkpoint_end (s.replayed kept) = some s.sb.checkpoint_lsn
  | _ => True

instance (s : RecSys) (op : RecOp) : Decidable (s.Anchored op) := by
  unfold Anchored
  split <;> infer_instance

/-- A transaction with a record before the LSN has an outcome or is in the table. -/
def Covered (log : List TxnRecord) (clog : TxnId → TxnState) (att : List TxnId) (lsn : Lsn) :
    Prop :=
  ∀ x, x ≠ TxnId.INVALID → Carries (log.take (lsn - 1)) x → clog x ≠ .InProgress ∨ x ∈ att

/-- Every transaction that did not commit is accounted for. -/
structure Settled (s : RecSys) : Prop where
  known : ∀ x, x ≠ TxnId.INVALID → Carries s.log x → s.clog x ≠ .InProgress ∨ s.phase x ≠ .idle
  sb : Covered s.log s.clog_synced (s.att_file s.sb.checkpoint_lsn) s.sb.checkpoint_lsn
  att : ∀ c, s.checkpoint = some c → c.stage.past_att →
    Covered s.log s.clog (s.att_file c.begin_lsn) c.begin_lsn
  clog : ∀ c, s.checkpoint = some c → c.stage.past_clog →
    Covered s.log s.clog_synced (s.att_file c.begin_lsn) c.begin_lsn

theorem create_settled : create.Settled where
  known x _ h := by
    obtain ⟨r, hr, -⟩ := h
    exact absurd hr (by simp [create])
  sb x _ h := by
    obtain ⟨r, hr, -⟩ := h
    exact absurd hr (by simp [create])
  att c h := absurd h (by simp [create])
  clog c h := absurd h (by simp [create])

theorem Covered.append {log : List TxnRecord} {clog : TxnId → TxnState} {att : List TxnId}
    {lsn : Lsn} (h : Covered log clog att lsn) (hle : lsn ≤ log.length) (r : TxnRecord) :
    Covered (log ++ [r]) clog att lsn := by
  intro x hx hc
  rw [take_append_cut hle] at hc
  exact h x hx hc

variable {s t : RecSys}

/-- A record is appended, of a transaction that is not idle then. -/
theorem Settled.append (h : s.Settled) (hinv : s.Inv) {r : TxnRecord} {phase : TxnId → TxnPhase}
    (hr : r.txn_id ≠ TxnId.INVALID → phase r.txn_id ≠ .idle)
    (hphase : ∀ x, s.phase x ≠ .idle → phase x ≠ .idle) :
    Settled { s with log := s.log ++ [r], phase := phase } where
  known x hx hc := by
    rcases carries_append hc with hold | rfl
    · exact (h.known x hx hold).imp_right (hphase x)
    · exact .inr (hr hx)
  sb := h.sb.append (hinv.sb_synced.trans hinv.synced) r
  att c hc ha := (h.att c hc ha).append (hinv.checkpoint c hc).le r
  clog c hc ha := (h.clog c hc ha).append (hinv.checkpoint c hc).le r

theorem Settled.end_txn (h : s.Settled) (hinv : s.Inv) {x : TxnId}
    (hst : s.step (.end_txn x) = some t) : Settled t := by
  cases step_cases hst with
  | end_txn x commit boundary hph hsync =>
  have hnone := hinv.no_checkpoint (x := x) (by rw [hph]; rfl)
  refine { h with
    known := fun y hy hc => ?_
    att := fun c hc => absurd (hnone.symm.trans hc) (by simp)
    clog := fun c hc => absurd (hnone.symm.trans hc) (by simp) }
  change update s.clog x (end_state commit) y ≠ _ ∨
    update s.phase x .idle y ≠ _
  by_cases hyx : y = x
  · left
    rw [hyx, update_self]
    cases commit <;> simp [end_state]
  · rw [update_of_ne hyx, update_of_ne hyx]
    exact h.known y hy hc

theorem Settled.checkpoint_att (h : s.Settled) (hinv : s.Inv)
    (hst : s.step .checkpoint_att = some t) : Settled t := by
  cases step_cases hst with
  | checkpoint_att lsn hck =>
  have hne : s.sb.checkpoint_lsn ≠ lsn := (hinv.checkpoint _ hck).later.ne
  refine { h with
    sb := ?_
    att := fun c hc _ x hx hcar => ?_
    clog := fun c hc hp => ?_ }
  · change Covered s.log s.clog_synced (update s.att_file lsn s.active_xids _) _
    rw [update_of_ne hne]
    exact h.sb
  · cases hc
    change Carries (s.log.take (lsn - 1)) x at hcar
    change s.clog x ≠ _ ∨ x ∈ update s.att_file lsn s.active_xids lsn
    rw [update_self]
    have hlog := hcar.mono (List.take_subset _ _)
    exact (h.known x hx hlog).imp_right fun hp => mem_active_xids.mpr ⟨hinv.carried x hlog, hp⟩
  · cases hc
    exact hp.elim

theorem Settled.checkpoint_clog (h : s.Settled) (hinv : s.Inv)
    (hst : s.step .checkpoint_clog = some t) : Settled t := by
  cases step_cases hst with
  | checkpoint_clog lsn hck =>
  have hatt := h.att _ hck trivial
  refine { h with
    sb := fun x hx hc => (h.sb x hx hc).imp_left fun hs => ?_
    att := fun c hc _ => ?_
    clog := fun c hc _ => ?_ }
  · have heq := (hinv.clog_synced x).resolve_right hs
    change s.clog x ≠ _
    rwa [← heq]
  · cases hc
    exact hatt
  · cases hc
    exact hatt

/-- The steps of a checkpoint after its flush of the commit log. -/
theorem Settled.advance (h : s.Settled) {lsn : Lsn} {stage : CheckpointStage}
    (hck : s.checkpoint = some ⟨lsn, stage⟩) (hatt : stage.past_att) (hclog : stage.past_clog)
    (stage' : CheckpointStage) : Settled { s with checkpoint := some ⟨lsn, stage'⟩ } := by
  have ha := h.att _ hck hatt
  have hc := h.clog _ hck hclog
  refine { h with
    att := fun c hsome _ => ?_
    clog := fun c hsome _ => ?_ }
  · cases hsome
    exact ha
  · cases hsome
    exact hc

theorem Settled.checkpoint_superblock (h : s.Settled)
    (hst : s.step .checkpoint_superblock = some t) : Settled t := by
  cases step_cases hst with
  | checkpoint_superblock lsn next hck =>
  exact { h with
    sb := h.clog _ hck trivial
    att := fun c hc => absurd hc (by simp)
    clog := fun c hc => absurd hc (by simp) }

/-- With its table read, recovery leaves no transaction with a record open. -/
theorem Settled.recover (h : s.Settled) (hinv : s.Inv) {kept : Lsn} {lost : TxnId → Bool}
    (hk : s.synced ≤ kept) (hanchor : s.Anchored (.crash kept lost)) :
    Settled (s.recover kept lost) := by
  have hcut : s.sb.checkpoint_lsn - 1 ≤ kept :=
    (Nat.sub_le _ _).trans (hinv.sb_synced.trans hk)
  have hsb : ∀ x, x ≠ TxnId.INVALID → Carries (s.log.take (s.sb.checkpoint_lsn - 1)) x →
      s.disk lost x ≠ .InProgress ∨ x ∈ s.att_file s.sb.checkpoint_lsn := by
    intro x hx hc
    refine (h.sb x hx hc).imp_left fun hs => ?_
    rwa [hinv.disk_of_synced lost hs]
  refine {
    known := fun x hx hc => .inl ?_
    sb := fun x hx hc => ?_
    att := fun c hc => absurd hc (by simp [RecSys.recover])
    clog := fun c hc => absurd hc (by simp [RecSys.recover]) }
  · by_cases hd : s.disk lost x = .InProgress
    · -- not on the disk: then analysis has it, from its table or from the tail
      have hfound : x ∈ att_baseline s.sb s.att_file (s.replayed kept) ∨
          Carries (s.replayed kept) x := by
        obtain ⟨r, hr, rfl⟩ := hc
        rcases mem_cut_or_replayed hinv hk hr with hold | htail
        · rcases hanchor with hzero | hlatest
          · rw [hzero] at hold
            simp at hold
          · left
            unfold att_baseline
            rw [hlatest]
            simp only [if_true]
            exact (hsb _ hx ⟨r, hold, rfl⟩).resolve_left (absurd hd)
        · exact .inr ⟨r, htail, rfl⟩
      rw [recover_clog]
      split_ifs with hatt
      · simp
      · intro hopen
        apply hatt
        rw [redo_replayed hinv] at hopen
        split_ifs at hopen with h1 h2
        rw [mem_recovered_att, redo_replayed hinv, if_neg h1, if_neg h2, hd]
        exact ⟨foldl_scan_record_finds hx h1 h2 hfound, by simp, by simp⟩
    · rw [recovered_of_disk hinv hk lost x hd]
      exact hd
  · change Carries ((s.log.take kept).take (s.sb.checkpoint_lsn - 1)) x at hc
    rw [take_take, min_eq_left hcut] at hc
    exact hsb x hx hc

theorem Settled.step {op : RecOp} (h : s.Settled) (hinv : s.Inv) (hanchor : s.Anchored op)
    (hst : s.step op = some t) : Settled t := by
  cases step_cases hst with
  | begin_txn =>
    refine { h with known := fun x hx hc => (h.known x hx hc).imp_right fun hp => ?_ }
    change update s.phase s.clock .active x ≠ _
    by_cases hxc : x = s.clock
    · rw [hxc, update_self]
      simp
    · rwa [update_of_ne hxc]
  | append_record x hact =>
    exact h.append hinv (r := .Stamped x) (fun _ => by change s.phase x ≠ _; rw [hact]; simp)
      fun _ hp => hp
  | append_other => exact h.append hinv (fun hne => absurd rfl hne) fun _ hp => hp
  | sync => exact { h with }
  | append_end x commit =>
    have hid : (end_record commit x).txn_id = x := by cases commit <;> rfl
    refine h.append hinv (fun _ => ?_) fun y hp => ?_
    · rw [hid, update_self]
      simp
    · by_cases hyx : y = x
      · rw [hyx, update_self]
        simp
      · rwa [update_of_ne hyx]
  | end_txn => exact h.end_txn hinv hst
  | checkpoint_begin =>
    have hgrown := h.append hinv (r := .CheckpointBegin) (fun hne => absurd rfl hne)
      fun _ hp => hp
    exact { hgrown with
      att := fun c hc ha => by
        cases hc
        exact ha.elim
      clog := fun c hc ha => by
        cases hc
        exact ha.elim }
  | checkpoint_att => exact h.checkpoint_att hinv hst
  | checkpoint_clog => exact h.checkpoint_clog hinv hst
  | checkpoint_next lsn hck => exact h.advance hck trivial trivial _
  | checkpoint_end lsn next hck =>
    have hgrown := h.append hinv (r := .CheckpointEnd lsn) (fun hne => absurd rfl hne)
      fun _ hp => hp
    exact hgrown.advance hck trivial trivial _
  | checkpoint_flush lsn next boundary hck => exact h.advance hck trivial trivial _
  | checkpoint_superblock => exact h.checkpoint_superblock hst
  | checkpoint_fails =>
    exact { h with
      att := fun c hc => absurd hc (by simp)
      clog := fun c hc => absurd hc (by simp) }
  | crash kept lost hk => exact h.recover hinv hk hanchor

end RecSys

/-- **Outcomes across a crash.** After any run and a crash at any of its steps, every
transaction whose commit record the crash kept reads as committed. If moreover every
recovery so far, this one included, had the `CheckpointEnd` of its superblock's checkpoint
as the last one in its log, every other transaction with a record kept reads as aborted. -/
theorem outcomes_survive_crash {ops : List RecOp} {kept : Lsn} {lost : TxnId → Bool}
    {s t : RecSys} (hrun : run RecSys.step RecSys.create ops = some s)
    (hcrash : s.step (.crash kept lost) = some t) :
    (∀ x, .TxnCommit x ∈ t.log → t.clog x = .Committed) ∧
    (AllSteps RecSys.step RecSys.Anchored RecSys.create ops → s.Anchored (.crash kept lost) →
      ∀ x, x ≠ TxnId.INVALID → Carries t.log x → .TxnCommit x ∉ t.log → t.clog x = .Aborted) := by
  have hs : s.Inv := run_invariant RecSys.Inv (fun _ _ _ h hst => h.step hst)
    RecSys.create_inv hrun
  have ht := hs.step hcrash
  have hidle : ∀ x, t.phase x = .idle := by
    intro x
    cases RecSys.step_cases hcrash
    rfl
  refine ⟨fun x hc => (ht.txn x).idle (hidle x) hc, fun hall hanchor x hx hc hno => ?_⟩
  obtain ⟨hinv, hsettled⟩ := run_invariant_of_allSteps RecSys.Anchored
    (fun s => s.Inv ∧ s.Settled)
    (fun _ _ _ h ha hst => ⟨h.1.step hst, h.2.step h.1 ha hst⟩)
    ⟨RecSys.create_inv, RecSys.create_settled⟩ hall hrun
  have hknown := ((hsettled.step hinv hanchor hcrash).known x hx hc).resolve_right
    (absurd (hidle x))
  rcases hstate : t.clog x with _ | _ | _ | _
  · exact absurd hstate hknown
  · exact absurd (mem_of_mem_take ((ht.txn x).committed hstate)) hno
  · rfl
  · exact absurd hstate (ht.txn x).written

/-- Two transactions with a record each, one of them committed, and a checkpoint. The crash
loses every commit-log bit that was not flushed. -/
theorem outcomes_survive_crash_checkpoint :
    ∃ s t, run RecSys.step RecSys.create
        [.begin_txn, .append_record 1, .begin_txn, .append_record 2, .append_end 2 true, .sync 3,
          .end_txn 2, .checkpoint_begin, .checkpoint_att, .checkpoint_clog, .checkpoint_next,
          .checkpoint_end, .sync 5, .checkpoint_flush, .checkpoint_superblock] = some s ∧
      s.step (.crash 5 fun _ => true) = some t ∧
      t.clog 2 = .Committed ∧ t.clog 1 = .Aborted := by
  refine exists_of_bind_map_eq
    (fun s t => (decide (s.Anchored (.crash 5 fun _ => true)), t.log))
    (b := (true, [.Stamped 1, .Stamped 2, .TxnCommit 2, .CheckpointBegin, .CheckpointEnd 4]))
    (by decide +kernel) fun s t hs ht hval => ?_
  obtain ⟨hanchor, hlog⟩ := Prod.mk.inj hval
  obtain ⟨hcommit, hrest⟩ := outcomes_survive_crash hs ht
  refine ⟨hcommit 2 (by rw [hlog]; decide), ?_⟩
  refine hrest (by decide +kernel) (of_decide_eq_true hanchor) 1 (by decide) ?_ ?_
  · rw [hlog]
    exact ⟨.Stamped 1, by decide, rfl⟩
  · rw [hlog]
    decide

/-- The second of two checkpoints has its `CheckpointEnd` synced and its superblock not yet
written when the crash comes. Recovery replays from the first one, whose table has the open
transaction, and does not read the table: the transaction's record is older than both. -/
theorem open_transaction_left_in_progress :
    ∃ s t, run RecSys.step RecSys.create
        [.begin_txn, .append_record 1, .checkpoint_begin, .checkpoint_att, .checkpoint_clog,
          .checkpoint_next, .checkpoint_end, .sync 3, .checkpoint_flush, .checkpoint_superblock,
          .checkpoint_begin, .checkpoint_att, .checkpoint_clog, .checkpoint_next, .checkpoint_end,
          .sync 5, .checkpoint_flush] = some s ∧
      s.step (.crash 5 fun _ => false) = some t ∧
      Carries t.log 1 ∧ .TxnCommit 1 ∉ t.log ∧ 1 ∈ t.att_file t.sb.checkpoint_lsn ∧
      t.clog 1 = .InProgress := by
  refine exists_of_bind_map_eq (fun _ t => (t.log, t.att_file t.sb.checkpoint_lsn, t.clog 1))
    (b := ([.Stamped 1, .CheckpointBegin, .CheckpointEnd 2, .CheckpointBegin, .CheckpointEnd 4],
      [1], .InProgress)) (by decide +kernel) fun s t hs ht hval => ?_
  obtain ⟨hlog, hrest⟩ := Prod.mk.inj hval
  obtain ⟨hatt, hclog⟩ := Prod.mk.inj hrest
  refine ⟨?_, ?_, by rw [hatt]; decide, hclog⟩
  · rw [hlog]
    exact ⟨.Stamped 1, by decide, rfl⟩
  · rw [hlog]
    decide

end Ams.TxnRecovery
