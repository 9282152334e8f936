/-
`CheckpointCoordinator::trigger_checkpoint` next to writers, flushes and evictions.

The superblock moves the redo point to the `CheckpointBegin` LSN, so by then every page
a record before it has changed must be on disk and fsynced. The checkpoint relies on the
`dirty` flags for this: it collects the pages whose flag is set and flushes those. The
flag, however, is cleared when a flush *claims* the frame, before the page is written.
A frame that is being flushed by somebody else looks clean to `dirty_page_ids`, is left
out, and the superblock does not wait for that flush (`checkpoint_misses_claimed_frame`).

A step below is what the code does under one lock, one atomic operation or one file
operation. Of a page image only its `pd_lsn` is kept: images of one page only grow in it.
`written` is what the data file returns when read, `durable` what the last finished fsync
is known to have covered, so an fsync is two steps and covers what was written before it
started.
-/
import Ams.BufferPool
import Ams.Lib.Run

set_option autoImplicit false

namespace Ams

open Ams.Lib

/-! ## Frames, flushes, the evictor and the checkpoint -/

/-- Whose `flush_frame` call holds the claim: the thread that goes on when it returns. -/
inductive FlushOwner where
  | Other
  | Evictor
  | Checkpoint
deriving DecidableEq, Repr

/-- How far a `flush_frame` has come after claiming a frame. `img` is the `pd_lsn` of the
image it wrote. -/
inductive FlushStage where
  | Claimed
  | Written (img : ℕ)
  /-- `my_gen` is taken. -/
  | Bumped (img my_gen : ℕ)
  /-- `synced_gen` was found below `my_gen`. -/
  | Checked (img : ℕ)
  | Covering (img covered_gen : ℕ)
  /-- Inside `sync_all`, which covers what was written when it started. -/
  | Syncing (img covered_gen : ℕ) (snap : PageId → ℕ)
  | Synced (img covered_gen : ℕ)
  /-- The durability decision is complete, `flushing` is still set. -/
  | Durable (img : ℕ)

/-- The image the flush has written, once it has. -/
def FlushStage.image : FlushStage → Option ℕ
  | .Claimed => none
  | .Written img | .Bumped img _ | .Checked img | .Covering img _ | .Syncing img _ _
  | .Synced img _ | .Durable img => some img

structure FlushClaim where
  owner : FlushOwner
  stage : FlushStage

/-- The holder of a frame's `content.write` latch. -/
inductive WriterPc where
  | Free
  | Latched
  /-- `pin_mut` has set `dirty` and returned the guard. -/
  | Marked
  | Appended (lsn : ℕ)
deriving DecidableEq, Repr

structure CkptFrame where
  page_id : PageId := PageId.INVALID
  pin_count : ℕ := 0
  dirty : Bool := false
  evicting : Bool := false
  /-- `meta.flushing`, with the flush that set it. -/
  flushing : Option FlushClaim := none
  writer : WriterPc := .Free
  /-- Write guards that have released the latch and have yet to set `dirty`. -/
  dropping : ℕ := 0
  /-- The `pd_lsn` of the content. -/
  content : ℕ := 0

/-- The pins that write guards stand on. -/
def CkptFrame.guards (r : CkptFrame) : ℕ := (if r.writer = .Free then 0 else 1) + r.dropping

/-- The holder of `allocation_lock`, inside `evict_frame` or past it. -/
inductive EvictPc where
  | Idle
  /-- `evicting` is set; `dirty` as it was found. -/
  | Chosen (f : ℕ) (dirty : Bool)
  | Flushing (f : ℕ)
  /-- The flush failed and `evicting` is still set. -/
  | Restoring (f : ℕ)
  | Ready (f : ℕ)
  | Unmapped (f : ℕ)
  | Empty (f : ℕ)
deriving DecidableEq, Repr

/-- The frame the evictor is at. -/
def EvictPc.frame : EvictPc → Option ℕ
  | .Idle => none
  | .Chosen f _ | .Flushing f | .Restoring f | .Ready f | .Unmapped f | .Empty f => some f

inductive CkptPc where
  | Idle
  /-- Inside `dirty_page_ids`: the frames below `i` are seen, `pages` were dirty. -/
  | Scanning (begin_lsn i : ℕ) (pages : List PageId)
  | Flushing (begin_lsn : ℕ) (pages : List PageId)
  /-- In `flush_frame_write` for frame `f`, before its claim. -/
  | Waiting (begin_lsn f : ℕ) (pages : List PageId)
  | Own (begin_lsn f : ℕ) (pages : List PageId)
  /-- The superblock is written. -/
  | Done (begin_lsn : ℕ)
  | Aborted
deriving DecidableEq, Repr

structure CkptPool where
  frame_count : ℕ
  frames : ℕ → CkptFrame
  page_table : PageId → Option ℕ
  /-- The data file as a read returns it. -/
  written : PageId → ℕ
  /-- The data file as a finished fsync guarantees it. -/
  durable : PageId → ℕ
  clock : ℕ
  /-- The records appended so far that change a page: the page and the LSN. -/
  records : List (PageId × ℕ)
  flush_gen : ℕ
  synced_gen : ℕ
  evictor : EvictPc
  ckpt : CkptPc

/-- A pool that has just been opened on a data file. -/
def CkptPool.open (frame_count clock : ℕ) (data_file : PageId → ℕ) : CkptPool where
  frame_count := frame_count
  frames := fun _ => {}
  page_table := fun _ => none
  written := data_file
  durable := data_file
  clock := clock
  records := []
  flush_gen := 0
  synced_gen := 0
  evictor := .Idle
  ckpt := .Idle

namespace CkptPool

variable (s : CkptPool)

def modify (f : ℕ) (g : CkptFrame → CkptFrame) : CkptPool :=
  { s with frames := Function.update s.frames f (g (s.frames f)) }

/-! ## Steps -/

inductive WriterOp where
  | latch
  | mark_dirty
  | append (size : ℕ)
  | stamp
  | release
  | drop_dirty
  | unpin
deriving DecidableEq, Repr

/-- `pin_mut` after `locate_or_load`, the guard's use and its `drop`. -/
def writer_step (f : ℕ) : WriterOp → Option CkptPool
  | .latch =>
    if (s.frames f).writer = .Free ∧ (s.frames f).dropping < (s.frames f).pin_count then
      some (s.modify f fun r => { r with writer := .Latched })
    else none
  | .mark_dirty =>
    if (s.frames f).writer = .Latched then
      some (s.modify f fun r => { r with writer := .Marked, dirty := true })
    else none
  | .append size =>
    if (s.frames f).writer = .Marked ∧ 0 < size then
      some { (s.modify f fun r => { r with writer := .Appended s.clock }) with
        clock := s.clock + size
        records := ((s.frames f).page_id, s.clock) :: s.records }
    else none
  | .stamp =>
    match (s.frames f).writer with
    | .Appended lsn =>
      some (s.modify f fun r => { r with writer := .Marked, content := max r.content lsn })
    | _ => none
  | .release =>
    if (s.frames f).writer = .Marked then
      some (s.modify f fun r => { r with writer := .Free, dropping := r.dropping + 1 })
    else none
  | .drop_dirty =>
    if 0 < (s.frames f).dropping then
      some (s.modify f fun r =>
        { r with dropping := r.dropping - 1
                 dirty := if r.page_id ≠ PageId.INVALID then true else r.dirty })
    else none
  | .unpin =>
    if (s.frames f).guards < (s.frames f).pin_count then
      some (s.modify f fun r => { r with pin_count := r.pin_count - 1 })
    else none

/-- `try_pin_resident`, under the shard's lock and the frame's. -/
def pin (page_id : PageId) : Option CkptPool :=
  match s.page_table page_id with
  | none => none
  | some f =>
    if (s.frames f).page_id = page_id ∧ (s.frames f).evicting = false then
      some (s.modify f fun r => { r with pin_count := r.pin_count + 1 })
    else none

/-- The guard of the claim in `flush_frame_write`. -/
def Claimable (f : ℕ) : Prop :=
  (s.frames f).dirty = true ∧ (s.frames f).page_id ≠ PageId.INVALID

instance (f : ℕ) : Decidable (s.Claimable f) := inferInstanceAs (Decidable (_ ∧ _))

/-- Set `flushing` and clear `dirty`. -/
def claim (f : ℕ) (owner : FlushOwner) : CkptPool :=
  s.modify f fun r => { r with dirty := false, flushing := some ⟨owner, .Claimed⟩ }

/-- The caller of `flush_frame` goes on with its result. -/
def resume (ok : Bool) : FlushOwner → CkptPool
  | .Other => s
  | .Evictor =>
    match s.evictor with
    | .Flushing f => { s with evictor := if ok then .Ready f else .Restoring f }
    | _ => s
  | .Checkpoint =>
    match s.ckpt with
    | .Own b _ ps => { s with ckpt := if ok then .Flushing b ps else .Aborted }
    | _ => s

/-- The flush goes on to its next stage. -/
def advance (f : ℕ) (owner : FlushOwner) (stage : FlushStage) : CkptPool :=
  s.modify f fun r => { r with flushing := some ⟨owner, stage⟩ }

inductive FlushOp where
  | write
  | bump
  | check
  | load_covered
  | batch
  | sync_start
  | sync_end
  | publish
  | finish
  | fail
deriving DecidableEq, Repr

/-- `flush_frame_write` after the claim, and the rest of `flush_frame`. -/
def flush_step (f : ℕ) (op : FlushOp) : Option CkptPool :=
  match (s.frames f).flushing with
  | none => none
  | some ⟨owner, stage⟩ =>
    match op, stage with
    | .write, .Claimed =>
      -- under `content.read`, so no write guard is out
      if (s.frames f).writer = .Free then
        some { (s.advance f owner (.Written (s.frames f).content)) with
          written := Function.update s.written (s.frames f).page_id (s.frames f).content }
      else none
    | .bump, .Written img =>
      some { (s.advance f owner (.Bumped img (s.flush_gen + 1))) with
        flush_gen := s.flush_gen + 1 }
    | .check, .Bumped img my_gen =>
      if s.synced_gen < my_gen then some (s.advance f owner (.Checked img))
      else some (s.advance f owner (.Durable img))
    | .load_covered, .Checked img => some (s.advance f owner (.Covering img s.flush_gen))
    -- `flush_all_dirty` syncs without a generation; 0 stands for the one no flush has
    | .batch, .Written img => some (s.advance f owner (.Covering img 0))
    | .sync_start, .Covering img covered => some (s.advance f owner (.Syncing img covered s.written))
    | .sync_end, .Syncing img covered snap =>
      some { (s.advance f owner (.Synced img covered)) with
        durable := fun p => max (s.durable p) (snap p) }
    | .publish, .Synced img covered =>
      some { (s.advance f owner (.Durable img)) with synced_gen := max s.synced_gen covered }
    | .finish, .Durable _ =>
      some ((s.modify f fun r => { r with flushing := none }).resume true owner)
    -- the WAL flush, the page write or the fsync failed: the claimed epoch is dirty again
    | .fail, .Claimed | .fail, .Syncing _ _ _ =>
      some ((s.modify f fun r => { r with dirty := true, flushing := none }).resume false owner)
    | _, _ => none

inductive EvictOp where
  | choose (f : ℕ)
  | flush
  | unmap
  | reset
  | load (page_id : PageId)
  | abandon
  | restore
deriving DecidableEq, Repr

/-- `evict_frame` and the rest of `alloc_frame`, all under `allocation_lock`. -/
def evict_step (op : EvictOp) : Option CkptPool :=
  match op, s.evictor with
  | .choose f, .Idle =>
    if f < s.frame_count ∧ (s.frames f).pin_count = 0 ∧ (s.frames f).evicting = false ∧
        (s.frames f).flushing.isNone then
      some { (s.modify f fun r => { r with evicting := true }) with
        evictor := .Chosen f (s.frames f).dirty }
    else none
  | .flush, .Chosen f true =>
    -- waits on `flush_done` while another flush is in flight
    if (s.frames f).flushing.isSome then none
    else if s.Claimable f then some { (s.claim f .Evictor) with evictor := .Flushing f }
    else some { s with evictor := .Ready f }
  | .unmap, .Chosen f false | .unmap, .Ready f =>
    some { s with
      page_table := if (s.frames f).page_id ≠ PageId.INVALID then
        Function.update s.page_table (s.frames f).page_id none else s.page_table
      evictor := .Unmapped f }
  | .reset, .Unmapped f =>
    some { (s.modify f fun r =>
        { r with page_id := PageId.INVALID, pin_count := 0, dirty := false, evicting := false,
                 flushing := none }) with
      evictor := .Empty f }
  | .load page_id, .Empty f =>
    -- the content is read before the frame is visible to anyone else
    if page_id ≠ PageId.INVALID ∧ s.page_table page_id = none then
      some { (s.modify f fun r =>
          { r with page_id := page_id, pin_count := 1, dirty := false,
                   content := s.written page_id }) with
        page_table := Function.update s.page_table page_id (some f)
        evictor := .Idle }
    else none
  | .abandon, .Empty _ => some { s with evictor := .Idle }
  | .restore, .Restoring f =>
    some { (s.modify f fun r => { r with evicting := false }) with evictor := .Idle }
  | _, _ => none

inductive CkptOp where
  | begin (size : ℕ)
  | scan
  | collected
  | lookup
  | flush
  | superblock
  | abort
deriving DecidableEq, Repr

/-- `trigger_checkpoint`, as far as pages go. -/
def ckpt_step (op : CkptOp) : Option CkptPool :=
  match op, s.ckpt with
  | .begin size, .Idle =>
    if 0 < size then some { s with clock := s.clock + size, ckpt := .Scanning s.clock 0 [] }
    else none
  | .scan, .Scanning b i ps =>
    if i < s.frame_count then
      let seen := if s.Claimable i then ps ++ [(s.frames i).page_id] else ps
      some { s with ckpt := .Scanning b (i + 1) seen }
    else none
  | .collected, .Scanning b i ps =>
    if i < s.frame_count then none else some { s with ckpt := .Flushing b ps }
  | .lookup, .Flushing b (p :: ps) =>
    match s.page_table p with
    -- `PageNotFound`: evicted, hence flushed
    | none => some { s with ckpt := .Flushing b ps }
    | some f => some { s with ckpt := .Waiting b f ps }
  | .flush, .Waiting b f ps =>
    if (s.frames f).flushing.isSome then none
    else if s.Claimable f then some { (s.claim f .Checkpoint) with ckpt := .Own b f ps }
    else some { s with ckpt := .Flushing b ps }
  | .superblock, .Flushing b [] => some { s with ckpt := .Done b }
  | .abort, .Flushing _ _ => some { s with ckpt := .Aborted }
  | _, _ => none

inductive Op where
  | pin (page_id : PageId)
  | writer (f : ℕ) (op : WriterOp)
  /-- A record that changes no page of the pool. -/
  | log (size : ℕ)
  /-- `flush_frame_write` claims, for `flush` or `flush_all_dirty`. -/
  | claim (f : ℕ)
  | flush (f : ℕ) (op : FlushOp)
  | evict (op : EvictOp)
  | ckpt (op : CkptOp)
deriving DecidableEq, Repr

def step : Op → Option CkptPool
  | .pin page_id => s.pin page_id
  | .writer f op => s.writer_step f op
  | .log size => some { s with clock := s.clock + size }
  | .claim f =>
    if (s.frames f).flushing.isNone ∧ s.Claimable f then some (s.claim f .Other) else none
  | .flush f op => s.flush_step f op
  | .evict op => s.evict_step op
  | .ckpt op => s.ckpt_step op

end CkptPool

/-- What the redo from `begin_lsn` relies on. -/
def CheckpointComplete (s : CkptPool) (begin_lsn : ℕ) : Prop :=
  ∀ p lsn, (p, lsn) ∈ s.records → lsn < begin_lsn → lsn ≤ s.durable p

/-- The frame `dirty_page_ids` looks at next. -/
def CkptPc.scanned : CkptPc → Option ℕ
  | .Scanning _ i _ => some i
  | _ => none

/-- `dirty_page_ids` does not come across a frame that another flush has claimed and
nobody has dirtied since. -/
def CkptPool.ScanOk (s : CkptPool) : CkptPool.Op → Prop
  | .ckpt .scan =>
    ∀ i ∈ s.ckpt.scanned, (s.frames i).flushing.isSome = true → (s.frames i).dirty = true
  | _ => True

instance (s : CkptPool) : ∀ op, Decidable (s.ScanOk op)
  | .ckpt .scan =>
    inferInstanceAs (Decidable (∀ i ∈ s.ckpt.scanned,
      (s.frames i).flushing.isSome = true → (s.frames i).dirty = true))
  | .ckpt (.begin _) | .ckpt .collected | .ckpt .lookup | .ckpt .flush | .ckpt .superblock
  | .ckpt .abort | .pin _ | .writer _ _ | .log _ | .claim _ | .flush _ _ | .evict _ =>
    isTrue trivial

/-- A writer changes page 7 and drops its guard; a flush claims the frame; the
checkpoint runs from begin to superblock. -/
def claimed_frame_run : List CkptPool.Op :=
  [.evict (.choose 0), .evict .unmap, .evict .reset, .evict (.load 7), .writer 0 .latch,
    .writer 0 .mark_dirty, .writer 0 (.append 50), .writer 0 .stamp, .writer 0 .release,
    .writer 0 .drop_dirty, .writer 0 .unpin, .claim 0, .ckpt (.begin 30), .ckpt .scan,
    .ckpt .collected, .ckpt .superblock]

/-- **The checkpoint misses a frame another flush has claimed.** The record at LSN 100 is
before the redo point 150 and is not on the disk's page. -/
theorem checkpoint_misses_claimed_frame :
    ∃ t, run CkptPool.step (CkptPool.open 1 100 fun _ => 0) claimed_frame_run = some t ∧
      t.ckpt = .Done 150 ∧ ¬ CheckpointComplete t 150 := by
  refine exists_of_map_eq (fun t => (t.ckpt, t.records, t.durable 7))
    (b := (.Done 150, [(7, 100)], 0)) (by decide +kernel) fun t _ hsnap => ?_
  simp only [Prod.mk.injEq] at hsnap
  obtain ⟨hckpt, hrecords, hdurable⟩ := hsnap
  refine ⟨hckpt, fun hcomplete => ?_⟩
  have hlsn := hcomplete 7 100 (by rw [hrecords]; exact List.mem_singleton_self _) (by omega)
  rw [hdurable] at hlsn
  omega

end Ams
