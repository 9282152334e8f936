/-
The buffer pool: `pg-storage/src/buffer_pool.rs`.

Pages live in the data file and, while in use, in one of a fixed number of frames.
A sharded table says which frame a page is in; a page that is not in it is loaded
into a frame the CLOCK hand picks, whose old page is written back first if it is
dirty. This module is the code of one caller, call after call: between calls no
guard is held, and a lock is never contended.

Any operation on the data file or the log may fail, and the first that does ends the
call, so a call is given a `PoolIo` that says how many operations succeed. A write
that fails may leave anything in its page's place on disk.

With one caller there are two places where the code could wait for something that
nobody will do: a flush of a frame that is mid-flush, and the retry loop of
`alloc_frame`. The model says `Waits` there, and that no call ever does is part of
what is proved.
-/
import Ams.SlottedPage
import Ams.WalRecord

set_option autoImplicit false

namespace Ams

open Ams.Lib

/-! ## Frames -/

structure FrameMeta where
  page_id : PageId := PageId.INVALID
  pin_count : ℕ := 0
  dirty : Bool := false
  reference : Bool := false
  cached_lsn : Lsn := Lsn.INVALID
  first_dirty_lsn : Lsn := Lsn.INVALID
  needs_fpi : Bool := false
  evicting : Bool := false
  flushing : Bool := false
deriving DecidableEq, Repr

structure Frame where
  /-- `meta` in the source. -/
  frame_meta : FrameMeta
  content : Page

def Frame.empty : Frame := ⟨{}, Page.zero⟩

/-- The pool with the data file. Only the first `frame_count` frames are ever used. -/
structure BufferPool where
  frame_count : ℕ
  shards : ℕ
  frames : ℕ → Frame
  /-- Shard by shard. -/
  page_table : ℕ → PageId → Option ℕ
  clock_hand : ℕ
  checkpoint_lsn : Lsn
  flush_gen : ℕ
  synced_gen : ℕ
  data_file : PageId → Page

/-- What the data file and the log do during one call. -/
structure PoolIo where
  /-- Operations that succeed before one fails; `none` if none fails. -/
  budget : Option ℕ
  error : StorageError
  /-- What a failing read or write leaves. -/
  torn : Page
  current_lsn : ℕ
  synced_lsn : ℕ

/-- How a call that returns no value ends. -/
inductive PoolStop where
  | Failed (e : StorageError)
  /-- It waits for another thread. -/
  | Waits

def PoolIo.op (io : PoolIo) : Except PoolStop PoolIo :=
  match io.budget with
  | none => .ok io
  | some 0 => .error (.Failed io.error)
  | some (n + 1) => .ok { io with budget := some n }

/-- `BufferPool::open`, on a data file. -/
def BufferPool.open (frame_count shards : ℕ) (data_file : PageId → Page) : BufferPool where
  frame_count := frame_count
  shards := shards
  frames := fun _ => Frame.empty
  page_table := fun _ _ => none
  clock_hand := 0
  checkpoint_lsn := Lsn.INVALID
  flush_gen := 0
  synced_gen := 0
  data_file := data_file

namespace BufferPool

variable (s : BufferPool)

/-- Change one frame. -/
def modify (f : ℕ) (g : Frame → Frame) : BufferPool :=
  { s with frames := Function.update s.frames f (g (s.frames f)) }

def modify_meta (f : ℕ) (g : FrameMeta → FrameMeta) : BufferPool :=
  s.modify f fun frame => { frame with frame_meta := g frame.frame_meta }

def shard_index (page_id : PageId) : ℕ := page_id % s.shards

/-- The frame the table gives for a page. -/
def lookup (page_id : PageId) : Option ℕ := s.page_table (s.shard_index page_id) page_id

/-! ## Flushing -/

/-- `restore_first_dirty_lsn`: the older of two anchors. -/
def restore_first_dirty_lsn (current saved : Lsn) : Lsn :=
  if saved ≠ Lsn.INVALID ∧ (current = Lsn.INVALID ∨ saved < current) then saved else current

/-- A flush that failed: the page is dirty again. -/
def restore_dirty (f : ℕ) (saved : Lsn) : BufferPool :=
  s.modify_meta f fun m =>
    { m with
      dirty := true
      first_dirty_lsn := restore_first_dirty_lsn m.first_dirty_lsn saved
      flushing := false }

/-- Make the log durable up to a page's LSN, unless it is or the LSN is not the log's. -/
def wal_before_data (page_lsn : Lsn) (io : PoolIo) : Except PoolStop PoolIo :=
  if page_lsn ≠ Lsn.INVALID ∧ page_lsn ≤ io.current_lsn ∧ io.synced_lsn ≤ page_lsn then
    match io.op with
    | .error e => .error e
    | .ok io => .ok { io with synced_lsn := io.current_lsn }
  else .ok io

/-- The write half of a flush. The result is the saved `first_dirty_lsn` of the claim, or
`none` if the frame was clean. -/
def flush_frame_write (f : ℕ) (io : PoolIo) :
    BufferPool × Except PoolStop (Option Lsn × PoolIo) :=
  let frame_meta := (s.frames f).frame_meta
  if frame_meta.flushing then (s, .error .Waits)
  else if frame_meta.dirty = false ∨ frame_meta.page_id = PageId.INVALID then (s, .ok (none, io))
  else
    let saved := frame_meta.first_dirty_lsn
    let s := s.modify_meta f fun m =>
      { m with flushing := true, dirty := false, first_dirty_lsn := Lsn.INVALID }
    let content := (s.frames f).content
    match wal_before_data (page_pd_lsn content) io with
    | .error e => (s.restore_dirty f saved, .error e)
    | .ok io =>
      match io.op with
      | .error e =>
        (({ s with data_file := Function.update s.data_file frame_meta.page_id io.torn }).restore_dirty
          f saved, .error e)
      | .ok io =>
        (({ s with data_file := Function.update s.data_file frame_meta.page_id content }).modify_meta f
          fun m => { m with needs_fpi := true }, .ok (some saved, io))

def flush_frame (f : ℕ) (io : PoolIo) : BufferPool × Except PoolStop PoolIo :=
  match s.flush_frame_write f io with
  | (s, .error e) => (s, .error e)
  | (s, .ok (none, io)) => (s, .ok io)
  | (s, .ok (some saved, io)) =>
    let my_gen := s.flush_gen + 1
    let s := { s with flush_gen := my_gen }
    if s.synced_gen < my_gen then
      match io.op with
      | .error e => (s.restore_dirty f saved, .error e)
      | .ok io =>
        (({ s with synced_gen := max s.synced_gen my_gen }).modify_meta f
          fun m => { m with flushing := false }, .ok io)
    else (s.modify_meta f fun m => { m with flushing := false }, .ok io)

def flush (page_id : PageId) (io : PoolIo) : BufferPool × Except PoolStop PoolIo :=
  if page_id = PageId.INVALID then
    (s, .error (.Failed (.InvalidConfig "cannot flush PageId::INVALID")))
  else
    match s.lookup page_id with
    | none => (s, .error (.Failed (.PageNotFound page_id)))
    | some f => s.flush_frame f io

def dirty_page_ids : List PageId :=
  (List.range s.frame_count).filterMap fun f =>
    let frame_meta := (s.frames f).frame_meta
    if frame_meta.dirty = true ∧ frame_meta.page_id ≠ PageId.INVALID then some frame_meta.page_id else none

/-- The writes of a batch; the frames claimed so far are kept when one fails. -/
def claim_all_dirty_writes : List PageId → BufferPool → PoolIo → List (ℕ × Lsn) →
    BufferPool × List (ℕ × Lsn) × Except PoolStop PoolIo
  | [], s, io, pending => (s, pending, .ok io)
  | page_id :: rest, s, io, pending =>
    match s.lookup page_id with
    | none => claim_all_dirty_writes rest s io pending
    | some f =>
      match s.flush_frame_write f io with
      | (s, .error e) => (s, pending, .error e)
      | (s, .ok (none, io)) => claim_all_dirty_writes rest s io pending
      | (s, .ok (some saved, io)) => claim_all_dirty_writes rest s io (pending ++ [(f, saved)])

def restore_all (pending : List (ℕ × Lsn)) : BufferPool :=
  pending.foldl (fun s claim => s.restore_dirty claim.1 claim.2) s

def release_all (pending : List (ℕ × Lsn)) : BufferPool :=
  pending.foldl (fun s claim => s.modify_meta claim.1 fun m => { m with flushing := false }) s

/-- One fsync for the whole batch; the number of pages written. -/
def flush_all_dirty (io : PoolIo) : BufferPool × Except PoolStop (ℕ × PoolIo) :=
  match claim_all_dirty_writes s.dirty_page_ids s io [] with
  | (s, pending, .error e) => (s.restore_all pending, .error e)
  | (s, pending, .ok io) =>
    if pending = [] then (s, .ok (0, io))
    else
      match io.op with
      | .error e => (s.restore_all pending, .error e)
      | .ok io => (s.release_all pending, .ok (pending.length, io))

/-! ## Finding a frame -/

/-- Take the old page out of a frame. -/
def vacate (f : ℕ) (old_page_id : PageId) : BufferPool :=
  let s := if old_page_id = PageId.INVALID then s else
    { s with page_table := fun shard p =>
        if shard = s.shard_index old_page_id ∧ p = old_page_id then none else s.page_table shard p }
  s.modify_meta f fun _ => {}

/-- Write the victim back if it is dirty, and take it out of its frame. -/
def evict_victim (hand : ℕ) (io : PoolIo) : BufferPool × Except PoolStop (ℕ × PoolIo) :=
  let frame_meta := (s.frames hand).frame_meta
  let s := s.modify_meta hand fun m => { m with evicting := true }
  match if frame_meta.dirty = true ∧ frame_meta.page_id ≠ PageId.INVALID then s.flush_frame hand io
    else (s, .ok io) with
  | (s, .error e) => (s.modify_meta hand fun m => { m with evicting := false }, .error e)
  | (s, .ok io) => (s.vacate hand frame_meta.page_id, .ok (hand, io))

/-- The CLOCK scan of `evict_frame`. -/
def evict_scan : ℕ → BufferPool → PoolIo → BufferPool × Except PoolStop (ℕ × PoolIo)
  | 0, s, _ => (s, .error (.Failed .BufferPoolFull))
  | scans + 1, s, io =>
    let hand := s.clock_hand % s.frame_count
    let s := { s with clock_hand := s.clock_hand + 1 }
    let frame_meta := (s.frames hand).frame_meta
    if 0 < frame_meta.pin_count ∨ frame_meta.evicting = true ∨ frame_meta.flushing = true then
      evict_scan scans s io
    else if frame_meta.reference then
      evict_scan scans (s.modify_meta hand fun m => { m with reference := false }) io
    else s.evict_victim hand io

def evict_frame (io : PoolIo) : BufferPool × Except PoolStop (ℕ × PoolIo) :=
  if s.frame_count = 0 then (s, .error (.Failed .BufferPoolFull))
  else evict_scan (s.frame_count * 2) s io

def try_pin_resident (page_id : PageId) : Option (BufferPool × ℕ) :=
  match s.lookup page_id with
  | none => none
  | some f =>
    let frame_meta := (s.frames f).frame_meta
    if frame_meta.page_id ≠ page_id ∨ frame_meta.evicting = true then none
    else
      some (s.modify_meta f fun m => { m with pin_count := m.pin_count + 1, reference := true }, f)

/-- A failed read leaves the frame's content undefined. -/
def read_page_from_disk (page_id : PageId) (f : ℕ) (io : PoolIo) :
    BufferPool × Except PoolStop PoolIo :=
  match io.op with
  | .error e => (s.modify f fun frame => { frame with content := io.torn }, .error e)
  | .ok io => (s.modify f fun frame => { frame with content := s.data_file page_id }, .ok io)

/-- Hand the frame to a page. -/
def install (f : ℕ) (page_id : PageId) : BufferPool :=
  let s := s.modify f fun frame =>
    { frame with frame_meta :=
        { frame.frame_meta with
          page_id
          pin_count := 1
          reference := true
          dirty := false
          cached_lsn := page_pd_lsn frame.content
          first_dirty_lsn := Lsn.INVALID
          needs_fpi := true } }
  { s with page_table := fun shard p =>
      if shard = s.shard_index page_id ∧ p = page_id then some f else s.page_table shard p }

def alloc_frame (page_id : PageId) (load_from_disk : Bool) (io : PoolIo) :
    BufferPool × Except PoolStop (ℕ × PoolIo) :=
  match s.try_pin_resident page_id with
  | some (s, f) => (s, .ok (f, io))
  | none =>
    if (s.lookup page_id).isSome then (s, .error .Waits)
    else
      match s.evict_frame io with
      | (s, .error e) => (s, .error e)
      | (s, .ok (f, io)) =>
        let s := s.modify f fun frame => { frame with content := Page.zero }
        match if load_from_disk then s.read_page_from_disk page_id f io else (s, .ok io) with
        | (s, .error e) => (s, .error e)
        | (s, .ok io) => (s.install f page_id, .ok (f, io))

def locate_or_load (page_id : PageId) (io : PoolIo) : BufferPool × Except PoolStop (ℕ × PoolIo) :=
  match s.try_pin_resident page_id with
  | some (s, f) => (s, .ok (f, io))
  | none => s.alloc_frame page_id true io

/-! ## Guards -/

def unpin (f : ℕ) : BufferPool := s.modify_meta f fun m => { m with pin_count := m.pin_count - 1 }

/-- `PageGuardMut::drop`. -/
def drop_mut (f : ℕ) : BufferPool :=
  let s := s.modify f fun frame =>
    if frame.frame_meta.page_id = PageId.INVALID then frame
    else
      { frame with frame_meta :=
          { frame.frame_meta with
            first_dirty_lsn := if frame.frame_meta.first_dirty_lsn = Lsn.INVALID
              then page_pd_lsn frame.content else frame.frame_meta.first_dirty_lsn
            dirty := true } }
  s.unpin f

/-- The full-page image of a page's first change in a checkpoint cycle stamps the page with
its LSN. -/
def ensure_fpi (f : ℕ) (io : PoolIo) : BufferPool × Except PoolStop PoolIo :=
  let frame := s.frames f
  let page_lsn := page_pd_lsn frame.content
  if ¬ (frame.frame_meta.needs_fpi = true ∧ s.checkpoint_lsn ≠ Lsn.INVALID ∧ page_lsn < s.checkpoint_lsn)
  then (s, .ok io)
  else
    match io.op with
    | .error e => (s, .error e)
    | .ok io =>
      let fpi_lsn := io.current_lsn
      (s.modify f fun frame =>
        { frame_meta :=
            { frame.frame_meta with
              cached_lsn := fpi_lsn
              first_dirty_lsn := if frame.frame_meta.first_dirty_lsn = Lsn.INVALID
                then fpi_lsn else frame.frame_meta.first_dirty_lsn
              dirty := true }
          content := set_page_pd_lsn frame.content fpi_lsn }, .ok io)

/-- The life of a write guard: the caller changes the page and drops it. -/
def use_mut (f : ℕ) (change : Page → Page) : BufferPool :=
  (s.modify f fun frame => { frame with content := change frame.content }).drop_mut f

/-! ## Calls -/

/-- What a call gives its caller: the page a read guard showed; the page a write guard
showed, and what it left. -/
inductive PoolReply where
  | Read (page : Page)
  | Wrote (page_id : PageId) (seen left : Page)
  | Done

/-- `pin`, and the drop of its guard. -/
def pin (page_id : PageId) (io : PoolIo) : BufferPool × Except PoolStop PoolReply :=
  if page_id = PageId.INVALID then
    (s, .error (.Failed (.InvalidConfig "cannot pin PageId::INVALID")))
  else
    match s.locate_or_load page_id io with
    | (s, .error e) => (s, .error e)
    | (s, .ok (f, _)) => (s.unpin f, .ok (.Read (s.frames f).content))

/-- `pin_mut`, the caller's changes and the drop of its guard. -/
def pin_mut (page_id : PageId) (change : Page → Page) (io : PoolIo) :
    BufferPool × Except PoolStop PoolReply :=
  if page_id = PageId.INVALID then
    (s, .error (.Failed (.InvalidConfig "cannot pin_mut PageId::INVALID")))
  else
    match s.locate_or_load page_id io with
    | (s, .error e) => (s, .error e)
    | (s, .ok (f, io)) =>
      let s := s.modify_meta f fun m => { m with dirty := true }
      match s.ensure_fpi f io with
      | (s, .error e) => (s.drop_mut f, .error e)
      | (s, .ok _) =>
        let seen := (s.frames f).content
        (s.use_mut f change, .ok (.Wrote page_id seen (change seen)))

/-- `new_page`, for a page the allocator has given out. -/
def new_page (page_id : PageId) (change : Page → Page) (io : PoolIo) :
    BufferPool × Except PoolStop PoolReply :=
  match s.alloc_frame page_id false io with
  | (s, .error e) => (s, .error e)
  | (s, .ok (f, _)) =>
    let s := s.modify_meta f fun m => { m with needs_fpi := false, dirty := true }
    let seen := (s.frames f).content
    (s.use_mut f change, .ok (.Wrote page_id seen (change seen)))

end BufferPool

inductive PoolCall where
  | pin (page_id : PageId)
  | pin_mut (page_id : PageId) (change : Page → Page)
  /-- With the page the allocator gives out. -/
  | new_page (page_id : PageId) (change : Page → Page)
  | flush (page_id : PageId)
  | flush_all_dirty
  | set_checkpoint_lsn (lsn : Lsn)

def BufferPool.call (s : BufferPool) (io : PoolIo) :
    PoolCall → BufferPool × Except PoolStop BufferPool.PoolReply
  | .pin page_id => s.pin page_id io
  | .pin_mut page_id change => s.pin_mut page_id change io
  | .new_page page_id change => s.new_page page_id change io
  | .flush page_id =>
    match s.flush page_id io with
    | (s, r) => (s, r.map fun _ => .Done)
  | .flush_all_dirty =>
    match s.flush_all_dirty io with
    | (s, r) => (s, r.map fun _ => .Done)
  | .set_checkpoint_lsn lsn => ({ s with checkpoint_lsn := lsn }, .ok .Done)

end Ams
