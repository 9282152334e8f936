/-
The page allocator across crashes: which pages it hands out, what a checkpoint saves of
it, and what recovery rebuilds.

A checkpoint saves the allocator in two places at two times. The freelist is copied when
`CheckpointBegin` is appended, and goes to a file of its own, whose write may fail; the
next page id is read later and goes to the superblock. Recovery starts from the
superblock's id, takes the freelist from the file only if it is of the same checkpoint, and
replays the log from `CheckpointBegin`. Records after it may be reflected in what was saved
or not, so replay has to absorb both.

# The argument

The log itself is well formed (`WellFormed`): pages are allocated in order, and only an
allocated page is freed. This is a property of every cut of the log, so a crash keeps it.
Whether a page is free is decided by its last record (`Free`). Replaying a tail over a list
of pages that were free at its start gives pages that are free at its end, whatever the
list left out; so a freelist that is lost or stale costs pages and nothing else.

An LSN is the position of a record in the log, counted from 1.
-/
import Ams.SlottedPage
import Ams.Lib.Run

set_option autoImplicit false

namespace Ams

open Lib

/-! ## The allocator -/

abbrev DATA_FILE_GROWTH_BYTES : ℕ := 1024 * 1024

/-- A record of the log, as far as the allocator reads it. -/
inductive AllocRecord where
  | PageAlloc (page_id : ℕ)
  | PageFree (page_id : ℕ)
  | CheckpointBegin
  | CheckpointEnd (checkpoint_lsn next_page_id : ℕ)
  | other
deriving DecidableEq

/-- The last element of the freelist is the first to be reused. -/
structure PageAllocator where
  current_file_len : ℕ
  next_page_id : ℕ
  freelist : List ℕ
  recovery_applied : Bool
deriving DecidableEq

namespace PageAllocator

/-- `none` is a failed extension of the data file. -/
def ensure_data_file_capacity (pa : PageAllocator) (page_id : ℕ) (set_len_ok : Bool) :
    Option PageAllocator :=
  let required := page_id * PAGE_SIZE
  if pa.current_file_len < required then
    if set_len_ok then
      let target := (required + DATA_FILE_GROWTH_BYTES - 1) / DATA_FILE_GROWTH_BYTES *
        DATA_FILE_GROWTH_BYTES
      some { pa with current_file_len := target }
    else none
  else some pa

/-- `alloc_page`, and the page if the call returned one: its record has then been
appended. A page taken off the freelist by a call that fails later is not put back. -/
def alloc_page (pa : PageAllocator) (set_len_ok append_ok : Bool) : PageAllocator × Option ℕ :=
  if PAGE_SIZE ≤ pa.current_file_len ∧ pa.next_page_id = 1 ∧ pa.recovery_applied = false then
    (pa, none)
  else
    let page_id := pa.freelist.getLast?.getD pa.next_page_id
    let pa := { pa with freelist := pa.freelist.dropLast }
    match pa.ensure_data_file_capacity page_id set_len_ok with
    | none => (pa, none)
    | some pa =>
      if append_ok then
        ({ pa with next_page_id :=
            if page_id = pa.next_page_id then pa.next_page_id + 1 else pa.next_page_id },
          some page_id)
      else (pa, none)

/-- `free_page`, and whether it was accepted. -/
def free_page (pa : PageAllocator) (page_id : ℕ) (append_ok : Bool) : PageAllocator × Bool :=
  if page_id = 0 then (pa, false)
  else if pa.next_page_id ≤ page_id then (pa, false)
  else if page_id ∈ pa.freelist then (pa, false)
  else if append_ok then ({ pa with freelist := pa.freelist ++ [page_id] }, true)
  else (pa, false)

/-- Replay of a `PageAlloc`; extending the data file succeeds. -/
def apply_page_alloc (pa : PageAllocator) (page_id : ℕ) : PageAllocator :=
  let pa := { pa with
    next_page_id := if pa.next_page_id ≤ page_id then page_id + 1 else pa.next_page_id
    freelist := pa.freelist.filter (· ≠ page_id) }
  let pa := (pa.ensure_data_file_capacity page_id true).getD pa
  { pa with recovery_applied := true }

def apply_page_free (pa : PageAllocator) (page_id : ℕ) : PageAllocator :=
  if page_id ∈ pa.freelist then pa
  else { pa with freelist := pa.freelist ++ [page_id], recovery_applied := true }

def replay_record (pa : PageAllocator) : AllocRecord → PageAllocator
  | .PageAlloc p => pa.apply_page_alloc p
  | .PageFree p => pa.apply_page_free p
  | _ => pa

end PageAllocator

/-! ## Checkpoints and recovery -/

structure FreelistMeta where
  checkpoint_lsn : ℕ
  page_ids : List ℕ
deriving DecidableEq

/-- The superblock's fields the allocator is recovered from; 0 is no checkpoint. -/
structure AllocSuperblock where
  checkpoint_lsn : ℕ
  next_page_id : ℕ
deriving DecidableEq

/-- How the write of the freelist file ends. An error may leave the old file, the new one
or, after a crash, none that reads. -/
inductive SnapshotIo where
  | written
  | unchanged
  | unreadable

/-- Where a checkpoint is: what it holds of the allocator after each of its steps. -/
inductive CheckpointPhase where
  | idle
  | begun (snap : FreelistMeta)
  | next_read (snap : FreelistMeta) (next_page_id : ℕ)
  | ended (snap : FreelistMeta) (next_page_id end_boundary : ℕ)
  | flushed (snap : FreelistMeta) (next_page_id : ℕ)
  | snapshot_written (checkpoint_lsn next_page_id : ℕ)

/-- The records from an LSN on; with no checkpoint, all of them. -/
def records_from (log : List AllocRecord) (lsn : ℕ) : List AllocRecord := log.drop (lsn - 1)

/-- What `recover_inner` makes of the allocator. -/
def recover_allocator (sb : AllocSuperblock) (snap : Option FreelistMeta) (file_len : ℕ)
    (log : List AllocRecord) : PageAllocator :=
  let freelist := match snap with
    | some snap => if snap.checkpoint_lsn = sb.checkpoint_lsn then snap.page_ids else []
    | none => []
  let pa := (records_from log sb.checkpoint_lsn).foldl PageAllocator.replay_record
    ⟨file_len, sb.next_page_id, freelist, false⟩
  { pa with recovery_applied := true }

/-- The allocator, the log with how much of it is synced, and the files. -/
structure AllocSys where
  pa : PageAllocator
  log : List AllocRecord
  synced : ℕ
  sb : AllocSuperblock
  snap : Option FreelistMeta
  phase : CheckpointPhase

inductive AllocOp where
  | alloc_page (set_len_ok append_ok : Bool)
  | free_page (page_id : ℕ) (append_ok : Bool)
  | append_other
  | sync (upto : ℕ)
  | checkpoint_begin
  | checkpoint_next
  | checkpoint_end
  | checkpoint_flush
  | checkpoint_snapshot (io : SnapshotIo)
  | checkpoint_superblock
  | checkpoint_fails
  | crash (kept : ℕ)

namespace AllocSys

/-- A new database. -/
def create : AllocSys :=
  ⟨⟨0, 1, [], false⟩, [], 0, ⟨0, 1⟩, none, .idle⟩

def step (s : AllocSys) : AllocOp → Option AllocSys
  | .alloc_page set_len_ok append_ok =>
    match s.pa.alloc_page set_len_ok append_ok with
    | (pa, some p) => some { s with pa := pa, log := s.log ++ [.PageAlloc p] }
    | (pa, none) => some { s with pa := pa }
  | .free_page p append_ok =>
    match s.pa.free_page p append_ok with
    | (pa, true) => some { s with pa := pa, log := s.log ++ [.PageFree p] }
    | (pa, false) => some { s with pa := pa }
  | .append_other => some { s with log := s.log ++ [.other] }
  | .sync upto =>
    if s.synced ≤ upto ∧ upto ≤ s.log.length then some { s with synced := upto } else none
  | .checkpoint_begin =>
    -- the record and the copy of the freelist are one step under the allocator's lock
    match s.phase with
    | .idle => some { s with
        log := s.log ++ [.CheckpointBegin]
        phase := .begun ⟨s.log.length + 1, s.pa.freelist⟩ }
    | _ => none
  | .checkpoint_next =>
    match s.phase with
    | .begun snap => some { s with phase := .next_read snap s.pa.next_page_id }
    | _ => none
  | .checkpoint_end =>
    match s.phase with
    | .next_read snap next => some { s with
        log := s.log ++ [.CheckpointEnd snap.checkpoint_lsn next]
        phase := .ended snap next (s.log.length + 1) }
    | _ => none
  | .checkpoint_flush =>
    -- `flush_to` returns when the worker has synced up to the boundary
    match s.phase with
    | .ended snap next end_boundary =>
      if end_boundary ≤ s.synced then some { s with phase := .flushed snap next } else none
    | _ => none
  | .checkpoint_snapshot io =>
    match s.phase with
    | .flushed snap next => some { s with
        snap := match io with
          | .written => some snap
          | .unchanged => s.snap
          | .unreadable => none
        phase := .snapshot_written snap.checkpoint_lsn next }
    | _ => none
  | .checkpoint_superblock =>
    match s.phase with
    | .snapshot_written lsn next => some { s with sb := ⟨lsn, next⟩, phase := .idle }
    | _ => none
  | .checkpoint_fails => some { s with phase := .idle }
  | .crash kept =>
    if s.synced ≤ kept ∧ kept ≤ s.log.length then
      some { s with
        pa := recover_allocator s.sb s.snap s.pa.current_file_len (s.log.take kept)
        log := s.log.take kept
        synced := kept
        phase := .idle }
    else none

end AllocSys

/-! ## What the log says -/

/-- The record is about the page. -/
def AllocRecord.touches (p : ℕ) : AllocRecord → Bool
  | .PageAlloc q => q == p
  | .PageFree q => q == p
  | _ => false

/-- The last record about a page. -/
def last_record (log : List AllocRecord) (p : ℕ) : Option AllocRecord :=
  log.foldl (fun last r => if r.touches p then some r else last) none

/-- The page is free according to the log. -/
def Free (log : List AllocRecord) (p : ℕ) : Prop := last_record log p = some (.PageFree p)

/-- The page is allocated and not freed. -/
def Live (log : List AllocRecord) (p : ℕ) : Prop := last_record log p = some (.PageAlloc p)

theorem last_record_append (log : List AllocRecord) (r : AllocRecord) (p : ℕ) :
    last_record (log ++ [r]) p = if r.touches p then some r else last_record log p := by
  unfold last_record
  rw [List.foldl_append]
  rfl

variable {log : List AllocRecord}

theorem mem_of_last_record {p : ℕ} {r : AllocRecord} (h : last_record log p = some r) : r ∈ log := by
  induction log using List.reverseRecOn with
  | nil => exact absurd h (by simp [last_record])
  | append_singleton log x ih =>
    rw [last_record_append] at h
    by_cases hx : x.touches p = true
    · rw [if_pos hx] at h
      rw [← Option.some.inj h]
      exact List.mem_append_right _ (.head _)
    · rw [if_neg hx] at h
      exact List.mem_append_left _ (ih h)

/-- A record that a log may go on with: pages are allocated in order, and a page is freed
only once it has been allocated. -/
def AllocRecord.OkAfter (log : List AllocRecord) : AllocRecord → Prop
  | .PageAlloc q => 1 ≤ q ∧ ∀ p, 1 ≤ p → p < q → .PageAlloc p ∈ log
  | .PageFree p => .PageAlloc p ∈ log
  | _ => True

def WellFormed (log : List AllocRecord) : Prop :=
  ∀ pre r post, log = pre ++ r :: post → r.OkAfter pre

theorem WellFormed.append {r : AllocRecord} (h : WellFormed log) (hr : r.OkAfter log) :
    WellFormed (log ++ [r]) := by
  intro pre x post heq
  rcases List.eq_nil_or_concat post with rfl | ⟨post, y, rfl⟩
  · obtain ⟨rfl, hx⟩ := List.append_inj' heq rfl
    rw [← List.head_eq_of_cons_eq hx]
    exact hr
  · rw [List.concat_eq_append, ← List.cons_append, ← List.append_assoc] at heq
    exact h pre x post (List.append_inj' heq rfl).1

theorem WellFormed.take (h : WellFormed log) (k : ℕ) :
    WellFormed (log.take k) := by
  intro pre r post heq
  refine h pre r (post ++ log.drop k) ?_
  rw [← List.cons_append, ← List.append_assoc, ← heq, List.take_append_drop]

/-- Every page below `n` has been allocated. -/
def Filled (log : List AllocRecord) (n : ℕ) : Prop := ∀ p, 1 ≤ p → p < n → .PageAlloc p ∈ log

theorem Filled.mono {log' : List AllocRecord} {n : ℕ} (h : Filled log n) (hsub : log ⊆ log') :
    Filled log' n := fun p h1 hn => hsub (h p h1 hn)

theorem WellFormed.alloc (h : WellFormed log) {q : ℕ} (hq : .PageAlloc q ∈ log) :
    1 ≤ q ∧ Filled log (q + 1) := by
  obtain ⟨pre, post, rfl⟩ := List.append_of_mem hq
  obtain ⟨h1, hbelow⟩ := h pre _ post rfl
  refine ⟨h1, fun p hp hlt => ?_⟩
  by_cases heq : p = q
  · rw [heq]
    exact hq
  · exact List.mem_append_left _ (hbelow p hp (by omega))

theorem WellFormed.free (h : WellFormed log) {p : ℕ} (hp : Free log p) :
    .PageAlloc p ∈ log := by
  obtain ⟨pre, post, rfl⟩ := List.append_of_mem (mem_of_last_record hp)
  exact List.mem_append_left _ (h pre _ post rfl)

/-! ## The allocator against the log -/

/-- The freelist has no duplicates and only free pages, and the next page is above every
page allocated. -/
structure Tracks (log : List AllocRecord) (pa : PageAllocator) : Prop where
  nodup : pa.freelist.Nodup
  free : ∀ p ∈ pa.freelist, Free log p
  above : ∀ p, .PageAlloc p ∈ log → p < pa.next_page_id
  pos : 1 ≤ pa.next_page_id

namespace PageAllocator

theorem ensure_capacity_freelist {pa pa' : PageAllocator} {p : ℕ} {ok : Bool}
    (h : pa.ensure_data_file_capacity p ok = some pa') :
    pa'.freelist = pa.freelist ∧ pa'.next_page_id = pa.next_page_id := by
  unfold ensure_data_file_capacity at h
  simp only at h
  split_ifs at h
  · rw [← Option.some.inj h]
    exact ⟨rfl, rfl⟩
  · rw [← Option.some.inj h]
    exact ⟨rfl, rfl⟩

theorem ensure_capacity_getD (pa : PageAllocator) (p : ℕ) (ok : Bool) :
    ((pa.ensure_data_file_capacity p ok).getD pa).freelist = pa.freelist ∧
    ((pa.ensure_data_file_capacity p ok).getD pa).next_page_id = pa.next_page_id := by
  cases h : pa.ensure_data_file_capacity p ok with
  | none => exact ⟨rfl, rfl⟩
  | some pa' => exact ensure_capacity_freelist h

theorem apply_page_alloc_fields (pa : PageAllocator) (q : ℕ) :
    (pa.apply_page_alloc q).freelist = pa.freelist.filter (· ≠ q) ∧
    (pa.apply_page_alloc q).next_page_id =
      if pa.next_page_id ≤ q then q + 1 else pa.next_page_id :=
  ensure_capacity_getD { pa with
    next_page_id := if pa.next_page_id ≤ q then q + 1 else pa.next_page_id
    freelist := pa.freelist.filter (· ≠ q) } q true

/-- What `alloc_page` may do: fail, at most taking a page off the freelist, or hand out the
last free page, or a new one. -/
theorem alloc_page_cases (pa : PageAllocator) (set_len_ok append_ok : Bool) :
    ((pa.alloc_page set_len_ok append_ok).2 = none ∧
      (pa.alloc_page set_len_ok append_ok).1.next_page_id = pa.next_page_id ∧
      (pa.alloc_page set_len_ok append_ok).1.freelist.Sublist pa.freelist) ∨
    (∃ p rest, pa.freelist = rest ++ [p] ∧ (pa.alloc_page set_len_ok append_ok).2 = some p ∧
      (pa.alloc_page set_len_ok append_ok).1.freelist = rest ∧
      (pa.alloc_page set_len_ok append_ok).1.next_page_id =
        if p = pa.next_page_id then pa.next_page_id + 1 else pa.next_page_id) ∨
    (pa.freelist = [] ∧ (pa.alloc_page set_len_ok append_ok).2 = some pa.next_page_id ∧
      (pa.alloc_page set_len_ok append_ok).1.freelist = [] ∧
      (pa.alloc_page set_len_ok append_ok).1.next_page_id = pa.next_page_id + 1) := by
  unfold alloc_page
  by_cases hguard : PAGE_SIZE ≤ pa.current_file_len ∧ pa.next_page_id = 1 ∧
      pa.recovery_applied = false
  · simp only [if_pos hguard]
    exact .inl ⟨trivial, trivial, List.Sublist.refl _⟩
  · simp only [if_neg hguard]
    cases hcap : ensure_data_file_capacity { pa with freelist := pa.freelist.dropLast }
        (pa.freelist.getLast?.getD pa.next_page_id) set_len_ok with
    | none => exact .inl ⟨rfl, rfl, List.dropLast_sublist _⟩
    | some pa' =>
      obtain ⟨hfree, hnext⟩ := ensure_capacity_freelist hcap
      simp only
      cases append_ok with
      | false =>
        simp only [Bool.false_eq_true, if_false]
        refine .inl ⟨trivial, hnext, ?_⟩
        rw [hfree]
        exact List.dropLast_sublist _
      | true =>
        simp only [if_true, hnext, hfree]
        rcases List.eq_nil_or_concat pa.freelist with hnil | ⟨rest, p, hcons⟩
        · refine .inr (.inr ⟨hnil, ?_, ?_, ?_⟩) <;> simp [hnil]
        · rw [List.concat_eq_append] at hcons
          refine .inr (.inl ⟨p, rest, hcons, ?_, ?_, ?_⟩) <;> simp [hcons]

/-- What `free_page` may do. -/
theorem free_page_cases (pa : PageAllocator) (p : ℕ) (append_ok : Bool) :
    pa.free_page p append_ok = (pa, false) ∨
    (1 ≤ p ∧ p < pa.next_page_id ∧ p ∉ pa.freelist ∧
      pa.free_page p append_ok = ({ pa with freelist := pa.freelist ++ [p] }, true)) := by
  unfold free_page
  split_ifs with h0 h1 h2 h3
  · exact .inl rfl
  · exact .inl rfl
  · exact .inl rfl
  · exact .inr ⟨by omega, by omega, h2, rfl⟩
  · exact .inl rfl

end PageAllocator

namespace Tracks

variable {log : List AllocRecord} {pa : PageAllocator}

theorem congr {pa' : PageAllocator} (h : Tracks log pa) (hfree : pa'.freelist.Sublist pa.freelist)
    (hnext : pa'.next_page_id = pa.next_page_id) : Tracks log pa' :=
  ⟨h.nodup.sublist hfree, fun p hp => h.free p (hfree.subset hp),
    fun p hp => by rw [hnext]; exact h.above p hp, by rw [hnext]; exact h.pos⟩

/-- A record about no page. -/
theorem skip (h : Tracks log pa) {r : AllocRecord} (hr : ∀ p, r.touches p = false) :
    Tracks (log ++ [r]) pa := by
  refine ⟨h.nodup, fun p hp => ?_, fun p hp => ?_, h.pos⟩
  · unfold Free
    rw [last_record_append, if_neg (by rw [hr p]; simp)]
    exact h.free p hp
  · rcases List.mem_append.mp hp with hp | hp
    · exact h.above p hp
    · rw [List.mem_singleton] at hp
      have := hr p
      rw [← hp] at this
      exact absurd this (by simp [AllocRecord.touches])

/-- A page is allocated: it is off the freelist, and below the next page. -/
theorem allocated (h : Tracks log pa) {pa' : PageAllocator} {q : ℕ}
    (hfree : pa'.freelist.Sublist pa.freelist) (hq : q ∉ pa'.freelist) (hnext : q < pa'.next_page_id)
    (hle : pa.next_page_id ≤ pa'.next_page_id) : Tracks (log ++ [.PageAlloc q]) pa' := by
  refine ⟨h.nodup.sublist hfree, fun p hp => ?_, fun p hp => ?_, h.pos.trans hle⟩
  · have hpq : q ≠ p := fun heq => hq (heq ▸ hp)
    unfold Free
    rw [last_record_append, if_neg (by simpa [AllocRecord.touches] using hpq)]
    exact h.free p (hfree.subset hp)
  · rcases List.mem_append.mp hp with hp | hp
    · exact lt_of_lt_of_le (h.above p hp) hle
    · rw [List.mem_singleton, AllocRecord.PageAlloc.injEq] at hp
      rw [hp]
      exact hnext

/-- A page is freed, and put on the freelist unless it is there. -/
theorem freed (h : Tracks log pa) {pa' : PageAllocator} {q : ℕ} (hnodup : pa'.freelist.Nodup)
    (hfree : ∀ p ∈ pa'.freelist, p = q ∨ p ∈ pa.freelist)
    (hnext : pa'.next_page_id = pa.next_page_id) : Tracks (log ++ [.PageFree q]) pa' := by
  refine ⟨hnodup, fun p hp => ?_, fun p hp => ?_, by rw [hnext]; exact h.pos⟩
  · unfold Free
    rw [last_record_append]
    by_cases hpq : q = p
    · rw [if_pos (by simpa [AllocRecord.touches] using hpq), hpq]
    · rw [if_neg (by simpa [AllocRecord.touches] using hpq)]
      exact h.free p ((hfree p hp).resolve_left (Ne.symm hpq))
  · rw [hnext]
    rcases List.mem_append.mp hp with hp | hp
    · exact h.above p hp
    · exact absurd (List.mem_singleton.mp hp) (by simp)

/-- Replaying the next record of the log. -/
theorem replay_record (h : Tracks log pa) (r : AllocRecord) :
    Tracks (log ++ [r]) (pa.replay_record r) := by
  cases r with
  | PageAlloc q =>
    obtain ⟨hfree, hnext⟩ := pa.apply_page_alloc_fields q
    change Tracks _ (pa.apply_page_alloc q)
    have hif : q < (if pa.next_page_id ≤ q then q + 1 else pa.next_page_id) ∧
        pa.next_page_id ≤ (if pa.next_page_id ≤ q then q + 1 else pa.next_page_id) := by
      split_ifs <;> omega
    apply h.allocated
    · rw [hfree]
      exact List.filter_sublist
    · rw [hfree]
      simp
    · rw [hnext]
      exact hif.1
    · rw [hnext]
      exact hif.2
  | PageFree q =>
    change Tracks _ (pa.apply_page_free q)
    unfold PageAllocator.apply_page_free
    by_cases hq : q ∈ pa.freelist
    · rw [if_pos hq]
      exact h.freed h.nodup (fun p hp => .inr hp) rfl
    · rw [if_neg hq]
      refine h.freed ?_ (fun p hp => ?_) rfl
      · exact List.nodup_append.mpr ⟨h.nodup, List.nodup_singleton q, fun a ha b hb heq =>
          hq (by rw [← List.mem_singleton.mp hb, ← heq]; exact ha)⟩
      · exact (List.mem_append.mp hp).symm.imp List.mem_singleton.mp id
  | CheckpointBegin => exact h.skip fun _ => rfl
  | CheckpointEnd lsn next => exact h.skip fun _ => rfl
  | other => exact h.skip fun _ => rfl

/-- Replaying a tail of the log. -/
theorem replay (h : Tracks log pa) (tail : List AllocRecord) :
    Tracks (log ++ tail) (tail.foldl PageAllocator.replay_record pa) := by
  induction tail generalizing log pa with
  | nil =>
    rw [List.append_nil]
    exact h
  | cons r tail ih =>
    have hnext := ih (h.replay_record r)
    rw [List.append_assoc] at hnext
    exact hnext

end Tracks

/-- Replay fills no gaps and makes none. -/
theorem Filled.replay {whole : List AllocRecord} (hwf : WellFormed whole) {tail : List AllocRecord}
    (hsub : tail ⊆ whole) {pa : PageAllocator} (h : Filled whole pa.next_page_id) :
    Filled whole (tail.foldl PageAllocator.replay_record pa).next_page_id := by
  induction tail generalizing pa with
  | nil => exact h
  | cons r tail ih =>
    have htail : tail ⊆ whole := fun x hx => hsub (.tail _ hx)
    apply ih htail
    cases r with
    | PageAlloc q =>
      change Filled whole (pa.apply_page_alloc q).next_page_id
      rw [(pa.apply_page_alloc_fields q).2]
      split_ifs
      · exact (hwf.alloc (hsub (.head _))).2
      · exact h
    | PageFree q =>
      change Filled whole (pa.apply_page_free q).next_page_id
      unfold PageAllocator.apply_page_free
      split_ifs <;> exact h
    | CheckpointBegin => exact h
    | CheckpointEnd lsn next => exact h
    | other => exact h

/-! ## What the files hold -/

/-- The snapshot's pages were free when its checkpoint began. -/
structure SnapOk (log : List AllocRecord) (m : FreelistMeta) : Prop where
  nodup : m.page_ids.Nodup
  free : ∀ p ∈ m.page_ids, Free (log.take (m.checkpoint_lsn - 1)) p

/-- The next page of a checkpoint is above the pages its replay will not see, and leaves
no gap in what a crash keeps. -/
structure NextOk (log : List AllocRecord) (synced lsn next : ℕ) : Prop where
  pos : 1 ≤ next
  above : ∀ p, .PageAlloc p ∈ log.take (lsn - 1) → p < next
  filled : Filled (log.take synced) next

/-- What is said of a prefix stays as the log grows. -/
theorem SnapOk.append {m : FreelistMeta} (h : SnapOk log m) (hle : m.checkpoint_lsn ≤ log.length)
    (tail : List AllocRecord) : SnapOk (log ++ tail) m := by
  refine ⟨h.nodup, fun p hp => ?_⟩
  rw [List.take_append_of_le_length (by omega)]
  exact h.free p hp

theorem SnapOk.take {m : FreelistMeta} (h : SnapOk log m) {k : ℕ} (hle : m.checkpoint_lsn ≤ k) :
    SnapOk (log.take k) m := by
  refine ⟨h.nodup, fun p hp => ?_⟩
  rw [List.take_take, min_eq_left (by omega)]
  exact h.free p hp

theorem NextOk.append {synced synced' lsn next : ℕ} (h : NextOk log synced lsn next)
    (hlsn : lsn ≤ log.length) (hle : synced ≤ log.length) (hsync : synced ≤ synced')
    (tail : List AllocRecord) : NextOk (log ++ tail) synced' lsn next := by
  refine ⟨h.pos, fun p hp => ?_, h.filled.mono ?_⟩
  · rw [List.take_append_of_le_length (by omega)] at hp
    exact h.above p hp
  · rw [← List.take_append_of_le_length hle]
    exact List.take_subset_take_left _ hsync

section Phase

variable (log : List AllocRecord) (synced : ℕ) (sb : AllocSuperblock) (file : Option FreelistMeta)

/-- What holds of a checkpoint under way with the given LSN. -/
structure Pending (lsn : ℕ) : Prop where
  le : lsn ≤ log.length
  later : sb.checkpoint_lsn < lsn

/-- A checkpoint that has not written its freelist yet. -/
structure PendingSnap (m : FreelistMeta) : Prop extends Pending log sb m.checkpoint_lsn where
  ok : SnapOk log m
  newer : ∀ m', file = some m' → m'.checkpoint_lsn < m.checkpoint_lsn

/-- What holds in each phase. -/
def PhaseOk : CheckpointPhase → Prop
  | .idle => True
  | .begun m => PendingSnap log sb file m
  | .next_read m next => PendingSnap log sb file m ∧ NextOk log log.length m.checkpoint_lsn next
  | .ended m next end_boundary => PendingSnap log sb file m ∧ m.checkpoint_lsn ≤ end_boundary ∧
      end_boundary ≤ log.length ∧ NextOk log end_boundary m.checkpoint_lsn next
  | .flushed m next => PendingSnap log sb file m ∧ m.checkpoint_lsn ≤ synced ∧
      NextOk log synced m.checkpoint_lsn next
  | .snapshot_written lsn next => Pending log sb lsn ∧
      (∀ m, file = some m → m.checkpoint_lsn = lsn → SnapOk log m) ∧
      lsn ≤ synced ∧ NextOk log synced lsn next

end Phase

/-- The invariant of a run. -/
structure AllocSys.Inv (s : AllocSys) : Prop where
  wf : WellFormed s.log
  tracks : Tracks s.log s.pa
  filled : Filled s.log s.pa.next_page_id
  synced : s.synced ≤ s.log.length
  sb_lsn : s.sb.checkpoint_lsn ≤ s.synced
  sb_next : NextOk s.log s.synced s.sb.checkpoint_lsn s.sb.next_page_id
  snap_lsn : ∀ m, s.snap = some m → m.checkpoint_lsn ≤ s.synced
  snap : ∀ m, s.snap = some m → m.checkpoint_lsn = s.sb.checkpoint_lsn → SnapOk s.log m
  phase : PhaseOk s.log s.synced s.sb s.snap s.phase

namespace AllocSys

theorem create_inv : Inv create where
  wf pre r post h := absurd h (by simp [create])
  tracks := ⟨List.nodup_nil, fun p hp => absurd hp (by simp [create]),
    fun p hp => absurd hp (by simp [create]), le_rfl⟩
  filled p h1 hn := by
    simp only [create] at hn
    omega
  synced := le_rfl
  sb_lsn := le_rfl
  sb_next := ⟨le_rfl, fun p hp => absurd hp (by simp [create]), fun p h1 hn => by
    simp only [create] at hn
    omega⟩
  snap_lsn m hm := absurd hm (by simp [create])
  snap m hm := absurd hm (by simp [create])
  phase := trivial

variable {s t : AllocSys}

/-- Recovery of what a crash keeps. -/
theorem Inv.recovered (h : s.Inv) {k : ℕ} (hk : s.synced ≤ k) (file_len : ℕ) :
    Tracks (s.log.take k) (recover_allocator s.sb s.snap file_len (s.log.take k)) ∧
    Filled (s.log.take k) (recover_allocator s.sb s.snap file_len (s.log.take k)).next_page_id := by
  have hlsn : s.sb.checkpoint_lsn - 1 ≤ k := by
    have := h.sb_lsn
    omega
  have htake : (s.log.take k).take (s.sb.checkpoint_lsn - 1) =
      s.log.take (s.sb.checkpoint_lsn - 1) := by
    rw [List.take_take, min_eq_left hlsn]
  -- what the replay starts from
  have hstart : Tracks (s.log.take (s.sb.checkpoint_lsn - 1)) ⟨file_len, s.sb.next_page_id,
      (match s.snap with
        | some snap => if snap.checkpoint_lsn = s.sb.checkpoint_lsn then snap.page_ids else []
        | none => []), false⟩ := by
    have hempty : Tracks (s.log.take (s.sb.checkpoint_lsn - 1))
        ⟨file_len, s.sb.next_page_id, [], false⟩ :=
      ⟨List.nodup_nil, fun p hp => absurd hp (by simp), h.sb_next.above, h.sb_next.pos⟩
    cases hsnap : s.snap with
    | none => exact hempty
    | some m =>
      simp only
      by_cases hm : m.checkpoint_lsn = s.sb.checkpoint_lsn
      · rw [if_pos hm]
        have hok := h.snap m hsnap hm
        exact ⟨hok.nodup, fun p hp => by rw [← hm]; exact hok.free p hp, h.sb_next.above,
          h.sb_next.pos⟩
      · rw [if_neg hm]
        exact hempty
  have hreplay := hstart.replay (records_from (s.log.take k) s.sb.checkpoint_lsn)
  have hwhole : s.log.take (s.sb.checkpoint_lsn - 1) ++
      records_from (s.log.take k) s.sb.checkpoint_lsn = s.log.take k := by
    unfold records_from
    rw [← htake, List.take_append_drop]
  rw [hwhole] at hreplay
  refine ⟨hreplay.congr (List.Sublist.refl _) rfl, ?_⟩
  refine Filled.replay (h.wf.take k) (List.drop_subset _ _) ?_
  exact h.sb_next.filled.mono (List.take_subset_take_left _ hk)

theorem PendingSnap.append {log : List AllocRecord} {sb : AllocSuperblock}
    {file : Option FreelistMeta} {m : FreelistMeta} (h : PendingSnap log sb file m)
    (tail : List AllocRecord) : PendingSnap (log ++ tail) sb file m :=
  ⟨⟨h.le.trans (by simp), h.later⟩, h.ok.append h.le tail, h.newer⟩

/-- A record is appended, outside the checkpoint's own steps. -/
theorem PhaseOk.append (h : s.Inv) (r : AllocRecord) {phase : CheckpointPhase}
    (hphase : PhaseOk s.log s.synced s.sb s.snap phase) :
    PhaseOk (s.log ++ [r]) s.synced s.sb s.snap phase := by
  have hlen : s.log.length ≤ (s.log ++ [r]).length := by simp
  cases phase with
  | idle => trivial
  | begun m => exact PendingSnap.append hphase [r]
  | next_read m next =>
    obtain ⟨hp, hn⟩ := hphase
    exact ⟨PendingSnap.append hp [r], hn.append hp.le le_rfl hlen _⟩
  | ended m next end_boundary =>
    obtain ⟨hp, hb, hb', hn⟩ := hphase
    exact ⟨PendingSnap.append hp [r], hb, hb'.trans hlen, hn.append hp.le hb' le_rfl _⟩
  | flushed m next =>
    obtain ⟨hp, hsync, hn⟩ := hphase
    exact ⟨PendingSnap.append hp [r], hsync, hn.append hp.le h.synced le_rfl _⟩
  | snapshot_written lsn next =>
    obtain ⟨hp, hs, hsync, hn⟩ := hphase
    refine ⟨⟨hp.le.trans hlen, hp.later⟩, fun m hm heq => (hs m hm heq).append ?_ _, hsync,
      hn.append hp.le h.synced le_rfl _⟩
    rw [heq]
    exact hp.le

/-- The log and the files, when a record is appended and the allocator follows. -/
theorem Inv.append (h : s.Inv) {pa : PageAllocator} {r : AllocRecord} (hr : r.OkAfter s.log)
    (ht : Tracks (s.log ++ [r]) pa) (hf : Filled (s.log ++ [r]) pa.next_page_id) :
    Inv { s with pa := pa, log := s.log ++ [r] } where
  wf := h.wf.append hr
  tracks := ht
  filled := hf
  synced := h.synced.trans (by simp)
  sb_lsn := h.sb_lsn
  sb_next := h.sb_next.append (h.sb_lsn.trans h.synced) h.synced le_rfl _
  snap_lsn := h.snap_lsn
  snap m hm heq := (h.snap m hm heq).append ((h.snap_lsn m hm).trans h.synced) _
  phase := PhaseOk.append h r h.phase

/-- The allocator changes and nothing else. -/
theorem Inv.set_pa (h : s.Inv) {pa : PageAllocator} (hfree : pa.freelist.Sublist s.pa.freelist)
    (hnext : pa.next_page_id = s.pa.next_page_id) :
    Inv { s with pa := pa } :=
  { h with
    tracks := h.tracks.congr hfree hnext
    filled := by
      change Filled s.log pa.next_page_id
      rw [hnext]
      exact h.filled
    phase := h.phase }

/-- A record about no page. -/
theorem Inv.append_skip (h : s.Inv) {r : AllocRecord} (hr : r.OkAfter s.log)
    (htouch : ∀ p, r.touches p = false) : Inv { s with log := s.log ++ [r] } :=
  h.append hr (h.tracks.skip htouch) (h.filled.mono (List.subset_append_left _ _))

/-- What `alloc_page` hands out is not in use. -/
theorem Inv.not_live (h : s.Inv) {set_len_ok append_ok : Bool} {p : ℕ}
    (hp : (s.pa.alloc_page set_len_ok append_ok).2 = some p) : ¬ Live s.log p := by
  intro hlive
  rcases s.pa.alloc_page_cases set_len_ok append_ok with ⟨hnone, -⟩ | ⟨q, rest, hq, hsome, -⟩ |
    ⟨-, hsome, -⟩
  · exact absurd (hp.symm.trans hnone) (by simp)
  · have hpq := Option.mem_unique hp hsome
    have hfree := h.tracks.free q (by rw [hq]; simp)
    rw [← hpq] at hfree
    exact absurd (hlive.symm.trans hfree) (by simp)
  · have hpq := Option.mem_unique hp hsome
    have hlt := h.tracks.above p (mem_of_last_record hlive)
    omega

theorem Inv.alloc_page (h : s.Inv) (set_len_ok append_ok : Bool)
    (hst : s.step (.alloc_page set_len_ok append_ok) = some t) : Inv t := by
  unfold step at hst
  simp only at hst
  have hcases := s.pa.alloc_page_cases set_len_ok append_ok
  rcases ha : s.pa.alloc_page set_len_ok append_ok with ⟨pa, o⟩
  rw [ha] at hst hcases
  simp only at hst hcases
  rcases hcases with ⟨rfl, hnext, hfree⟩ | ⟨q, rest, hq, rfl, hfree, hnext⟩ | ⟨-, rfl, hfree, hnext⟩
  · cases hst
    exact h.set_pa hfree hnext
  · cases hst
    -- a page of the freelist: it was allocated before
    have hqfree : Free s.log q := h.tracks.free q (by rw [hq]; simp)
    have hqalloc := h.wf.free hqfree
    have hqlt := h.tracks.above q hqalloc
    rw [if_neg (by omega)] at hnext
    have hnodup := h.tracks.nodup
    rw [hq] at hnodup
    apply h.append
    · refine ⟨(h.wf.alloc hqalloc).1, fun p h1 hlt => h.filled p h1 (by omega)⟩
    · apply h.tracks.allocated
      · rw [hfree, hq]
        exact List.sublist_append_left _ _
      · rw [hfree]
        exact fun hmem => (List.nodup_append.mp hnodup).2.2 q hmem q (by simp) rfl
      · omega
      · omega
    · rw [hnext]
      exact h.filled.mono (List.subset_append_left _ _)
  · cases hst
    have hpos : 1 ≤ s.pa.next_page_id := h.tracks.pos
    apply h.append
    · exact ⟨hpos, h.filled⟩
    · apply h.tracks.allocated
      · rw [hfree]
        exact List.nil_sublist _
      · rw [hfree]
        simp
      · omega
      · omega
    · rw [hnext]
      intro p h1 hlt
      by_cases hp : p = s.pa.next_page_id
      · rw [hp]
        exact List.mem_append_right _ (.head _)
      · exact List.mem_append_left _ (h.filled p h1 (by omega))

theorem Inv.free_page (h : s.Inv) (p : ℕ) (append_ok : Bool)
    (hst : s.step (.free_page p append_ok) = some t) : Inv t := by
  unfold step at hst
  simp only at hst
  rcases s.pa.free_page_cases p append_ok with hf | ⟨h1, hlt, hnot, hf⟩
  · rw [hf] at hst
    cases hst
    exact h
  · rw [hf] at hst
    cases hst
    apply h.append
    · exact h.filled p h1 hlt
    · refine h.tracks.freed ?_ (fun q hq => ?_) rfl
      · exact List.nodup_append.mpr ⟨h.tracks.nodup, List.nodup_singleton p, fun a ha b hb heq =>
          hnot (by rw [← List.mem_singleton.mp hb, ← heq]; exact ha)⟩
      · exact (List.mem_append.mp hq).symm.imp List.mem_singleton.mp id
    · exact h.filled.mono (List.subset_append_left _ _)

/-- More of the log is synced. -/
theorem Inv.sync (h : s.Inv) {k : ℕ} (hk : s.synced ≤ k) (hk' : k ≤ s.log.length) :
    Inv { s with synced := k } := by
  have hnext : ∀ {lsn next}, lsn ≤ s.log.length → NextOk s.log s.synced lsn next →
      NextOk s.log k lsn next := by
    intro lsn next hlsn hn
    have hgrow := hn.append hlsn h.synced hk []
    rwa [List.append_nil] at hgrow
  have hmono : ∀ {phase}, PhaseOk s.log s.synced s.sb s.snap phase →
      PhaseOk s.log k s.sb s.snap phase := by
    intro phase hphase
    cases phase with
    | idle => trivial
    | begun _ | next_read _ _ | ended _ _ _ => exact hphase
    | flushed m next =>
      obtain ⟨hp, hsync, hn⟩ := hphase
      exact ⟨hp, hsync.trans hk, hnext hp.le hn⟩
    | snapshot_written lsn next =>
      obtain ⟨hp, hs, hsync, hn⟩ := hphase
      exact ⟨hp, hs, hsync.trans hk, hnext hp.le hn⟩
  exact { h with
    synced := hk'
    sb_lsn := h.sb_lsn.trans hk
    sb_next := hnext (h.sb_lsn.trans h.synced) h.sb_next
    snap_lsn := fun m hm => (h.snap_lsn m hm).trans hk
    phase := hmono h.phase }

/-- What holds in the phase a step of a checkpoint finds. -/
theorem Inv.phase_of (h : s.Inv) {phase : CheckpointPhase} (hph : s.phase = phase) :
    PhaseOk s.log s.synced s.sb s.snap phase := hph ▸ h.phase

theorem Inv.checkpoint_begin (h : s.Inv) (hst : s.step .checkpoint_begin = some t) : Inv t := by
  unfold step at hst
  simp only at hst
  split at hst
  · cases hst
    refine { h.append_skip (r := .CheckpointBegin) trivial (fun _ => rfl) with phase := ?_ }
    have hsb := h.sb_lsn.trans h.synced
    refine ⟨⟨by simp, by simp only; omega⟩, ⟨h.tracks.nodup, fun p hp => ?_⟩, fun m hm => ?_⟩
    · simp only [Nat.add_sub_cancel]
      rw [List.take_left]
      exact h.tracks.free p hp
    · have := (h.snap_lsn m hm).trans h.synced
      simp only
      omega
  · simp at hst

theorem Inv.checkpoint_next (h : s.Inv) (hst : s.step .checkpoint_next = some t) : Inv t := by
  unfold step at hst
  simp only at hst
  split at hst
  · rename_i m hph
    cases hst
    refine { h with phase := ⟨h.phase_of hph, h.tracks.pos, fun p hp => ?_, ?_⟩ }
    · exact h.tracks.above p (List.mem_of_mem_take hp)
    · rw [List.take_length]
      exact h.filled
  · simp at hst

theorem Inv.checkpoint_end (h : s.Inv) (hst : s.step .checkpoint_end = some t) : Inv t := by
  unfold step at hst
  simp only at hst
  split at hst
  · rename_i m next hph
    cases hst
    obtain ⟨hp, hn⟩ := h.phase_of hph
    have hlen := hp.le
    exact { @append_skip s h (.CheckpointEnd m.checkpoint_lsn next) trivial fun _ => rfl with
      phase := ⟨PendingSnap.append hp _, by omega, by simp,
        hn.append hp.le le_rfl (Nat.le_succ _) _⟩ }
  · simp at hst

theorem Inv.checkpoint_flush (h : s.Inv) (hst : s.step .checkpoint_flush = some t) : Inv t := by
  unfold step at hst
  simp only at hst
  split at hst
  · rename_i m next end_boundary hph
    obtain ⟨hsync, rfl⟩ := guarded hst
    obtain ⟨hp, hb, hb', hn⟩ := h.phase_of hph
    have hgrow := hn.append hp.le hb' hsync []
    rw [List.append_nil] at hgrow
    exact { h with phase := ⟨hp, hb.trans hsync, hgrow⟩ }
  · simp at hst

theorem Inv.checkpoint_snapshot (h : s.Inv) {io : SnapshotIo}
    (hst : s.step (.checkpoint_snapshot io) = some t) : Inv t := by
  unfold step at hst
  simp only at hst
  split at hst
  · rename_i m next hph
    cases hst
    obtain ⟨hp, hsync, hn⟩ := h.phase_of hph
    cases io with
    | written =>
      -- the file is of this checkpoint, which the superblock does not name yet
      refine { h with
        snap_lsn := fun m' hm' => ?_
        snap := fun m' hm' heq => ?_
        phase := ⟨hp.toPending, fun m' hm' _ => ?_, hsync, hn⟩ }
      · rw [← Option.some.inj hm']
        exact hsync
      · rw [← Option.some.inj hm'] at heq
        exact absurd heq hp.later.ne'
      · rw [← Option.some.inj hm']
        exact hp.ok
    | unchanged =>
      refine { h with phase := ⟨hp.toPending, fun m' hm' heq => ?_, hsync, hn⟩ }
      exact absurd heq (hp.newer m' hm').ne
    | unreadable =>
      exact { h with
        snap_lsn := fun m' hm' => absurd hm' (by simp)
        snap := fun m' hm' => absurd hm' (by simp)
        phase := ⟨hp.toPending, fun m' hm' => absurd hm' (by simp), hsync, hn⟩ }
  · simp at hst

theorem Inv.checkpoint_superblock (h : s.Inv) (hst : s.step .checkpoint_superblock = some t) :
    Inv t := by
  unfold step at hst
  simp only at hst
  split at hst
  · rename_i lsn next hph
    cases hst
    obtain ⟨hp, hs, hsync, hn⟩ := h.phase_of hph
    exact { h with sb_lsn := hsync, sb_next := hn, snap := hs, phase := trivial }
  · simp at hst

theorem Inv.crash (h : s.Inv) {k : ℕ} (hst : s.step (.crash k) = some t) :
    Inv t := by
  obtain ⟨hk, rfl⟩ := guarded hst
  obtain ⟨ht, hf⟩ := h.recovered hk.1 s.pa.current_file_len
  have hlen : (s.log.take k).length = k := by
    rw [List.length_take, min_eq_left hk.2]
  have hcut : s.sb.checkpoint_lsn - 1 ≤ s.synced := (Nat.sub_le _ _).trans h.sb_lsn
  exact {
    wf := h.wf.take k
    tracks := ht
    filled := hf
    synced := hlen.ge
    sb_lsn := h.sb_lsn.trans hk.1
    sb_next := by
      refine ⟨h.sb_next.pos, fun p hp => ?_, h.sb_next.filled.mono ?_⟩
      · change _ ∈ (s.log.take k).take _ at hp
        rw [List.take_take, min_eq_left (hcut.trans hk.1)] at hp
        exact h.sb_next.above p hp
      · change _ ⊆ (s.log.take k).take k
        rw [List.take_take, min_self]
        exact List.take_subset_take_left _ hk.1
    snap_lsn := fun m hm => (h.snap_lsn m hm).trans hk.1
    snap := fun m hm heq => (h.snap m hm heq).take ((h.snap_lsn m hm).trans hk.1)
    phase := trivial }

theorem Inv.step {op : AllocOp} (h : s.Inv) (hst : s.step op = some t) : Inv t := by
  cases op with
  | alloc_page set_len_ok append_ok => exact h.alloc_page set_len_ok append_ok hst
  | free_page p append_ok => exact h.free_page p append_ok hst
  | append_other =>
    cases hst
    exact h.append_skip trivial fun _ => rfl
  | sync k =>
    obtain ⟨hk, rfl⟩ := guarded hst
    exact h.sync hk.1 hk.2
  | checkpoint_begin => exact h.checkpoint_begin hst
  | checkpoint_next => exact h.checkpoint_next hst
  | checkpoint_end => exact h.checkpoint_end hst
  | checkpoint_flush => exact h.checkpoint_flush hst
  | checkpoint_snapshot io => exact h.checkpoint_snapshot hst
  | checkpoint_superblock => exact h.checkpoint_superblock hst
  | checkpoint_fails =>
    cases hst
    exact { h with phase := trivial }
  | crash k => exact h.crash hst

end AllocSys

/-- **The page allocator survives crashes.** In every run of allocations, frees,
checkpoints and crashes, with every file write that may fail failing at will: what recovery
makes of any cut of the log at or past the synced part has a freelist without duplicates
whose pages are free in that cut, and a next page above every page it allocated; and no
call in the run hands out a page that its history has allocated and not freed. -/
theorem allocator_survives_crash {ops : List AllocOp} {s : AllocSys}
    (hrun : run AllocSys.step AllocSys.create ops = some s) :
    (∀ kept, s.synced ≤ kept → kept ≤ s.log.length →
      (recover_allocator s.sb s.snap s.pa.current_file_len (s.log.take kept)).freelist.Nodup ∧
      (∀ p ∈ (recover_allocator s.sb s.snap s.pa.current_file_len (s.log.take kept)).freelist,
        Free (s.log.take kept) p) ∧
      (∀ p, .PageAlloc p ∈ s.log.take kept →
        p < (recover_allocator s.sb s.snap s.pa.current_file_len (s.log.take kept)).next_page_id)) ∧
    (∀ set_len_ok append_ok p, (s.pa.alloc_page set_len_ok append_ok).2 = some p →
      ¬ Live s.log p) := by
  have hinv : s.Inv := run_invariant AllocSys.Inv (fun _ _ _ h hst => h.step hst)
    AllocSys.create_inv hrun
  refine ⟨fun kept hk _ => ?_, fun _ _ p hp => hinv.not_live hp⟩
  obtain ⟨ht, -⟩ := hinv.recovered hk s.pa.current_file_len
  exact ⟨ht.nodup, ht.free, ht.above⟩

/-- Page 1 is freed, copied into a checkpoint whose freelist file is never written, and
allocated again while the checkpoint runs; page 2 is freed after it. A crash that loses
the last free leaves both pages allocated. -/
theorem allocator_survives_crash_lost_snapshot :
    ∃ s, run AllocSys.step AllocSys.create
        [.alloc_page true true, .alloc_page true true, .free_page 1 true, .checkpoint_begin,
          .alloc_page true true, .checkpoint_next, .checkpoint_end, .sync 6, .checkpoint_flush,
          .checkpoint_snapshot .unchanged, .checkpoint_superblock, .free_page 2 true, .crash 6]
        = some s ∧
      s.sb = ⟨4, 3⟩ ∧ (s.pa.freelist, s.pa.next_page_id) = ([], 3) ∧
      ∀ set_len_ok append_ok p, (s.pa.alloc_page set_len_ok append_ok).2 = some p →
        ¬ Live s.log p := by
  refine exists_of_map_eq (fun s => (s.sb, (s.pa.freelist, s.pa.next_page_id)))
    (b := (⟨4, 3⟩, ([], 3))) (by decide +kernel) fun s hrun hs => ?_
  have hsb := congrArg Prod.fst hs
  have hpa := congrArg Prod.snd hs
  exact ⟨hsb, hpa, (allocator_survives_crash hrun).2⟩

end Ams
