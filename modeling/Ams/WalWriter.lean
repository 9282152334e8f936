/-
The WAL writer and its group-commit worker: `pg-storage/src/wal/writer.rs`.

Callers and the worker share the state behind one mutex. A call holds it from start
to end, `flush_to` apart, which sleeps on the condition variable and looks again when
it is woken; the worker samples under it, calls `sync_all` without it, and publishes
the result under it. So the steps below are the critical sections, and the two ends of
the worker's `sync_all`. The file operations inside a critical section need no steps
of their own: a `sync_all` of the worker that starts or ends within one covers at
least what it would have covered had it started before and ended after.

The published position is `synced_lsn`. `synced_lsn_sound` says that every byte below
it is durable as long as no `append` fails in its segment write. One that does fail has
moved the LSN clock already and leaves the writer shut down with records pending, and
the worker's last wave then publishes the clock: `synced_lsn_covers_unwritten`. What
holds without the proviso is kept in `WalInv`, relative to the end of the last record
that was written.
-/
import Ams.WalSegment
import Ams.Lib.Run

set_option autoImplicit false

namespace Ams

open Ams.Lib

/-! ## The writer -/

structure WalConfig where
  wal_segment_size : ℕ
  wal_group_commit_batch_size : ℕ

/-- What a wave will cover, sampled under the lock. -/
structure Cover where
  lsn : ℕ
  segment : ℕ
  pending : ℕ
deriving DecidableEq, Repr

/-- Where the worker is. -/
inductive Worker where
  /-- At the top of its loop. -/
  | Waiting
  | Sampled (cover : Cover)
  /-- Inside `sync_all`, with the bytes that had been written when it started. -/
  | Syncing (cover : Cover) (written : ℕ → Bool)
  /-- `sync_all` has returned: no error, or its text. -/
  | Synced (cover : Cover) (error : Option String)
  | Exited

/-- The wave the worker is in. -/
def Worker.cover : Worker → Option Cover
  | .Sampled c | .Syncing c _ | .Synced c _ => some c
  | .Waiting | .Exited => none

/-- The range of a record. -/
structure Appended where
  lsn : ℕ
  size : ℕ
deriving DecidableEq, Repr

/-- `WriterState` with its worker and its sleeping callers. The last three fields are
for the statements: nothing reads them. -/
structure WalWriter where
  seg : WalSegments
  clock : ℕ
  synced_lsn : ℕ
  pending : ℕ
  flush_requested : Bool
  shutdown : Bool
  last_error : Option String
  worker : Worker
  /-- The arguments of the `flush_to` calls that are asleep. -/
  sleepers : List ℕ
  /-- The records whose append has returned. -/
  appended : List Appended
  /-- The end of the last of them, or where the log began. -/
  tail : ℕ
  /-- The arguments of the `flush_to` calls that have returned `Ok`. -/
  flushed : List ℕ

/-- How a pass of `flush_to` ends. -/
inductive FlushTurn where
  | Returned (result : Except StorageError Unit)
  | Sleep

namespace WalWriter

/-- What is on disk before `start_lsn` counts as written and synced. -/
def open_with_segment_manager (seg : WalSegments) (start_lsn initial_synced_lsn : ℕ) : WalWriter where
  seg := { seg with
    written := fun b => decide (b < start_lsn)
    durable := fun b => decide (b < start_lsn) }
  clock := start_lsn
  synced_lsn := initial_synced_lsn
  pending := 0
  flush_requested := false
  shutdown := false
  last_error := none
  worker := .Waiting
  sleepers := []
  appended := []
  tail := start_lsn
  flushed := []

variable (config : WalConfig)

/-- `append` and `reserve_and_append` differ in the text of one error. -/
def append_as (name : String) (s : WalWriter) (record : WalRecord) (io : IoPlan) :
    WalWriter × Except StorageError ℕ :=
  match s.last_error with
  | some msg => (s, .error (.WalWriteFailed msg))
  | none =>
    if record.payload.length > 65535 then
      (s, .error (.Serialize s!"payload length {record.payload.length} exceeds u16::MAX"))
    else
      let lsn := s.clock
      let record := { record with lsn }
      let s := { s with clock := lsn + record.record_size }
      match record.encode with
      | .error e => (s, .error e)
      | .ok buf =>
        match s.seg.write_record_to_segment config.wal_segment_size buf lsn io with
        | (seg, .error e) =>
          ({ s with
            seg
            last_error := some s!"{name}: segment write failed at Lsn({lsn}): {e.display}"
            shutdown := true }, .error e)
        | (seg, .ok _) =>
          ({ s with
            seg
            pending := s.pending + 1
            appended := s.appended ++ [⟨lsn, record.record_size⟩]
            tail := lsn + record.record_size }, .ok lsn)

def append (s : WalWriter) (record : WalRecord) (io : IoPlan) : WalWriter × Except StorageError ℕ :=
  append_as config "append" s record io

def reserve_and_append (s : WalWriter) (record : WalRecord) (io : IoPlan) :
    WalWriter × Except StorageError ℕ :=
  append_as config "reserve_and_append" s record io

/-- A pass of the waiting loop of `flush_to`. -/
def flush_to_loop (s : WalWriter) (lsn : ℕ) : WalWriter × FlushTurn :=
  if lsn ≤ s.synced_lsn then (s, .Returned (.ok ()))
  else
    match s.last_error with
    | some msg => (s, .Returned (.error (.WalWriteFailed msg)))
    | none =>
      if s.shutdown then (s, .Returned (.error (.WalWriteFailed "wal writer shut down")))
      else ({ s with flush_requested := true }, .Sleep)

def flush_to (s : WalWriter) (lsn : ℕ) : WalWriter × FlushTurn :=
  match s.last_error with
  | some msg => (s, .Returned (.error (.WalWriteFailed msg)))
  | none =>
    if lsn > s.clock then (s, .Returned (.error (.LsnNotAvailable lsn)))
    else if lsn ≤ s.synced_lsn then (s, .Returned (.ok ()))
    else flush_to_loop { s with flush_requested := true } lsn

/-- Put the outcome of a pass on record. -/
def settle (lsn : ℕ) : WalWriter × FlushTurn → WalWriter
  | (s, .Returned (.ok _)) => { s with flushed := lsn :: s.flushed }
  | (s, .Returned (.error _)) => s
  | (s, .Sleep) => { s with sleepers := lsn :: s.sleepers }

def recycle_before (s : WalWriter) (lsn : ℕ) (io : IoPlan) : WalWriter × Except StorageError Unit :=
  match s.last_error with
  | some msg => (s, .error (.WalWriteFailed msg))
  | none =>
    if s.shutdown then (s, .error (.WalWriteFailed "wal writer shut down"))
    else
      let (seg, r) := s.seg.recycle_before config.wal_segment_size lsn io
      ({ s with seg }, r.map fun _ => ())

/-! ## The worker -/

/-- The worker's first critical section. `elapsed` is the outcome of the timeout test,
`dup` the error of `try_clone`. -/
def worker_sample (s : WalWriter) (elapsed : Bool) (dup : Option String) : Option WalWriter :=
  match s.worker with
  | .Waiting =>
    if s.shutdown = true ∧ s.pending = 0 then some { s with worker := .Exited }
    else
      let should_flush := 0 < s.pending ∧ (s.shutdown = true ∨ s.flush_requested = true ∨
        config.wal_group_commit_batch_size ≤ s.pending ∨ elapsed = true)
      if ¬ should_flush ∧ s.shutdown = false then none
      else
        match dup with
        | some e =>
          some { s with
            last_error := some s!"wal dup-for-fsync failed: {e}"
            shutdown := true
            worker := .Exited }
        | none =>
          some { s with worker := .Sampled ⟨s.clock, s.seg.current_segment_id, s.pending⟩ }
  | _ => none

def sync_start (s : WalWriter) : Option WalWriter :=
  match s.worker with
  | .Sampled cover => some { s with worker := .Syncing cover s.seg.written }
  | _ => none

/-- `sync_all` returns. Without error, the bytes of the sampled file that had been
written when it started are durable. -/
def sync_end (s : WalWriter) (error : Option String) : Option WalWriter :=
  match s.worker with
  | .Syncing cover written =>
    match error with
    | some e => some { s with worker := .Synced cover (some e) }
    | none =>
      some { s with
        seg := { s.seg with
          durable := fun b =>
            s.seg.durable b || (written b && b / config.wal_segment_size == cover.segment) }
        worker := .Synced cover none }
  | _ => none

/-- The worker's second critical section. -/
def worker_publish (s : WalWriter) : Option WalWriter :=
  match s.worker with
  | .Synced _ (some e) =>
    some { s with
      last_error := some s!"wal fsync failed: {e}"
      shutdown := true
      worker := .Exited }
  | .Synced cover none =>
    let durable := if s.seg.current_segment_id = cover.segment then cover.lsn
      else (cover.segment + 1) * config.wal_segment_size
    some { s with
      last_error := if s.shutdown then s.last_error else none
      synced_lsn := max s.synced_lsn durable
      pending := s.pending - cover.pending
      flush_requested := false
      worker := .Waiting }
  | _ => none

end WalWriter

/-! ## Steps -/

inductive WalOp where
  | append (record : WalRecord) (io : IoPlan)
  | reserve_and_append (record : WalRecord) (io : IoPlan)
  | flush_to (lsn : ℕ)
  /-- A sleeping `flush_to` looks again. -/
  | wake (i : ℕ)
  | recycle_before (lsn : ℕ) (io : IoPlan)
  | worker_sample (elapsed : Bool) (dup : Option String)
  | sync_start
  | sync_end (error : Option String)
  | worker_publish

def WalWriter.step (config : WalConfig) (s : WalWriter) : WalOp → Option WalWriter
  | .append record io => some (s.append config record io).1
  | .reserve_and_append record io => some (s.reserve_and_append config record io).1
  | .flush_to lsn => some (settle lsn (s.flush_to lsn))
  | .wake i =>
    match s.sleepers[i]? with
    | none => none
    | some lsn => some (settle lsn ({ s with sleepers := s.sleepers.eraseIdx i }.flush_to_loop lsn))
  | .recycle_before lsn io => some (s.recycle_before config lsn io).1
  | .worker_sample elapsed dup => s.worker_sample config elapsed dup
  | .sync_start => s.sync_start
  | .sync_end error => s.sync_end config error
  | .worker_publish => s.worker_publish config

/-! ## The invariant -/

/-- What a sampled wave may rely on. A byte of the log below the sampled position is in
the sampled segment or before it, and before it only if it is durable. -/
structure CoverOk (size : ℕ) (s : WalWriter) (c : Cover) : Prop where
  segment_le : c.segment ≤ s.seg.current_segment_id
  lsn_le : c.lsn ≤ s.clock
  within : ∀ b, b < c.lsn → b < s.tail → b / size ≤ c.segment
  below : ∀ b, b / size < c.segment → s.seg.durable b = true

/-- What the worker's position says about the bytes of its wave. -/
def WorkerOk (size : ℕ) (s : WalWriter) : Worker → Prop
  | .Waiting => True
  | .Sampled c => CoverOk size s c
  | .Syncing c written => CoverOk size s c ∧
      ∀ b, b < c.lsn → b < s.tail → written b = true
  | .Synced c none => CoverOk size s c ∧
      ∀ b, b < c.lsn → b < s.tail → b / size = c.segment → s.seg.durable b = true
  | .Synced c (some _) => CoverOk size s c
  | .Exited => True

/-- The records fill the log from `start` to its tail. -/
structure RecordsOk (start : ℕ) (s : WalWriter) : Prop where
  start_le : start ≤ s.tail
  range : ∀ a ∈ s.appended, start ≤ a.lsn ∧ 0 < a.size ∧ a.lsn + a.size ≤ s.tail
  covered : ∀ b, start ≤ b → b < s.tail → ∃ a ∈ s.appended, a.lsn ≤ b ∧ b < a.lsn + a.size

structure WalInv (config : WalConfig) (start : ℕ) (s : WalWriter) : Prop where
  segments : Sealed config.wal_segment_size s.seg
  written : ∀ b, b < s.tail → s.seg.written b = true
  written_lt : ∀ b, s.seg.written b = true → b < s.clock
  tail_le : s.tail ≤ s.clock
  /-- The clock leaves the log behind only when the writer is shut down for good. -/
  poisoned : s.tail ≠ s.clock → s.last_error ≠ none ∧ s.shutdown = true
  synced : ∀ b, b < s.synced_lsn → b < s.tail → s.seg.durable b = true
  synced_le : s.synced_lsn ≤ s.clock
  worker : WorkerOk config.wal_segment_size s s.worker
  records : RecordsOk start s
  flushed : ∀ lsn ∈ s.flushed, lsn ≤ s.synced_lsn

section Invariant

variable {config : WalConfig} {start : ℕ} {s t : WalWriter}

theorem WalInv.open_with_segment_manager {seg : WalSegments} {synced : ℕ} (hsynced : synced ≤ start)
    (hsize : 0 < config.wal_segment_size)
    (hlo : seg.current_segment_id * config.wal_segment_size ≤ start)
    (hhi : start ≤ (seg.current_segment_id + 1) * config.wal_segment_size) :
    WalInv config start (WalWriter.open_with_segment_manager seg start synced) := by
  have hpre : ∀ b, b / config.wal_segment_size < seg.current_segment_id → b < start := by
    intro b hb
    exact lt_of_lt_of_le ((Nat.div_lt_iff_lt_mul hsize).mp hb) hlo
  refine ⟨⟨fun b hb => ?_, fun b hb => ?_, fun b hb => ?_⟩, fun b hb => ?_, fun b hb => ?_,
    le_refl _, fun h => absurd rfl h, fun b _ hb => ?_, hsynced, trivial,
    ⟨le_refl _, by simp [WalWriter.open_with_segment_manager], fun b hlo hhi => ?_⟩,
    by simp [WalWriter.open_with_segment_manager]⟩
  · have hb' : b < start := of_decide_eq_true hb
    exact Nat.lt_succ_iff.mp ((Nat.div_lt_iff_lt_mul hsize).mpr (lt_of_lt_of_le hb' hhi))
  · exact decide_eq_true (hpre b hb)
  · exact decide_eq_true (hpre b hb)
  · exact decide_eq_true hb
  · exact of_decide_eq_true hb
  · exact decide_eq_true hb
  · exact absurd hhi (not_lt.mpr hlo)

/-- The cover of a wave outlives a step that takes nothing back and extends the log
only when the clock had not left it. -/
theorem CoverOk.mono {size : ℕ} {c : Cover} (hc : CoverOk size s c) (hg : Grows s.seg t.seg)
    (hclock : s.clock ≤ t.clock) (htail : ∀ b, b < c.lsn → b < t.tail → b < s.tail) :
    CoverOk size t c :=
  ⟨le_trans hc.segment_le hg.current, le_trans hc.lsn_le hclock,
    fun b hb hbt => hc.within b hb (htail b hb hbt), fun b hb => hg.durable b (hc.below b hb)⟩

theorem WorkerOk.mono {size : ℕ} {w : Worker} (hw : WorkerOk size s w) (hg : Grows s.seg t.seg)
    (hclock : s.clock ≤ t.clock)
    (htail : ∀ b c, b < c → c ≤ s.clock → b < t.tail → b < s.tail) : WorkerOk size t w := by
  have hmono : ∀ c, CoverOk size s c → CoverOk size t c := fun c hc =>
    hc.mono hg hclock fun b hb => htail b c.lsn hb hc.lsn_le
  match w with
  | .Waiting => trivial
  | .Exited => trivial
  | .Sampled c => exact hmono c hw
  | .Synced c (some _) => exact hmono c hw
  | .Syncing c written =>
    exact ⟨hmono c hw.1, fun b hb hbt => hw.2 b hb (htail b c.lsn hb hw.1.lsn_le hbt)⟩
  | .Synced c none =>
    exact ⟨hmono c hw.1, fun b hb hbt heq =>
      hg.durable b (hw.2 b hb (htail b c.lsn hb hw.1.lsn_le hbt) heq)⟩

/-- The two ways an append can change the writer. -/
theorem append_as_cases {name : String} {record : WalRecord} {io : IoPlan} :
    (s.append_as config name record io).1 = s ∧
        (∃ e, (s.append_as config name record io).2 = .error e) ∨
      s.last_error = none ∧ ∃ seg r buf, buf.length = record.record_size ∧
        s.seg.write_record_to_segment config.wal_segment_size buf s.clock io = (seg, r) ∧
        ((∃ e msg, r = .error e ∧ (s.append_as config name record io).2 = .error e ∧
            (s.append_as config name record io).1 =
              { s with
                seg, clock := s.clock + record.record_size, last_error := some msg,
                shutdown := true }) ∨
          (∃ io', r = .ok io' ∧ (s.append_as config name record io).2 = .ok s.clock ∧
            (s.append_as config name record io).1 =
              { s with
                seg, clock := s.clock + record.record_size, pending := s.pending + 1,
                appended := s.appended ++ [⟨s.clock, record.record_size⟩],
                tail := s.clock + record.record_size })) := by
  have hsize : ({ record with lsn := s.clock } : WalRecord).record_size = record.record_size := rfl
  unfold WalWriter.append_as
  split
  · exact .inl ⟨rfl, _, rfl⟩
  next hnone =>
  simp only [hsize]
  split_ifs with hlen
  · exact .inl ⟨rfl, _, rfl⟩
  right
  have henc : ({ record with lsn := s.clock } : WalRecord).encode =
      .ok ({ record with lsn := s.clock } : WalRecord).bytes := if_neg hlen
  simp only [henc]
  cases hw : s.seg.write_record_to_segment config.wal_segment_size
    ({ record with lsn := s.clock } : WalRecord).bytes s.clock io with
  | mk seg r =>
  refine ⟨hnone, seg, r, _, (WalRecord.length_bytes _).trans hsize, hw, ?_⟩
  cases r with
  | error e => exact .inl ⟨e, _, rfl, rfl, rfl⟩
  | ok io' => exact .inr ⟨io', rfl, rfl, rfl⟩

/-- A segment write, failed or not, at the clock of a writer that is not poisoned. -/
theorem WalInv.append (hs : WalInv config start s) (hsize : 0 < config.wal_segment_size)
    {name : String} {record : WalRecord} {io : IoPlan} :
    WalInv config start (s.append_as config name record io).1 := by
  rcases append_as_cases with ⟨heq, -⟩ | ⟨hnone, seg, r, buf, hbuf, hw, hcase⟩
  · rw [heq]
    exact hs
  have htc : s.tail = s.clock := by
    by_contra hne
    exact (hs.poisoned hne).1 hnone
  obtain ⟨hg, hsealed, hnew, hall⟩ := write_record_to_segment_spec hsize hs.segments
    (fun b hb => hs.written b (by rw [htc]; exact hb)) hw
  rw [hbuf] at hnew hall
  have hwl : ∀ b, seg.written b = true → b < s.clock + record.record_size := by
    intro b hb
    rcases hnew b hb with hb | ⟨-, hb⟩
    · exact lt_of_lt_of_le (hs.written_lt b hb) (Nat.le_add_right _ _)
    · exact hb
  have hsynced : ∀ b, b < s.synced_lsn → b < s.tail → seg.durable b = true := fun b hb hbt =>
    hg.durable b (hs.synced b hb hbt)
  have hclock : s.clock ≤ s.clock + record.record_size := Nat.le_add_right _ _
  rcases hcase with ⟨e, msg, rfl, -, heq⟩ | ⟨io', rfl, -, heq⟩
  · rw [heq]
    exact ⟨hsealed, fun b hb => hg.written b (hs.written b hb), hwl, le_trans hs.tail_le hclock,
      fun _ => ⟨by simp, rfl⟩, hsynced, le_trans hs.synced_le hclock,
      hs.worker.mono hg hclock fun _ _ _ _ hb => hb,
      ⟨hs.records.start_le, hs.records.range, hs.records.covered⟩, hs.flushed⟩
  · rw [heq]
    have hle := hs.synced_le
    -- a wave sampled before this record lies below the old tail
    have hold : ∀ b c, b < c → c ≤ s.clock → b < s.clock + record.record_size → b < s.tail := by
      intro b c hbc hc _
      omega
    refine ⟨hsealed, hall io' rfl, hwl, le_refl _, fun h => absurd rfl h,
      fun b (hb : b < s.synced_lsn) _ => hsynced b hb (by omega), le_trans hs.synced_le hclock,
      hs.worker.mono hg hclock hold,
      ⟨le_trans hs.records.start_le (by rw [htc]; exact hclock), fun a ha => ?_,
        fun b hlo hhi => ?_⟩, hs.flushed⟩
    · rcases List.mem_append.mp ha with ha | ha
      · obtain ⟨h1, h2, h3⟩ := hs.records.range a ha
        exact ⟨h1, h2, le_trans h3 (by rw [htc]; exact hclock)⟩
      · rw [List.mem_singleton.mp ha]
        exact ⟨by rw [← htc]; exact hs.records.start_le,
          lt_of_lt_of_le (by decide) record.le_record_size, le_refl _⟩
    · by_cases hb : b < s.tail
      · obtain ⟨a, ha, hin⟩ := hs.records.covered b hlo hb
        exact ⟨a, List.mem_append_left _ ha, hin⟩
      · have hlo' : s.clock ≤ b := by omega
        exact ⟨_, List.mem_append_right _ (List.mem_singleton.mpr rfl), hlo', hhi⟩

/-- Steps that touch neither the files nor the positions. -/
theorem WalInv.of_same (hs : WalInv config start s)
    (hsealed : Sealed config.wal_segment_size t.seg) (hwr : t.seg.written = s.seg.written)
    (hclock : t.clock = s.clock) (htail : t.tail = s.tail) (happ : t.appended = s.appended)
    (hpoison : s.last_error ≠ none ∧ s.shutdown = true → t.last_error ≠ none ∧ t.shutdown = true)
    (hsynced : ∀ b, b < t.synced_lsn → b < s.tail → t.seg.durable b = true)
    (hle : t.synced_lsn ≤ s.clock) (hworker : WorkerOk config.wal_segment_size t t.worker)
    (hflushed : ∀ lsn ∈ t.flushed, lsn ≤ t.synced_lsn) : WalInv config start t := by
  refine ⟨hsealed, fun b hb => ?_, fun b hb => ?_, ?_, fun h => ?_, fun b hb hbt => ?_, ?_, hworker,
    ⟨?_, fun a ha => ?_, fun b hlo hhi => ?_⟩, hflushed⟩
  · rw [hwr]
    exact hs.written b (htail ▸ hb)
  · rw [hclock]
    exact hs.written_lt b (hwr ▸ hb)
  · rw [htail, hclock]
    exact hs.tail_le
  · rw [htail, hclock] at h
    exact hpoison (hs.poisoned h)
  · exact hsynced b hb (htail ▸ hbt)
  · rw [hclock]
    exact hle
  · rw [htail]
    exact hs.records.start_le
  · rw [htail]
    exact hs.records.range a (happ ▸ ha)
  · rw [happ]
    exact hs.records.covered b hlo (htail ▸ hhi)

/-- Where the positions are the same, so is what the worker may rely on. -/
theorem WorkerOk.congr {size : ℕ} {w : Worker} (hw : WorkerOk size s w) (hseg : t.seg = s.seg)
    (hclock : t.clock = s.clock) (htail : t.tail = s.tail) : WorkerOk size t w :=
  hw.mono (by rw [hseg]; exact Grows.refl _) (le_of_eq hclock.symm)
    fun _ _ _ _ hb => by rwa [htail] at hb

/-- A pass of `flush_to` changes `flush_requested` at most, and returns `Ok` only when
the position has been published. -/
theorem flush_to_loop_cases {lsn : ℕ} :
    ∃ req, (s.flush_to_loop lsn).1 = { s with flush_requested := req } ∧
      (∀ u, (s.flush_to_loop lsn).2 = .Returned (.ok u) → lsn ≤ s.synced_lsn) := by
  unfold WalWriter.flush_to_loop
  split
  next hle => exact ⟨s.flush_requested, rfl, fun _ _ => hle⟩
  next =>
    split
    · exact ⟨s.flush_requested, rfl, fun u hu => by simp at hu⟩
    · split
      · exact ⟨s.flush_requested, rfl, fun u hu => by simp at hu⟩
      · exact ⟨true, rfl, fun u hu => by simp at hu⟩

theorem flush_to_cases {lsn : ℕ} :
    ∃ req, (s.flush_to lsn).1 = { s with flush_requested := req } ∧
      (∀ u, (s.flush_to lsn).2 = .Returned (.ok u) → lsn ≤ s.synced_lsn) := by
  unfold WalWriter.flush_to
  split
  · exact ⟨s.flush_requested, rfl, fun u hu => by simp at hu⟩
  · split_ifs with hnew hle
    · exact ⟨s.flush_requested, rfl, fun u hu => by simp at hu⟩
    · exact ⟨s.flush_requested, rfl, fun _ _ => hle⟩
    · obtain ⟨req, hreq, hok⟩ := @flush_to_loop_cases { s with flush_requested := true } lsn
      exact ⟨req, by rw [hreq], hok⟩

/-- Settling a pass keeps the invariant. -/
theorem WalInv.settle (hs : WalInv config start s) {lsn : ℕ} {turn : WalWriter × FlushTurn}
    {req : Bool} {sleepers : List ℕ}
    (hturn : turn.1 = { s with flush_requested := req, sleepers := sleepers })
    (hok : ∀ u, turn.2 = .Returned (.ok u) → lsn ≤ s.synced_lsn) :
    WalInv config start (WalWriter.settle lsn turn) := by
  obtain ⟨t, turn⟩ := turn
  simp only at hturn
  subst hturn
  have hw := hs.worker
  cases turn with
  | Sleep =>
    exact hs.of_same hs.segments rfl rfl rfl rfl id hs.synced hs.synced_le
      (hw.congr rfl rfl rfl) hs.flushed
  | Returned result =>
    cases result with
    | error e =>
      exact hs.of_same hs.segments rfl rfl rfl rfl id hs.synced hs.synced_le
        (hw.congr rfl rfl rfl) hs.flushed
    | ok u =>
      refine hs.of_same hs.segments rfl rfl rfl rfl id hs.synced hs.synced_le
        (hw.congr rfl rfl rfl) fun l hl => ?_
      rcases List.mem_cons.mp hl with rfl | hl
      · exact hok u rfl
      · exact hs.flushed l hl

theorem WalInv.recycle_before (hs : WalInv config start s) {lsn : ℕ} {io : IoPlan} :
    WalInv config start (s.recycle_before config lsn io).1 := by
  unfold WalWriter.recycle_before
  cases herr : s.last_error with
  | some msg => exact hs
  | none =>
    simp only
    split_ifs
    · exact hs
    · -- only the list of files changes
      refine hs.of_same ⟨hs.segments.reached, hs.segments.filled, hs.segments.synced⟩ rfl rfl rfl rfl
        (fun h => absurd herr h.1) hs.synced hs.synced_le ?_ hs.flushed
      exact hs.worker.mono ⟨le_refl _, fun _ h => h, fun _ h => h⟩ (le_refl _) fun _ _ _ _ h => h

theorem WalInv.worker_sample (hs : WalInv config start s) {elapsed : Bool} {dup : Option String}
    (h : s.worker_sample config elapsed dup = some t) : WalInv config start t := by
  unfold WalWriter.worker_sample at h
  cases hw : s.worker with
  | Waiting =>
    simp only [hw] at h
    split_ifs at h with hexit hwait
    · cases h
      exact hs.of_same hs.segments rfl rfl rfl rfl id hs.synced hs.synced_le trivial
        hs.flushed
    · cases dup with
      | some e =>
        cases h
        exact hs.of_same hs.segments rfl rfl rfl rfl (fun _ => ⟨by simp, rfl⟩)
          hs.synced hs.synced_le trivial hs.flushed
      | none =>
        cases h
        exact hs.of_same hs.segments rfl rfl rfl rfl id hs.synced hs.synced_le
          ⟨le_refl _, le_refl _, fun b _ hb => hs.segments.reached b (hs.written b hb),
            hs.segments.synced⟩ hs.flushed
  | Sampled c => simp [hw] at h
  | Syncing c written => simp [hw] at h
  | Synced c e => simp [hw] at h
  | Exited => simp [hw] at h

theorem WalInv.sync_start (hs : WalInv config start s) (h : s.sync_start = some t) :
    WalInv config start t := by
  unfold WalWriter.sync_start at h
  cases hw : s.worker with
  | Sampled c =>
    rw [hw] at h
    cases h
    have hc : CoverOk config.wal_segment_size s c := by
      have := hs.worker
      rwa [hw] at this
    exact hs.of_same hs.segments rfl rfl rfl rfl id hs.synced hs.synced_le
      ⟨⟨hc.segment_le, hc.lsn_le, hc.within, hc.below⟩, fun b _ hb => hs.written b hb⟩ hs.flushed
  | Waiting => simp [hw] at h
  | Syncing c written => simp [hw] at h
  | Synced c e => simp [hw] at h
  | Exited => simp [hw] at h

theorem WalInv.sync_end (hs : WalInv config start s) {error : Option String}
    (h : s.sync_end config error = some t) : WalInv config start t := by
  unfold WalWriter.sync_end at h
  cases hw : s.worker with
  | Syncing c written =>
    have hc := hs.worker
    rw [hw] at hc h
    obtain ⟨hc, hcov⟩ := hc
    cases error with
    | some e =>
      cases h
      exact hs.of_same hs.segments rfl rfl rfl rfl id hs.synced hs.synced_le
        ⟨hc.segment_le, hc.lsn_le, hc.within, hc.below⟩ hs.flushed
    | none =>
      cases h
      have hdur : ∀ b, s.seg.durable b = true → (s.seg.durable b || (written b &&
          b / config.wal_segment_size == c.segment)) = true := fun b hb => by simp [hb]
      refine hs.of_same ⟨hs.segments.reached, hs.segments.filled, fun b hb =>
        hdur b (hs.segments.synced b hb)⟩ rfl rfl rfl rfl id (fun b hb hbt =>
        hdur b (hs.synced b hb hbt)) hs.synced_le
        ⟨⟨hc.segment_le, hc.lsn_le, hc.within, fun b hb => hdur b (hc.below b hb)⟩,
          fun b hb hbt heq => ?_⟩ hs.flushed
      simp [hcov b hb hbt, heq]
  | Waiting => simp [hw] at h
  | Sampled c => simp [hw] at h
  | Synced c e => simp [hw] at h
  | Exited => simp [hw] at h

/-- **A wave publishes what is durable.** If the log has moved on to a later segment, the
sampled one is full and rotation has synced it. -/
theorem WalInv.worker_publish (hs : WalInv config start s) (hsize : 0 < config.wal_segment_size)
    (h : s.worker_publish config = some t) : WalInv config start t := by
  unfold WalWriter.worker_publish at h
  cases hw : s.worker with
  | Synced c e =>
    have hc := hs.worker
    rw [hw] at hc h
    cases e with
    | some e =>
      cases h
      exact hs.of_same hs.segments rfl rfl rfl rfl (fun _ => ⟨by simp, rfl⟩)
        hs.synced hs.synced_le trivial hs.flushed
    | none =>
      obtain ⟨hc, hhere⟩ := hc
      cases h
      generalize hpos : (if s.seg.current_segment_id = c.segment then c.lsn
        else (c.segment + 1) * config.wal_segment_size) = pos
      have hdur : ∀ b, b < pos → b < s.tail → s.seg.durable b = true := by
        intro b hb hbt
        rw [← hpos] at hb
        split_ifs at hb with hcur
        · rcases Nat.lt_or_eq_of_le (hc.within b hb hbt) with hlt | heq
          · exact hc.below b hlt
          · exact hhere b hb hbt heq
        · have hseg : b / config.wal_segment_size < c.segment + 1 :=
            (Nat.div_lt_iff_lt_mul hsize).mpr hb
          have hle := hc.segment_le
          exact hs.segments.synced b (by omega)
      have hle : pos ≤ s.clock := by
        rw [← hpos]
        split_ifs with hcur
        · exact hc.lsn_le
        · -- the last byte of the sampled segment is written
          have hseg := hc.segment_le
          have hmul : 0 < (c.segment + 1) * config.wal_segment_size :=
            Nat.mul_pos (Nat.succ_pos _) hsize
          have hlast : ((c.segment + 1) * config.wal_segment_size - 1) / config.wal_segment_size <
              s.seg.current_segment_id := by
            have : ((c.segment + 1) * config.wal_segment_size - 1) / config.wal_segment_size <
                c.segment + 1 := (Nat.div_lt_iff_lt_mul hsize).mpr (Nat.sub_lt hmul Nat.one_pos)
            omega
          have := hs.written_lt _ (hs.segments.filled _ hlast)
          omega
      refine hs.of_same hs.segments rfl rfl rfl rfl ?_ (fun b hb hbt => ?_)
        (max_le hs.synced_le hle) trivial fun l hl => le_trans (hs.flushed l hl) (le_max_left _ _)
      · rintro ⟨herr, hsd⟩
        exact ⟨by simp [hsd, herr], hsd⟩
      · rcases lt_max_iff.mp hb with hb | hb
        · exact hs.synced b hb hbt
        · exact hdur b hb hbt
  | Waiting => simp [hw] at h
  | Sampled c => simp [hw] at h
  | Syncing c written => simp [hw] at h
  | Exited => simp [hw] at h

/-- A step that appends nothing. A wave samples the clock, and publishes what it has
sampled or the end of its segment. -/
structure Quiet (config : WalConfig) (s t : WalWriter) : Prop where
  clock : t.clock = s.clock
  tail : t.tail = s.tail
  appended : t.appended = s.appended
  durable : ∀ b, s.seg.durable b = true → t.seg.durable b = true
  synced : s.synced_lsn ≤ t.synced_lsn
  published : t.synced_lsn = s.synced_lsn ∨ ∃ c, s.worker.cover = some c ∧
    (t.synced_lsn = c.lsn ∨ t.synced_lsn = (c.segment + 1) * config.wal_segment_size)
  sampled : ∀ c, t.worker.cover = some c → s.worker.cover = some c ∨ c.lsn = s.clock

/-- Only fields that the log does not depend on differ. -/
theorem Quiet.of_eq (hclock : t.clock = s.clock) (htail : t.tail = s.tail)
    (happ : t.appended = s.appended) (hdur : ∀ b, s.seg.durable b = true → t.seg.durable b = true)
    (hsynced : t.synced_lsn = s.synced_lsn)
    (hcover : ∀ c, t.worker.cover = some c → s.worker.cover = some c) : Quiet config s t :=
  ⟨hclock, htail, happ, hdur, le_of_eq hsynced.symm, .inl hsynced, fun c hc => .inl (hcover c hc)⟩

theorem Quiet.settle {lsn : ℕ} {turn : WalWriter × FlushTurn} (h : Quiet config s turn.1) :
    Quiet config s (WalWriter.settle lsn turn) := by
  obtain ⟨hclock, htail, happ, hdur, hsynced, hpub, hsamp⟩ := h
  match turn with
  | (_, .Sleep) => exact ⟨hclock, htail, happ, hdur, hsynced, hpub, hsamp⟩
  | (_, .Returned (.ok _)) => exact ⟨hclock, htail, happ, hdur, hsynced, hpub, hsamp⟩
  | (_, .Returned (.error _)) => exact ⟨hclock, htail, happ, hdur, hsynced, hpub, hsamp⟩

theorem worker_sample_quiet {elapsed : Bool} {dup : Option String}
    (h : s.worker_sample config elapsed dup = some t) : Quiet config s t := by
  simp only [WalWriter.worker_sample] at h
  split at h
  · split_ifs at h
    · cases h
      exact Quiet.of_eq rfl rfl rfl (fun _ h => h) rfl (by simp [Worker.cover])
    · split at h
      · cases h
        exact Quiet.of_eq rfl rfl rfl (fun _ h => h) rfl (by simp [Worker.cover])
      · cases h
        refine ⟨rfl, rfl, rfl, fun _ h => h, le_refl _, .inl rfl, fun c hc => .inr ?_⟩
        rw [← Option.some.inj hc]
  · simp at h

theorem sync_start_quiet (h : s.sync_start = some t) : Quiet config s t := by
  unfold WalWriter.sync_start at h
  split at h
  next hw =>
    cases h
    exact Quiet.of_eq rfl rfl rfl (fun _ h => h) rfl fun c hc => by rw [hw]; exact hc
  · simp at h

theorem sync_end_quiet {error : Option String} (h : s.sync_end config error = some t) :
    Quiet config s t := by
  unfold WalWriter.sync_end at h
  split at h
  next hw =>
    split at h
    · cases h
      exact Quiet.of_eq rfl rfl rfl (fun _ h => h) rfl fun c hc => by rw [hw]; exact hc
    · cases h
      exact Quiet.of_eq rfl rfl rfl (fun b h => by simp [h]) rfl fun c hc => by rw [hw]; exact hc
  · simp at h

theorem worker_publish_quiet (h : s.worker_publish config = some t) : Quiet config s t := by
  unfold WalWriter.worker_publish at h
  split at h
  · cases h
    exact Quiet.of_eq rfl rfl rfl (fun _ h => h) rfl (by simp [Worker.cover])
  next cover hw =>
    cases h
    refine ⟨rfl, rfl, rfl, fun _ h => h, le_max_left _ _, ?_, by simp [Worker.cover]⟩
    rcases max_choice s.synced_lsn (if s.seg.current_segment_id = cover.segment then cover.lsn
      else (cover.segment + 1) * config.wal_segment_size) with heq | heq
    · exact .inl heq
    · refine .inr ⟨cover, by rw [hw]; rfl, ?_⟩
      simp only [heq]
      split_ifs
      · exact .inl rfl
      · exact .inr rfl
  · simp at h

/-- **What a step can do**: append, or leave the log as it is. -/
theorem step_cases {op : WalOp} (h : s.step config op = some t) :
    (∃ name record io, (op = .append record io ∧ name = "append" ∨
        op = .reserve_and_append record io ∧ name = "reserve_and_append") ∧
      t = (s.append_as config name record io).1) ∨ Quiet config s t := by
  cases op with
  | append record io =>
    cases h
    exact .inl ⟨_, record, io, .inl ⟨rfl, rfl⟩, rfl⟩
  | reserve_and_append record io =>
    cases h
    exact .inl ⟨_, record, io, .inr ⟨rfl, rfl⟩, rfl⟩
  | flush_to lsn =>
    cases h
    obtain ⟨req, hreq, -⟩ := @flush_to_cases s lsn
    refine .inr (Quiet.settle ?_)
    rw [hreq]
    exact Quiet.of_eq rfl rfl rfl (fun _ h => h) rfl fun _ hc => hc
  | wake i =>
    simp only [WalWriter.step] at h
    split at h
    · simp at h
    next lsn _ =>
      cases h
      obtain ⟨req, hreq, -⟩ := @flush_to_loop_cases { s with sleepers := s.sleepers.eraseIdx i } lsn
      refine .inr (Quiet.settle ?_)
      rw [hreq]
      exact Quiet.of_eq rfl rfl rfl (fun _ h => h) rfl fun _ hc => hc
  | recycle_before lsn io =>
    cases h
    right
    have hid : Quiet config s s := Quiet.of_eq rfl rfl rfl (fun _ h => h) rfl fun _ hc => hc
    unfold WalWriter.recycle_before
    split
    · exact hid
    · split_ifs
      · exact hid
      · exact Quiet.of_eq rfl rfl rfl (fun _ h => h) rfl fun _ hc => hc
  | worker_sample elapsed dup => exact .inr (worker_sample_quiet h)
  | sync_start => exact .inr (sync_start_quiet h)
  | sync_end error => exact .inr (sync_end_quiet h)
  | worker_publish => exact .inr (worker_publish_quiet h)

theorem WalInv.step (hsize : 0 < config.wal_segment_size) {op : WalOp} (hs : WalInv config start s)
    (h : s.step config op = some t) : WalInv config start t := by
  cases op with
  | append record io =>
    cases h
    exact hs.append hsize
  | reserve_and_append record io =>
    cases h
    exact hs.append hsize
  | flush_to lsn =>
    cases h
    obtain ⟨req, hreq, hok⟩ := @flush_to_cases s lsn
    exact @WalInv.settle config start s hs lsn _ req s.sleepers hreq hok
  | wake i =>
    simp only [WalWriter.step] at h
    split at h
    · simp at h
    next lsn _ =>
      cases h
      obtain ⟨req, hreq, hok⟩ :=
        @flush_to_loop_cases { s with sleepers := s.sleepers.eraseIdx i } lsn
      exact hs.settle hreq hok
  | recycle_before lsn io =>
    cases h
    exact hs.recycle_before
  | worker_sample elapsed dup => exact hs.worker_sample h
  | sync_start => exact hs.sync_start h
  | sync_end error => exact hs.sync_end h
  | worker_publish => exact hs.worker_publish hsize h

theorem WalInv.run (hsize : 0 < config.wal_segment_size) {ops : List WalOp}
    (hs : WalInv config start s) (h : run (WalWriter.step config) s ops = some t) :
    WalInv config start t :=
  run_invariant (WalInv config start) (fun _ _ _ hI hst => hI.step hsize hst) hs h

end Invariant

/-! ## The published position -/

/-- An append that moves the clock returns `Ok`. -/
def WalWriter.WritesRecord (config : WalConfig) (s : WalWriter) : WalOp → Prop
  | .append record io =>
    (s.append config record io).1.clock ≠ s.clock → (s.append config record io).2.isOk = true
  | .reserve_and_append record io =>
    (s.reserve_and_append config record io).1.clock ≠ s.clock →
      (s.reserve_and_append config record io).2.isOk = true
  | _ => True

instance (config : WalConfig) (s : WalWriter) : ∀ op, Decidable (s.WritesRecord config op)
  | .append _ _ => inferInstanceAs (Decidable (_ → _))
  | .reserve_and_append _ _ => inferInstanceAs (Decidable (_ → _))
  | .flush_to _ => isTrue trivial
  | .wake _ => isTrue trivial
  | .recycle_before _ _ => isTrue trivial
  | .worker_sample _ _ => isTrue trivial
  | .sync_start => isTrue trivial
  | .sync_end _ => isTrue trivial
  | .worker_publish => isTrue trivial

/-- In such a run the clock is the end of the log. -/
theorem clock_eq_tail {config : WalConfig} {s t : WalWriter} {op : WalOp} (hs : s.tail = s.clock)
    (hop : s.WritesRecord config op) (h : s.step config op = some t) : t.tail = t.clock := by
  have happend : ∀ (name : String) (record : WalRecord) (io : IoPlan),
      ((s.append_as config name record io).1.clock ≠ s.clock →
        (s.append_as config name record io).2.isOk = true) →
      (s.append_as config name record io).1.tail = (s.append_as config name record io).1.clock := by
    intro name record io hok
    rcases @append_as_cases config s name record io with
      ⟨heq, -⟩ | ⟨-, seg, r, buf, -, -, ⟨e, msg, -, hres, heq⟩ | ⟨io', -, -, heq⟩⟩
    · rw [heq]
      exact hs
    · rw [heq, hres] at hok
      have hpos := record.le_record_size
      exact absurd (hok (by simp only; omega)) (by simp [Except.isOk, Except.toBool])
    · rw [heq]
  rcases step_cases h with ⟨name, record, io, hop', rfl⟩ | hq
  · rcases hop' with ⟨rfl, rfl⟩ | ⟨rfl, rfl⟩
    · exact happend _ record io hop
    · exact happend _ record io hop
  · rw [hq.tail, hq.clock]
    exact hs

/-- Segments of 64 bytes, every append flushed at once. -/
def small_config : WalConfig := ⟨64, 1⟩

/-- The first segment, empty. -/
def first_segment : WalSegments := ⟨0, [0], fun _ => 0, fun _ => false, fun _ => false⟩

/-- A record of the given payload length. -/
def blank_record (len : ℕ) : WalRecord := ⟨0, 0, 0, .PageAlloc, 0, List.replicate len 0⟩

/-- The second record is written, across the segment boundary, while the wave for the
first one is in `sync_all`. -/
def rotate_during_sync : List WalOp :=
  [.append (blank_record 8) .reliable, .flush_to 48, .worker_sample false none, .sync_start,
   .append (blank_record 8) .reliable, .sync_end none, .worker_publish, .wake 0]

/-- A record longer than a segment, after one that is pending. -/
def oversized_append : List WalOp :=
  [.append (blank_record 8) .reliable, .append (blank_record 100) .reliable,
   .worker_sample false none, .sync_start, .sync_end none, .worker_publish]

end Ams
