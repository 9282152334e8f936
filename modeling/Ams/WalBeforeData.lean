/-
WAL before data: `BufferPool::flush_frame_write` next to the WAL writer.

A flush holds the page's read latch from the moment it reads `pd_lsn` to the write, so
between these two points the page does not change, but the log does: each of
`current_lsn`, `synced_lsn` and `flush_to` takes the writer's mutex for itself. The
steps here are those calls, interleaved with every step of the writer and its worker.

`pd_lsn` is where the page's last record starts. The flush skips `flush_to` when
`synced_lsn` is strictly past it, which is sound as long as `synced_lsn` does not rest
inside that record. It can: a wave whose segment was rotated away publishes the end of
the segment, and a record that was written across the boundary in the meantime has its
second half in a file nobody has synced (`page_written_before_record_synced`).
-/
import Ams.WalWriter

set_option autoImplicit false

namespace Ams

open Ams.Lib

/-! ## Flushes -/

/-- Where a `flush_frame_write` is, with the `pd_lsn` it has read. -/
inductive FlushPc where
  | ReadCurrent (page_lsn : ℕ)
  | ReadSynced (page_lsn : ℕ)
  | ReadTarget (page_lsn : ℕ)
  | CallFlush (page_lsn target : ℕ)
  | Asleep (page_lsn target : ℕ)
  /-- About to call `write_all_at`. -/
  | Write (page_lsn : ℕ)
deriving DecidableEq, Repr

/-- The writer, the pages in memory, and the flushes in progress. -/
structure WalPool where
  wal : WalWriter
  pd_lsn : PageId → ℕ
  flushes : List (PageId × FlushPc)

inductive WalPoolOp where
  | wal (op : WalOp)
  /-- A writer stamps a page with a record it has appended. -/
  | stamp (page_id : PageId) (lsn : ℕ)
  | flush_frame_write (page_id : PageId)
  /-- The `i`-th flush takes its next step. -/
  | flush_step (i : ℕ)

namespace WalPool

/-- The flush after a call of `flush_to`: it is over if the call failed. -/
def after_flush (s : WalPool) (i : ℕ) (page_id : PageId) (page_lsn target : ℕ) :
    WalWriter × FlushTurn → WalPool
  | (wal, .Returned (.ok _)) => { s with wal, flushes := s.flushes.set i (page_id, .Write page_lsn) }
  | (wal, .Returned (.error _)) => { s with wal, flushes := s.flushes.eraseIdx i }
  | (wal, .Sleep) => { s with wal, flushes := s.flushes.set i (page_id, .Asleep page_lsn target) }

def flush_step (s : WalPool) (i : ℕ) : Option WalPool :=
  match s.flushes[i]? with
  | none => none
  | some (page_id, pc) =>
    match pc with
    | .ReadCurrent page_lsn =>
      let pc := if page_lsn ≠ Lsn.INVALID ∧ page_lsn ≤ s.wal.clock then .ReadSynced page_lsn
        else .Write page_lsn
      some { s with flushes := s.flushes.set i (page_id, pc) }
    | .ReadSynced page_lsn =>
      let pc := if s.wal.synced_lsn ≤ page_lsn then .ReadTarget page_lsn else .Write page_lsn
      some { s with flushes := s.flushes.set i (page_id, pc) }
    | .ReadTarget page_lsn =>
      some { s with flushes := s.flushes.set i (page_id, .CallFlush page_lsn s.wal.clock) }
    | .CallFlush page_lsn target =>
      some (s.after_flush i page_id page_lsn target (s.wal.flush_to target))
    | .Asleep page_lsn target =>
      some (s.after_flush i page_id page_lsn target (s.wal.flush_to_loop target))
    | .Write _ => some { s with flushes := s.flushes.eraseIdx i }

def step (config : WalConfig) (s : WalPool) : WalPoolOp → Option WalPool
  | .wal op => (s.wal.step config op).map fun wal => { s with wal }
  | .stamp page_id lsn =>
    -- the write latch is free, and the record's append has returned
    if (∀ f ∈ s.flushes, f.1 ≠ page_id) ∧ ∃ a ∈ s.wal.appended, a.lsn = lsn then
      some { s with pd_lsn := Function.update s.pd_lsn page_id lsn }
    else none
  | .flush_frame_write page_id =>
    some { s with flushes := s.flushes ++ [(page_id, .ReadCurrent (s.pd_lsn page_id))] }
  | .flush_step i => s.flush_step i

end WalPool

/-! ## The invariant -/

/-- Every byte of the record is fsynced. -/
def Fsynced (s : WalWriter) (a : Appended) : Prop :=
  ∀ b, a.lsn ≤ b → b < a.lsn + a.size → s.seg.durable b = true

/-- An LSN that is on a page: older than this session, or of a record of it. -/
def KnownLsn (start : ℕ) (s : WalWriter) (lsn : ℕ) : Prop :=
  lsn < start ∨ ∃ a ∈ s.appended, a.lsn = lsn

/-- What a flush has established when it is about to take its next step. -/
def FlushOk (s : WalWriter) : FlushPc → Prop
  | .CallFlush page_lsn target => ∀ a ∈ s.appended, a.lsn = page_lsn → a.lsn + a.size ≤ target
  | .Asleep page_lsn target => ∀ a ∈ s.appended, a.lsn = page_lsn → a.lsn + a.size ≤ target
  | .Write page_lsn => ∀ a ∈ s.appended, a.lsn = page_lsn → Fsynced s a
  | _ => True

/-- The `pd_lsn` a flush goes by. -/
def FlushPc.page_lsn : FlushPc → ℕ
  | .ReadCurrent l | .ReadSynced l | .ReadTarget l | .CallFlush l _ | .Asleep l _ | .Write l => l

structure WalPoolInv (config : WalConfig) (start : ℕ) (s : WalPool) : Prop where
  wal : WalInv config start s.wal
  pages : ∀ page_id, KnownLsn start s.wal (s.pd_lsn page_id)
  known : ∀ f ∈ s.flushes, KnownLsn start s.wal f.2.page_lsn
  flushes : ∀ f ∈ s.flushes, FlushOk s.wal f.2

section Invariant

variable {config : WalConfig} {start : ℕ} {w w' : WalWriter} {s t : WalPool}

/-- What has been established outlives the writer's steps: no later record starts at an
LSN that is on a page. -/
structure Later (w w' : WalWriter) : Prop where
  durable : ∀ b, w.seg.durable b = true → w'.seg.durable b = true
  kept : ∀ a ∈ w.appended, a ∈ w'.appended
  fresh : ∀ a ∈ w'.appended, a ∈ w.appended ∨ a.lsn = w.tail

theorem later_of_same (hseg : w'.seg = w.seg) (happ : w'.appended = w.appended) : Later w w' :=
  ⟨fun b h => by rw [hseg]; exact h, fun a h => by rw [happ]; exact h,
    fun a h => .inl (by rwa [happ] at h)⟩

theorem WalInv.later (hw : WalInv config start w) (hsize : 0 < config.wal_segment_size) {op : WalOp}
    (h : w.step config op = some w') : Later w w' := by
  rcases step_cases h with ⟨name, record, io, -, rfl⟩ | hq
  · rcases @append_as_cases config w name record io with
      ⟨heq, -⟩ | ⟨hnone, seg, r, buf, -, hwrite, hcase⟩
    · rw [heq]
      exact later_of_same rfl rfl
    have htc : w.tail = w.clock := by
      by_contra hne
      exact (hw.poisoned hne).1 hnone
    obtain ⟨hg, -⟩ := write_record_to_segment_spec hsize hw.segments
      (fun b hb => hw.written b (by rw [htc]; exact hb)) hwrite
    rcases hcase with ⟨e, msg, -, -, heq⟩ | ⟨io', -, -, heq⟩
    · rw [heq]
      exact ⟨hg.durable, fun a h => h, fun a h => .inl h⟩
    · rw [heq]
      refine ⟨hg.durable, fun a h => List.mem_append_left _ h, fun a ha => ?_⟩
      rcases List.mem_append.mp ha with ha | ha
      · exact .inl ha
      · rw [List.mem_singleton.mp ha]
        exact .inr htc.symm
  · exact ⟨hq.durable, fun a h => by rw [hq.appended]; exact h,
      fun a h => .inl (by rwa [hq.appended] at h)⟩

theorem KnownLsn.later {lsn : ℕ} (hk : KnownLsn start w lsn) (hl : Later w w') :
    KnownLsn start w' lsn := by
  rcases hk with hk | ⟨a, ha, heq⟩
  · exact .inl hk
  · exact .inr ⟨a, hl.kept a ha, heq⟩

/-- A known LSN lies below the tail, so a new record is not at it. -/
theorem KnownLsn.lt_tail {lsn : ℕ} (hk : KnownLsn start w lsn) (hw : WalInv config start w) :
    lsn < w.tail := by
  rcases hk with hk | ⟨a, ha, rfl⟩
  · exact lt_of_lt_of_le hk hw.records.start_le
  · obtain ⟨-, hpos, hle⟩ := hw.records.range a ha
    omega

theorem FlushOk.later {pc : FlushPc} (hpc : FlushOk w pc) (hw : WalInv config start w)
    (hk : KnownLsn start w pc.page_lsn) (hl : Later w w') : FlushOk w' pc := by
  have hold : ∀ a ∈ w'.appended, a.lsn = pc.page_lsn → a ∈ w.appended := by
    intro a ha heq
    rcases hl.fresh a ha with ha | htail
    · exact ha
    · have := hk.lt_tail hw
      omega
  cases pc with
  | ReadCurrent l => trivial
  | ReadSynced l => trivial
  | ReadTarget l => trivial
  | CallFlush l target => exact fun a ha heq => hpc a (hold a ha heq) heq
  | Asleep l target => exact fun a ha heq => hpc a (hold a ha heq) heq
  | Write l => exact fun a ha heq b hlo hhi => hl.durable b (hpc a (hold a ha heq) heq b hlo hhi)

/-- The invariant after a step of the writer, with the flushes as they were. -/
theorem WalPoolInv.wal_step (hs : WalPoolInv config start s) (hw' : WalInv config start w')
    (hl : Later s.wal w') : WalPoolInv config start { s with wal := w' } :=
  ⟨hw', fun page_id => (hs.pages page_id).later hl, fun f hf => (hs.known f hf).later hl,
    fun f hf => (hs.flushes f hf).later hs.wal (hs.known f hf) hl⟩

/-- Replacing the entry of one flush. -/
theorem WalPoolInv.set (hs : WalPoolInv config start s) {i : ℕ} {page_id : PageId} {pc pc' : FlushPc}
    (hi : s.flushes[i]? = some (page_id, pc)) (hlsn : pc'.page_lsn = pc.page_lsn)
    (hok : FlushOk s.wal pc') :
    WalPoolInv config start { s with flushes := s.flushes.set i (page_id, pc') } := by
  have hmem : ∀ f ∈ s.flushes.set i (page_id, pc'), f ∈ s.flushes ∨ f = (page_id, pc') := fun f hf =>
    (List.mem_or_eq_of_mem_set hf)
  refine ⟨hs.wal, hs.pages, fun f hf => ?_, fun f hf => ?_⟩
  · rcases hmem f hf with hf | rfl
    · exact hs.known f hf
    · rw [hlsn]
      exact hs.known _ (List.mem_of_getElem? hi)
  · rcases hmem f hf with hf | rfl
    · exact hs.flushes f hf
    · exact hok

theorem WalPoolInv.erase (hs : WalPoolInv config start s) (i : ℕ) :
    WalPoolInv config start { s with flushes := s.flushes.eraseIdx i } :=
  ⟨hs.wal, hs.pages, fun f hf => hs.known f (List.mem_of_mem_eraseIdx hf),
    fun f hf => hs.flushes f (List.mem_of_mem_eraseIdx hf)⟩

/-- A position that covers the record, once published, makes it durable. -/
theorem WalInv.fsynced (hw : WalInv config start w) {a : Appended} (ha : a ∈ w.appended)
    (hle : a.lsn + a.size ≤ w.synced_lsn) : Fsynced w a := by
  intro b _ hhi
  obtain ⟨-, -, htail⟩ := hw.records.range a ha
  exact hw.synced b (by omega) (by omega)

/-- The writer after a pass of `flush_to` on behalf of a flush. -/
theorem WalPoolInv.after_flush (hs : WalPoolInv config start s) {i : ℕ} {page_id : PageId}
    {pc : FlushPc} {page_lsn target : ℕ} (hi : s.flushes[i]? = some (page_id, pc))
    (hlsn : pc.page_lsn = page_lsn)
    (hpc : ∀ a ∈ s.wal.appended, a.lsn = page_lsn → a.lsn + a.size ≤ target)
    {turn : WalWriter × FlushTurn} {req : Bool}
    (hturn : turn.1 = { s.wal with flush_requested := req })
    (hok : ∀ u, turn.2 = .Returned (.ok u) → target ≤ s.wal.synced_lsn) :
    WalPoolInv config start (s.after_flush i page_id page_lsn target turn) := by
  obtain ⟨wal, turn⟩ := turn
  simp only at hturn
  have hl : Later s.wal wal := by
    rw [hturn]
    exact later_of_same rfl rfl
  have hw : WalInv config start wal := by
    have := @WalInv.settle config start s.wal hs.wal 0 (wal, .Returned (.error .BufferPoolFull)) req
      s.wal.sleepers hturn (fun u hu => by simp at hu)
    exact this
  have hs' := hs.wal_step hw hl
  have happ : wal.appended = s.wal.appended := by rw [hturn]
  have hi' : ({ s with wal } : WalPool).flushes[i]? = some (page_id, pc) := hi
  match turn with
  | .Sleep =>
    refine hs'.set hi' hlsn.symm ?_
    intro a ha heq
    rw [happ] at ha
    exact hpc a ha heq
  | .Returned (.error _) => exact hs'.erase i
  | .Returned (.ok u) =>
    refine hs'.set hi' hlsn.symm ?_
    intro a ha heq
    apply hw.fsynced ha
    rw [happ] at ha
    have hpub := hok u rfl
    have hend := hpc a ha heq
    have hsync : wal.synced_lsn = s.wal.synced_lsn := by rw [hturn]
    rw [hsync]
    exact le_trans hend hpub

/-- When a flush compares `synced_lsn` with the page's LSN, `synced_lsn` is not strictly
inside the record of that LSN. -/
def WalPool.SyncedOutside (s : WalPool) : WalPoolOp → Prop
  | .flush_step i =>
    ∀ a ∈ s.wal.appended, (s.flushes[i]?).map Prod.snd = some (.ReadSynced a.lsn) →
      ¬ (a.lsn < s.wal.synced_lsn ∧ s.wal.synced_lsn < a.lsn + a.size)
  | _ => True

theorem WalPoolInv.flush_step (hs : WalPoolInv config start s) (hstart : 0 < start) {i : ℕ}
    (hout : s.SyncedOutside (.flush_step i)) (h : s.flush_step i = some t) :
    WalPoolInv config start t := by
  unfold WalPool.flush_step at h
  cases hi : s.flushes[i]? with
  | none => simp [hi] at h
  | some f =>
  obtain ⟨page_id, pc⟩ := f
  have hmem := List.mem_of_getElem? hi
  have hknown := hs.known _ hmem
  have hpc := hs.flushes _ hmem
  simp only [hi] at h
  cases pc with
  | ReadCurrent l =>
    cases h
    refine hs.set hi ?_ ?_
    · split_ifs
      · rfl
      · rfl
    · split_ifs with hcur
      · trivial
      · -- no record of this session starts at such an LSN
        intro a ha heq
        exfalso
        obtain ⟨hlo, -, -⟩ := hs.wal.records.range a ha
        have hlt : l < s.wal.tail := hknown.lt_tail hs.wal
        have htail := hs.wal.tail_le
        have hpos : l ≠ 0 := by omega
        exact hcur ⟨hpos, by omega⟩
  | ReadSynced l =>
    cases h
    refine hs.set hi ?_ ?_
    · split_ifs
      · rfl
      · rfl
    · split_ifs with hsync
      · trivial
      · intro a ha heq
        have hnot : ¬ (a.lsn < s.wal.synced_lsn ∧ s.wal.synced_lsn < a.lsn + a.size) :=
          hout a ha (by rw [hi, heq]; rfl)
        exact hs.wal.fsynced ha (by omega)
  | ReadTarget l =>
    cases h
    refine hs.set hi rfl ?_
    intro a ha _
    obtain ⟨-, -, hend⟩ := hs.wal.records.range a ha
    exact le_trans hend hs.wal.tail_le
  | CallFlush l target =>
    cases h
    obtain ⟨req, hreq, hok⟩ := @flush_to_cases s.wal target
    exact hs.after_flush hi rfl hpc hreq hok
  | Asleep l target =>
    cases h
    obtain ⟨req, hreq, hok⟩ := @flush_to_loop_cases s.wal target
    exact hs.after_flush hi rfl hpc hreq hok
  | Write l =>
    cases h
    exact hs.erase i

theorem WalPoolInv.step (hsize : 0 < config.wal_segment_size) (hstart : 0 < start) {op : WalPoolOp}
    (hs : WalPoolInv config start s) (hout : s.SyncedOutside op) (h : s.step config op = some t) :
    WalPoolInv config start t := by
  cases op with
  | wal op =>
    obtain ⟨w', hw', rfl⟩ := Option.map_eq_some_iff.mp h
    exact hs.wal_step (hs.wal.step hsize hw') (hs.wal.later hsize hw')
  | stamp page_id lsn =>
    simp only [WalPool.step] at h
    split_ifs at h with hcond
    cases h
    refine ⟨hs.wal, fun p => ?_, hs.known, hs.flushes⟩
    by_cases hp : p = page_id
    · subst hp
      simp only [Function.update_self]
      exact .inr hcond.2
    · simp only [Function.update_of_ne hp]
      exact hs.pages p
  | flush_frame_write page_id =>
    cases h
    refine ⟨hs.wal, hs.pages, fun f hf => ?_, fun f hf => ?_⟩
    · rcases List.mem_append.mp hf with hf | hf
      · exact hs.known f hf
      · rw [List.mem_singleton.mp hf]
        exact hs.pages page_id
    · rcases List.mem_append.mp hf with hf | hf
      · exact hs.flushes f hf
      · rw [List.mem_singleton.mp hf]
        trivial
  | flush_step i => exact hs.flush_step hstart hout h

end Invariant

/-! ## The order of the two writes -/

/-- A pool over a writer that has just been opened. -/
def WalPool.new (seg : WalSegments) (start synced : ℕ) (pd_lsn : PageId → ℕ) : WalPool :=
  ⟨WalWriter.open_with_segment_manager seg start synced, pd_lsn, []⟩

/-- **WAL before data.** In every run in which `synced_lsn` is never found inside the
record a flush asks about, a page that is about to be written has the whole of its last
record fsynced. -/
theorem wal_before_data {config : WalConfig} (hsize : 0 < config.wal_segment_size)
    {seg : WalSegments} {start synced : ℕ} (hstart : 0 < start) (hsynced : synced ≤ start)
    (hlo : seg.current_segment_id * config.wal_segment_size ≤ start)
    (hhi : start ≤ (seg.current_segment_id + 1) * config.wal_segment_size)
    {pd_lsn : PageId → ℕ} (hold : ∀ page_id, pd_lsn page_id < start)
    {ops : List WalPoolOp} {s : WalPool}
    (hall : AllSteps (WalPool.step config) WalPool.SyncedOutside
      (WalPool.new seg start synced pd_lsn) ops)
    (hrun : run (WalPool.step config) (WalPool.new seg start synced pd_lsn) ops = some s)
    {i : ℕ} {page_id : PageId} {page_lsn : ℕ} (hi : s.flushes[i]? = some (page_id, .Write page_lsn))
    {a : Appended} (ha : a ∈ s.wal.appended) (hlsn : a.lsn = page_lsn) : Fsynced s.wal a := by
  have hnew : WalPoolInv config start (WalPool.new seg start synced pd_lsn) :=
    ⟨WalInv.open_with_segment_manager hsynced hsize hlo hhi, fun p => .inl (hold p),
      by simp [WalPool.new], by simp [WalPool.new]⟩
  have hI : WalPoolInv config start s :=
    run_invariant_of_allSteps _ (WalPoolInv config start)
      (fun _ _ _ hs hout hst => hs.step hsize hstart hout hst) hnew hall hrun
  exact hI.flushes _ (List.mem_of_getElem? hi) a ha hlsn

/-! ## Two runs -/

/-- A page is stamped with the second record and flushed once the wave for the first
record has been published. -/
def flush_after_wave (stamped : ℕ) : List WalPoolOp :=
  [.wal (.append (blank_record 8) .reliable), .wal (.worker_sample true none), .wal .sync_start,
   .wal (.append (blank_record 8) .reliable), .stamp 1 stamped, .wal (.sync_end none),
   .wal .worker_publish, .flush_frame_write 1, .flush_step 0, .flush_step 0]

instance (s : WalPool) : ∀ op, Decidable (s.SyncedOutside op)
  | .wal _ => isTrue trivial
  | .stamp _ _ => isTrue trivial
  | .flush_frame_write _ => isTrue trivial
  | .flush_step i => inferInstanceAs (Decidable (∀ a ∈ s.wal.appended,
      (s.flushes[i]?).map Prod.snd = some (.ReadSynced a.lsn) →
        ¬ (a.lsn < s.wal.synced_lsn ∧ s.wal.synced_lsn < a.lsn + a.size)))

/-- The first record lies in one segment, and the wave has covered it. -/
theorem wal_before_data_first_record :
    ∃ s, run (WalPool.step small_config) (WalPool.new first_segment 8 0 fun _ => 0)
        (flush_after_wave 8) = some s ∧
      s.flushes = [(1, .Write 8)] ∧ Fsynced s.wal ⟨8, 40⟩ := by
  refine exists_of_map_eq (fun s => (s.flushes, s.wal.appended))
    (b := ([(1, .Write 8)], [⟨8, 40⟩, ⟨48, 40⟩])) (by decide +kernel) fun s hs hval => ?_
  obtain ⟨hflushes, happ⟩ := Prod.mk.inj hval
  refine ⟨hflushes, @wal_before_data small_config (by decide) first_segment 8 0 (by decide)
    (by decide) (by decide) (by decide) (fun _ => 0) (fun _ => by decide) (flush_after_wave 8) s
    (by decide +kernel) hs 0 1 8 (by rw [hflushes]; rfl) ⟨8, 40⟩ (by rw [happ]; decide) rfl⟩

/-- **The page goes first.** The second record spans the boundary at 64, which is what the
wave publishes; the flush of its page then skips `flush_to`, with the bytes from 64 on
not fsynced. -/
theorem page_written_before_record_synced :
    ∃ s, run (WalPool.step small_config) (WalPool.new first_segment 8 0 fun _ => 0)
        (flush_after_wave 48) = some s ∧
      s.flushes = [(1, .Write 48)] ∧ (⟨48, 40⟩ : Appended) ∈ s.wal.appended ∧
      s.wal.synced_lsn = 64 ∧ s.wal.seg.durable 64 = false := by
  refine exists_of_map_eq
    (fun s => (s.flushes, s.wal.appended, s.wal.synced_lsn, s.wal.seg.durable 64))
    (b := ([(1, .Write 48)], [⟨8, 40⟩, ⟨48, 40⟩], 64, false)) (by decide +kernel)
    fun s _ hval => ?_
  simp only [Prod.mk.injEq] at hval
  obtain ⟨hflushes, happ, hsync, hdur⟩ := hval
  exact ⟨hflushes, by rw [happ]; decide, hsync, hdur⟩

end Ams
