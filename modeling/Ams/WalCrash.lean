/-
The log across crashes.

A session opens the writer, appends records and ends in a crash. The crash keeps the
log up to some position, a multiple of 8 at or behind the position the session started
from; behind it every byte is what it was when the session began. Which bytes a `sync_all`
had covered need not be followed: `synced_lsn` is between the start and the end of the
session's records, and a crash may cut anywhere in between.

What the next session finds is the kept records and a tail, and the tail is where the
code can go wrong. Two kinds of crash leave one it does not get over. A rotation's file
outlives the records that made it necessary, and then the writer resumes in an earlier
segment than its newest file and refuses to write there (`append_fails_behind_segment`).
And a record torn shorter than what an earlier crash left at the same place has non-zero
bytes behind it, which the reader takes for corruption. `CrashOk` excludes the two, and
`wal_crash_round_trip` says that every sequence of other crashes is harmless.
-/
import Ams.WalReader

set_option autoImplicit false

namespace Ams

open Ams.Lib
open ByteStream

/-! ## Sessions -/

/-- What a session does: its scan hint, its records, and where the crash cuts the log. -/
structure Session where
  scan_start_hint : ℕ
  records : List WalRecord
  keep : ℕ

/-- The directory, and the records that are wholly in it. -/
structure WalSys where
  disk : WalDisk
  log : List WalRecord

/-- No log yet. -/
def WalSys.fresh : WalSys := ⟨⟨[], fun _ => 0⟩, []⟩

/-- Where a log that begins at `Lsn::FIRST` ends. -/
def log_end (log : List WalRecord) : ℕ := 8 + (log.map WalRecord.record_size).sum

/-- The appends of a session, and the records as they were written. -/
def append_all (config : WalConfig) : WalWriter → List WalRecord → WalWriter × List WalRecord
  | w, [] => (w, [])
  | w, r :: rest =>
    match w.append config r .reliable with
    | (w, .error _) => append_all config w rest
    | (w, .ok lsn) =>
      let (w, written) := append_all config w rest
      (w, { r with lsn } :: written)

/-- The hints a caller may give: none, or a record boundary that is on disk. -/
def WalSys.HintOk (segment_size : ℕ) (s : WalSys) (hint : ℕ) : Prop :=
  hint = Lsn.INVALID ∨ (∃ r ∈ s.log, r.lsn = hint) ∨
    (hint = log_end s.log ∧ segment_id segment_size hint ∈ s.disk.files)

instance (segment_size : ℕ) (s : WalSys) (hint : ℕ) : Decidable (s.HintOk segment_size hint) :=
  inferInstanceAs (Decidable (_ ∨ _ ∨ _ ∧ _))

/-- The caller's part of a record: its fields are `u64`s, its payload is short enough. -/
def WalRecord.Fits (r : WalRecord) : Prop :=
  r.prev_lsn < 256 ^ 8 ∧ r.txn_id < 256 ^ 8 ∧ r.payload.length ≤ 65535

instance (r : WalRecord) : Decidable r.Fits := inferInstanceAs (Decidable (_ ∧ _ ∧ _))

namespace WalSys

/-- A session up to its crash: the writer as it was opened, the writer at the crash, and
the records in between. Positions are `u64`s. -/
def play (config : WalConfig) (s : WalSys) (l : Session) :
    Option (WalWriter × WalWriter × List WalRecord) :=
  if s.HintOk config.wal_segment_size l.scan_start_hint ∧ ∀ r ∈ l.records, r.Fits then
    match WalWriter.open_with_scan_start config s.disk l.scan_start_hint with
    | .error _ => none
    | .ok w =>
      let (w', written) := append_all config w l.records
      if w'.clock ≤ 256 ^ 8 ∧ l.keep % 8 = 0 ∧ w.clock ≤ l.keep ∧ l.keep ≤ w'.clock then
        some (w, w', written)
      else none
  else none

/-- The bytes a crash leaves. -/
def crash_bytes (w w' : WalWriter) (keep : ℕ) : ByteStream :=
  fun b => if b < keep then w'.seg.bytes b else w.seg.bytes b

/-- The records wholly inside the part that is kept. -/
def kept (written : List WalRecord) (keep : ℕ) : List WalRecord :=
  written.filter fun r => r.lsn + r.record_size ≤ keep

/-- A session and its crash. A session whose `open` fails does not happen. -/
def step (config : WalConfig) (s : WalSys) (l : Session) : Option WalSys :=
  match s.play config l with
  | none => none
  | some (w, w', written) =>
    some ⟨⟨w'.seg.files, crash_bytes w w' l.keep⟩, s.log ++ kept written l.keep⟩

/-- The checksum of a record that was cut short does not match what is left of it. -/
def CrcDetects (config : WalConfig) (s : WalSys) (l : Session) : Prop :=
  ∀ t, s.step config l = some t → log_end t.log < l.keep →
    intact (t.disk.bytes.read (log_end t.log) (claimed_size (t.disk.bytes.read (log_end t.log) 32)))
      (claimed_size (t.disk.bytes.read (log_end t.log) 32)) = false

/-- A crash the next session gets over: no segment file is left behind the end of the kept
records, and what was on disk behind the cut before the session was zeros, unless the crash
takes back the whole session. -/
def CrashOk (config : WalConfig) (s : WalSys) (l : Session) : Prop :=
  ∀ w w' written, s.play config l = some (w, w', written) →
    (∀ id ∈ w'.seg.files, id ≤ log_end (s.log ++ kept written l.keep) / config.wal_segment_size) ∧
    (l.keep = w.clock ∨ ∀ b, l.keep ≤ b → w.seg.bytes b = 0)

end WalSys

/-! ## Writes that succeed -/

/-- A segment manager in its newest segment, with nothing behind it. -/
structure SegmentsReady (segment_size : ℕ) (m : WalSegments) (n : ℕ) : Prop where
  files : Contiguous m.files n
  current : m.current_segment_id + 1 = n
  zeros : ∀ b, n * segment_size ≤ b → m.bytes b = 0

section Reliable

variable {segment_size : ℕ} {m : WalSegments} {n : ℕ}

/-- A range ends in the segment that its last byte is in. -/
theorem le_segment_end (hsize : 0 < segment_size) (stop : ℕ) :
    stop ≤ ((stop - 1) / segment_size + 1) * segment_size := by
  have hlt := Nat.lt_mul_div_succ (stop - 1) hsize
  rw [Nat.mul_comm] at hlt
  omega

theorem Contiguous.append {files : List ℕ} (h : Contiguous files n) :
    Contiguous (files ++ [n]) (n + 1) := by
  intro id
  rw [List.mem_append, List.mem_singleton, h id]
  omega

theorem rotate_reliable (hm : SegmentsReady segment_size m n) :
    ∃ m', m.rotate segment_size .reliable = (m', .ok .reliable) ∧
      SegmentsReady segment_size m' (n + 1) ∧ m'.bytes = m.bytes := by
  have hnew : ¬ m.current_segment_id + 1 ∈ m.files := by
    rw [hm.files, hm.current]
    exact Nat.lt_irrefl n
  have hrot : m.rotate segment_size .reliable =
      ({ current_segment_id := m.current_segment_id + 1
         files := m.files ++ [m.current_segment_id + 1]
         bytes := fun b => if b / segment_size = m.current_segment_id + 1 then 0 else m.bytes b
         written := m.written
         durable := ((m.sync_all segment_size m.current_segment_id).sync_all segment_size
           (m.current_segment_id + 1)).durable }, .ok .reliable) := by
    simp [WalSegments.rotate, WalSegments.open_segment_file, WalSegments.sync_all, hnew]
    rfl
  -- the new file is zeros where the stream has zeros already
  have hbytes : (fun b => if b / segment_size = m.current_segment_id + 1 then 0 else m.bytes b) =
      m.bytes := by
    funext b
    split_ifs with hb
    · rw [hm.current] at hb
      refine (hm.zeros b ?_).symm
      rw [← hb]
      exact Nat.div_mul_le_self b segment_size
    · rfl
  rw [hbytes] at hrot
  refine ⟨_, hrot, ⟨?_, ?_, fun b hb => hm.zeros b (le_trans ?_ hb)⟩, rfl⟩
  · show Contiguous (m.files ++ [m.current_segment_id + 1]) (n + 1)
    rw [hm.current]
    exact hm.files.append
  · show m.current_segment_id + 1 + 1 = n + 1
    rw [hm.current]
  · exact Nat.mul_le_mul_right _ (Nat.le_succ n)

theorem rotate_times_reliable (k : ℕ) (hm : SegmentsReady segment_size m n) :
    ∃ m', WalSegments.rotate_times segment_size k m .reliable = (m', .ok .reliable) ∧
      SegmentsReady segment_size m' (n + k) ∧ m'.bytes = m.bytes := by
  induction k generalizing m n with
  | zero => exact ⟨m, rfl, hm, rfl⟩
  | succ k ih =>
    obtain ⟨m₁, hrot, hm1, hb1⟩ := rotate_reliable hm
    obtain ⟨m', hrest, hm', hb'⟩ := ih hm1
    refine ⟨m', ?_, ?_, hb'.trans hb1⟩
    · rw [WalSegments.rotate_times, hrot]
      exact hrest
    · rw [show n + (k + 1) = n + 1 + k by omega]
      exact hm'

theorem ensure_for_write_reliable {pos : ℕ} (hm : SegmentsReady segment_size m n)
    (hpos : n ≤ pos / segment_size + 1) :
    ∃ m', m.ensure_for_write segment_size pos .reliable = (m', .ok .reliable) ∧
      SegmentsReady segment_size m' (pos / segment_size + 1) ∧ m'.bytes = m.bytes := by
  have hcur := hm.current
  unfold WalSegments.ensure_for_write segment_id
  simp only
  split_ifs with heq hlt
  · rw [heq, hcur]
    exact ⟨m, rfl, hm, rfl⟩
  · omega
  · obtain ⟨m', hrot, hm', hb'⟩ :=
      rotate_times_reliable (pos / segment_size - m.current_segment_id) hm
    refine ⟨m', hrot, ?_, hb'⟩
    have hn : n + (pos / segment_size - m.current_segment_id) = pos / segment_size + 1 := by omega
    rwa [hn] at hm'

/-- A write up to the end of the newest segment. -/
theorem SegmentsReady.put (hm : SegmentsReady segment_size m n) {pos : ℕ} {bs : List UInt8}
    (hle : pos + bs.length ≤ n * segment_size) : SegmentsReady segment_size (m.put pos bs) n := by
  refine ⟨hm.files, hm.current, fun b hb => ?_⟩
  show m.bytes.write pos bs b = 0
  rw [write_of_not_mem (.inr (le_trans hle hb))]
  exact hm.zeros b hb

/-- **A record is written**, and the newest segment is the one its last byte is in. -/
theorem write_chunks_reliable (hsize : 0 < segment_size) {passes pos : ℕ} {rest : List UInt8}
    (hm : SegmentsReady segment_size m n) (hpos : n ≤ pos / segment_size + 1) (hne : rest ≠ [])
    (hpasses : rest.length ≤ passes) :
    ∃ m', WalSegments.write_chunks segment_size passes pos rest m .reliable = (m', .ok .reliable) ∧
      SegmentsReady segment_size m' ((pos + rest.length - 1) / segment_size + 1) ∧
      m'.bytes = m.bytes.write pos rest := by
  induction passes generalizing pos rest m n with
  | zero => exact absurd (List.length_pos_of_ne_nil hne) (by omega)
  | succ passes ih =>
    rw [WalSegments.write_chunks, if_neg hne]
    simp only
    generalize hchunk : min (segment_size - segment_offset segment_size pos) rest.length = chunk
    obtain ⟨hone, hle, hchunk_le⟩ := chunk_bounds hsize hne hchunk
    obtain ⟨m₁, hens, hm1, hb1⟩ := ensure_for_write_reliable hm hpos
    rw [hens]
    simp only [IoPlan.op_reliable]
    have hend : pos + chunk ≤ (pos / segment_size + 1) * segment_size := by
      have hmod := Nat.mod_lt pos hsize
      have := Nat.div_add_mod pos segment_size
      rw [Nat.add_mul, Nat.one_mul, Nat.mul_comm]
      omega
    have hput : SegmentsReady segment_size (m₁.put pos (rest.take chunk)) (pos / segment_size + 1) := by
      apply hm1.put
      rw [List.length_take]
      omega
    have hbytes : (m₁.put pos (rest.take chunk)).bytes = m.bytes.write pos (rest.take chunk) := by
      show m₁.bytes.write pos (rest.take chunk) = _
      rw [hb1]
    by_cases hdone : rest.drop chunk = []
    · -- the last chunk
      have hall : rest.take chunk = rest := by
        rw [List.drop_eq_nil_iff] at hdone
        exact List.take_of_length_le hdone
      have hdiv : (pos + rest.length - 1) / segment_size = pos / segment_size := by
        rw [List.drop_eq_nil_iff] at hdone
        exact div_of_chunk hsize hle (by omega) (by omega)
      rw [if_neg fun h => h.1 hdone, hdone, hdiv]
      refine ⟨m₁.put pos (rest.take chunk), ?_, hput, by rw [hbytes, hall]⟩
      cases passes <;> rfl
    · -- more to write, in the next segment
      have hrest : (rest.drop chunk).length = rest.length - chunk := List.length_drop
      have hlt : chunk < rest.length := by
        have := List.length_pos_of_ne_nil hdone
        omega
      have hnext : ∀ m₂ : WalSegments, SegmentsReady segment_size m₂ (pos / segment_size + 1) →
          m₂.bytes = m.bytes.write pos (rest.take chunk) →
          ∃ m', WalSegments.write_chunks segment_size passes (pos + chunk) (rest.drop chunk) m₂
              .reliable = (m', .ok .reliable) ∧
            SegmentsReady segment_size m' ((pos + rest.length - 1) / segment_size + 1) ∧
            m'.bytes = m.bytes.write pos rest := by
        intro m₂ hm2 hb2
        obtain ⟨m', hw, hm', hb'⟩ := ih hm2
          (Nat.add_le_add_right (Nat.div_le_div_right (Nat.le_add_right pos chunk)) 1) hdone
          (by omega)
        refine ⟨m', hw, ?_, ?_⟩
        · rwa [hrest, show pos + chunk + (rest.length - chunk) - 1 = pos + rest.length - 1 by omega]
            at hm'
        · have htake : (rest.take chunk).length = chunk := by
            rw [List.length_take]
            omega
          have hjoin := @write_append m.bytes pos (rest.take chunk) (rest.drop chunk)
          rw [htake, List.take_append_drop] at hjoin
          rw [hb', hb2, hjoin]
      split_ifs
      · exact hnext _ ⟨hput.files, hput.current, hput.zeros⟩ hbytes
      · exact hnext _ hput hbytes

end Reliable

/-! ## Appends that succeed -/

section Append

variable {config : WalConfig} {w : WalWriter} {n : ℕ}

theorem bytes_ne_nil (r : WalRecord) : r.bytes ≠ [] := by
  intro h
  have hlen := r.length_bytes
  have := r.le_record_size
  rw [h, List.length_nil] at hlen
  omega

/-- The largest record fits a segment, so an append behind the newest segment's start
succeeds. -/
theorem append_reliable (hsize : 65568 ≤ config.wal_segment_size) {r : WalRecord}
    (hr : r.payload.length ≤ 65535) (herr : w.last_error = none)
    (hm : SegmentsReady config.wal_segment_size w.seg n)
    (hpos : n ≤ w.clock / config.wal_segment_size + 1) :
    ∃ w', w.append config r .reliable = (w', .ok w.clock) ∧ w'.last_error = none ∧
      w'.clock = w.clock + r.record_size ∧
      SegmentsReady config.wal_segment_size w'.seg
        ((w.clock + r.record_size - 1) / config.wal_segment_size + 1) ∧
      w'.seg.bytes = w.seg.bytes.write w.clock ({ r with lsn := w.clock } : WalRecord).bytes := by
  generalize hrec : ({ r with lsn := w.clock } : WalRecord) = rec
  have hrsize : rec.record_size = r.record_size := by
    rw [← hrec]
    rfl
  have hpay : rec.payload.length ≤ 65535 := by
    rw [← hrec]
    exact hr
  have hlen : rec.bytes.length = r.record_size := by rw [WalRecord.length_bytes, hrsize]
  have hle := rec.record_size_le hpay
  obtain ⟨m', hw, hm', hb'⟩ := write_chunks_reliable (by omega) hm hpos (bytes_ne_nil rec)
    (le_refl rec.bytes.length)
  have hwrite : w.seg.write_record_to_segment config.wal_segment_size rec.bytes w.clock .reliable =
      (m', .ok .reliable) := by
    rw [WalSegments.write_record_to_segment, if_neg (by omega)]
    exact hw
  have henc : rec.encode = .ok rec.bytes := if_neg (by omega)
  rw [hlen] at hm'
  refine ⟨{ w with
      clock := w.clock + rec.record_size
      seg := m'
      pending := w.pending + 1
      appended := w.appended ++ [⟨w.clock, rec.record_size⟩]
      tail := w.clock + rec.record_size }, ?_, herr, ?_, hm', hb'⟩
  · unfold WalWriter.append WalWriter.append_as
    simp only [herr, if_neg (show ¬ r.payload.length > 65535 by omega), hrec, henc, hwrite]
  · show w.clock + rec.record_size = w.clock + r.record_size
    rw [hrsize]

/-- What a session has written when it ends. -/
structure Wrote (config : WalConfig) (w w' : WalWriter) (written : List WalRecord) : Prop where
  error : w'.last_error = none
  log : LogAt w'.seg.bytes w.clock written w'.clock
  outside : ∀ b, b < w.clock ∨ w'.clock ≤ b → w'.seg.bytes b = w.seg.bytes b
  ready : ∃ n, SegmentsReady config.wal_segment_size w'.seg n ∧
    n ≤ w'.clock / config.wal_segment_size + 1 ∧ w'.clock ≤ n * config.wal_segment_size

theorem clock_le_append_all (config : WalConfig) (w : WalWriter) (rs : List WalRecord) :
    w.clock ≤ (append_all config w rs).1.clock := by
  induction rs generalizing w with
  | nil => exact le_refl _
  | cons r rest ih =>
    have hstep : w.clock ≤ (w.append config r .reliable).1.clock := by
      unfold WalWriter.append WalWriter.append_as
      split
      · exact le_refl _
      · split_ifs
        · exact le_refl _
        · simp only
          split
          · exact Nat.le_add_right _ _
          · split
            · exact Nat.le_add_right _ _
            · exact Nat.le_add_right _ _
    rw [append_all]
    cases happ : w.append config r .reliable with
    | mk w₁ res =>
    rw [happ] at hstep
    cases res with
    | error e => exact le_trans hstep (ih w₁)
    | ok lsn => exact le_trans hstep (ih w₁)

theorem append_all_reliable (hsize : 65568 ≤ config.wal_segment_size) {rs : List WalRecord}
    (hrs : ∀ r ∈ rs, r.Fits) (herr : w.last_error = none)
    (hm : SegmentsReady config.wal_segment_size w.seg n)
    (hpos : n ≤ w.clock / config.wal_segment_size + 1) (hn : w.clock ≤ n * config.wal_segment_size)
    (hclock : (append_all config w rs).1.clock ≤ 256 ^ 8) :
    Wrote config w (append_all config w rs).1 (append_all config w rs).2 := by
  induction rs generalizing w n with
  | nil => exact ⟨herr, rfl, fun _ _ => rfl, n, hm, hpos, hn⟩
  | cons r rest ih =>
    obtain ⟨hprev, htxn, hpay⟩ := hrs r (.head _)
    obtain ⟨w₁, happ, herr1, hclock1, hm1, hb1⟩ := append_reliable hsize hpay herr hm hpos
    have hall : append_all config w (r :: rest) =
        ((append_all config w₁ rest).1,
          ({ r with lsn := w.clock } : WalRecord) :: (append_all config w₁ rest).2) := by
      rw [append_all, happ]
    rw [hall] at hclock ⊢
    generalize hrec : ({ r with lsn := w.clock } : WalRecord) = rec at hb1 ⊢
    have hrsize : rec.record_size = r.record_size := by
      rw [← hrec]
      rfl
    have h32 := r.le_record_size
    have hlen : rec.bytes.length = r.record_size := by rw [WalRecord.length_bytes, hrsize]
    have hmono := clock_le_append_all config w₁ rest
    -- the newest segment holds the last byte of the record
    have hn1 := hclock1.le.trans (le_segment_end (show 0 < config.wal_segment_size by omega) _)
    have hpos1 : (w.clock + r.record_size - 1) / config.wal_segment_size + 1 ≤
        w₁.clock / config.wal_segment_size + 1 := by
      apply Nat.add_le_add_right
      apply Nat.div_le_div_right
      omega
    obtain ⟨herr', hlog, hout, hready⟩ :=
      ih (fun r' hr' => hrs r' (.tail _ hr')) herr1 hm1 hpos1 hn1 hclock
    have hb₁_out : ∀ b, b < w.clock ∨ w₁.clock ≤ b → w₁.seg.bytes b = w.seg.bytes b := by
      intro b hb
      rw [hb1]
      apply write_of_not_mem
      rw [hlen]
      omega
    simp only at hclock
    refine ⟨herr', ⟨?_, ?_, ?_, ?_⟩, fun b hb => ?_, hready⟩
    · rw [← hrec]
      exact ⟨by show w.clock < 256 ^ 8; omega, hprev, htxn, hpay⟩
    · rw [← hrec]
    · have hself := @read_write_self w.seg.bytes w.clock rec.bytes
      rw [← hb1, WalRecord.length_bytes] at hself
      rw [← hself]
      apply read_congr
      intro i _ hi
      exact hout i (.inl (by omega))
    · rw [hrsize, ← hclock1]
      exact hlog
    · simp only at hb
      rw [hout b (by omega)]
      exact hb₁_out b (by omega)

end Append

/-! ## What a crash leaves -/

/-- The records of a log that starts at `pos`, cut at `keep`: those that fit, and the first
that does not. -/
theorem LogAt.cut {bytes : ByteStream} {pos stop keep : ℕ} {log : List WalRecord}
    (h : LogAt bytes pos log stop) (hlo : pos ≤ keep) (hhi : keep ≤ stop) :
    ∃ mid, LogAt bytes pos (WalSys.kept log keep) mid ∧ mid ≤ keep ∧
      (mid = keep ∨ ∃ r : WalRecord, r.InRange ∧ r.lsn = mid ∧
        bytes.read mid r.record_size = r.bytes ∧ keep < mid + r.record_size ∧
        mid + r.record_size ≤ stop) := by
  induction log generalizing pos with
  | nil =>
    obtain rfl : pos = stop := h
    exact ⟨pos, rfl, hlo, .inl (by omega)⟩
  | cons r rest ih =>
    obtain ⟨hr, hlsn, hread, hrest⟩ := h
    have h32 := r.le_record_size
    by_cases hfit : pos + r.record_size ≤ keep
    · obtain ⟨mid, hlog, hmid, htail⟩ := ih hrest hfit
      refine ⟨mid, ?_, hmid, htail⟩
      have hkept : WalSys.kept (r :: rest) keep = r :: WalSys.kept rest keep := by
        apply List.filter_cons_of_pos
        rw [hlsn]
        exact decide_eq_true hfit
      rw [hkept]
      exact ⟨hr, hlsn, hread, hlog⟩
    · refine ⟨pos, ?_, hlo, .inr ⟨r, hr, hlsn, hread, by omega, ?_⟩⟩
      · -- the records behind it begin later still
        have hkept : WalSys.kept (r :: rest) keep = [] := by
          apply List.filter_eq_nil_iff.mpr
          intro r' hr'
          rcases List.mem_cons.mp hr' with rfl | hr'
          · rw [hlsn]
            exact fun h => hfit (of_decide_eq_true h)
          · obtain ⟨lsn, hlsn'⟩ : ∃ lsn : ℕ, r'.lsn = lsn := ⟨_, rfl⟩
            obtain ⟨_, -, hge, -⟩ := hrest.from_record ⟨r', hr', hlsn'⟩
            intro h
            have hle : lsn + r'.record_size ≤ keep := by
              rw [← hlsn']
              exact of_decide_eq_true h
            omega
        rw [hkept]
        exact rfl
      · exact le_trans (Nat.le_add_right _ _) hrest.le

theorem log_end_of_logAt {bytes : ByteStream} {pos stop : ℕ} {log : List WalRecord}
    (h : LogAt bytes pos log stop) : pos + (log.map WalRecord.record_size).sum = stop := by
  induction log generalizing pos with
  | nil => exact h
  | cons r rest ih =>
    obtain ⟨-, -, -, hrest⟩ := h
    rw [List.map_cons, List.sum_cons, ← Nat.add_assoc]
    exact ih hrest

/-- The bytes of a record up to a cut at a multiple of 8, and zeros from there. -/
theorem torn_of_cut {new bytes : ByteStream} {pos keep : ℕ} {r : WalRecord}
    (hr : r.InRange) (hlsn : r.lsn = pos) (hread : new.read pos r.record_size = r.bytes)
    (hlt : pos < keep) (hcut : keep < pos + r.record_size) (hpos8 : pos % 8 = 0)
    (hkeep8 : keep % 8 = 0) (hnew : ∀ b, b < keep → bytes b = new b)
    (hold : ∀ b, keep ≤ b → bytes b = 0)
    (hcrc : intact (bytes.read pos (claimed_size (bytes.read pos 32)))
      (claimed_size (bytes.read pos 32)) = false) : Torn bytes pos := by
  have h32 := r.le_record_size
  have hrec : ∀ {len}, len ≤ r.record_size → new.read pos len = r.bytes.take len := by
    intro len hlen
    rw [← hread, ← Nat.add_sub_cancel' hlen, read_add, List.take_left']
    exact length_read _ _
  refine ⟨?_, hcrc, fun b hb => hold b ?_⟩
  · -- the cut is at least 8 bytes behind the start, so the LSN is there
    have h8 : bytes.read pos 8 = r.bytes.take 8 := by
      rw [← hrec (by omega)]
      apply read_congr
      intro i _ hi
      exact hnew i (by omega)
    have hfield := r.wal_le_lsn [] hr.lsn
    rw [List.append_nil] at hfield
    rw [show (32 : ℕ) = 8 + 24 from rfl, read_add,
      wal_le_append (by rw [length_read]), h8, ← hlsn, ← hfield]
    rw [wal_le, wal_le, List.drop_zero, List.drop_zero, List.take_take, Nat.min_self]
  · -- the length is either that of the record or, when the cut took it away, zero
    by_cases hhead : pos + 32 ≤ keep
    · have hsame : bytes.read pos 32 = r.bytes.take 32 := by
        rw [← hrec h32]
        apply read_congr
        intro i _ hi
        exact hnew i (by omega)
      have hclaim : claimed_size (bytes.read pos 32) = r.record_size := by
        have hsize := r.claimed_size_bytes [] hr.payload
        rw [List.append_nil, ← List.take_append_drop 32 r.bytes, claimed_size_append] at hsize
        · rw [hsame]
          exact hsize
        · rw [List.length_take, WalRecord.length_bytes]
          omega
      omega
    · have := le_claimed_size (bytes.read pos 32)
      omega

/-- The state between sessions. -/
structure LogInv (segment_size : ℕ) (s : WalSys) : Prop where
  log : LogAt s.disk.bytes 8 s.log (log_end s.log)
  tail : TailOk s.disk.bytes (log_end s.log)
  aligned : log_end s.log % 8 = 0
  files : ∃ n, Contiguous s.disk.files n ∧ (n = 0 → s.log = []) ∧
    (0 < n → log_end s.log ≤ n * segment_size) ∧ n ≤ log_end s.log / segment_size + 1 ∧
    ∀ b, n * segment_size ≤ b → s.disk.bytes b = 0

theorem LogInv.fresh (segment_size : ℕ) : LogInv segment_size .fresh := by
  refine ⟨rfl, .inl fun _ _ => rfl, rfl, 0, fun id => ?_, fun _ => rfl, fun h => ?_, ?_,
    fun _ _ => rfl⟩
  · simp [WalSys.fresh]
  · exact absurd h (Nat.lt_irrefl 0)
  · exact Nat.zero_le _

section Session

variable {config : WalConfig} {s t : WalSys}

/-- `WalSegmentManager::open` creates the first segment file if there is none. -/
theorem WalSegments.open_ready {segment_size n : ℕ} {d : WalDisk} (h8 : segment_size % 8 = 0)
    (hsize : 0 < segment_size) (hfiles : Contiguous d.files n)
    (hz : ∀ b, n * segment_size ≤ b → d.bytes b = 0) :
    ∃ seg, WalSegments.open segment_size d = .ok seg ∧ SegmentsReady segment_size seg (max n 1) ∧
      seg.bytes = d.bytes := by
  have hlatest := discover_latest_of_contiguous hfiles
  unfold WalSegments.open
  rw [if_neg (by omega), if_neg (by omega)]
  simp only [WalSegments.open_segment_file, IoPlan.op_reliable, hlatest]
  refine ⟨_, rfl, ?_⟩
  rcases Nat.eq_zero_or_pos n with rfl | hn
  · have hnil : d.files = [] := by
      apply List.eq_nil_iff_forall_not_mem.mpr
      intro id hid
      exact absurd ((hfiles id).mp hid) (Nat.not_lt_zero id)
    have hzero : ∀ b, d.bytes b = 0 := fun b => hz b (by omega)
    simp only [hnil, List.not_mem_nil, if_false, hzero, ite_self]
    refine ⟨⟨fun id => ?_, rfl, fun _ _ => rfl⟩, (funext hzero).symm⟩
    show id ∈ [0] ↔ id < 1
    rw [List.mem_singleton]
    omega
  · have hmem : n - 1 ∈ d.files := (hfiles _).mpr (by omega)
    have hmax : max n 1 = n := by omega
    simp only [hmem, if_true, hmax]
    refine ⟨⟨hfiles, ?_, hz⟩, rfl⟩
    show n - 1 + 1 = n
    omega

theorem LogAt.aligned {bytes : ByteStream} {pos stop : ℕ} {log : List WalRecord}
    (h : LogAt bytes pos log stop) : pos % 8 = stop % 8 := by
  induction log generalizing pos with
  | nil =>
    obtain rfl : pos = stop := h
    rfl
  | cons r rest ih =>
    obtain ⟨-, -, -, hrest⟩ := h
    have := ih hrest
    have := r.record_size_dvd
    omega

/-- Where the scan for the resume position starts, and what it reads. -/
theorem scan_start_of_hint {segment_size n hint : ℕ} (hsize : 8 < segment_size)
    (hlog : LogAt s.disk.bytes 8 s.log (log_end s.log)) (hfit : log_end s.log ≤ n * segment_size)
    (hn : 0 < n) (hsub : ∀ id ∈ s.disk.files, id < n) (hhint : s.HintOk segment_size hint) :
    ∃ log', LogAt s.disk.bytes (if hint ≠ Lsn.INVALID ∧ hint > 8 then hint else 8) log'
        (log_end s.log) ∧
      (if hint ≠ Lsn.INVALID ∧ hint > 8 then hint else 8) / segment_size < n := by
  have hfirst : 8 / segment_size < n := by
    rw [Nat.div_eq_of_lt hsize]
    exact hn
  split_ifs with huse
  · rcases hhint with h0 | hmem | ⟨rfl, hseg⟩
    · exact absurd h0 huse.1
    · obtain ⟨log', hlog', -, hlt⟩ := hlog.from_record hmem
      refine ⟨log', hlog', ?_⟩
      rw [Nat.div_lt_iff_lt_mul (by omega)]
      omega
    · exact ⟨[], rfl, hsub _ hseg⟩
  · exact ⟨s.log, hlog, hfirst⟩

/-- **Opening.** The writer resumes where the kept records end, in the newest segment there
is a file for. -/
theorem open_with_scan_start_resumes (h8 : config.wal_segment_size % 8 = 0)
    (hsize : 65568 ≤ config.wal_segment_size) {n hint : ℕ}
    (hlog : LogAt s.disk.bytes 8 s.log (log_end s.log)) (htail : TailOk s.disk.bytes (log_end s.log))
    (hlast : log_end s.log % 8 = 0) (hfiles : Contiguous s.disk.files n)
    (hfit : log_end s.log ≤ max n 1 * config.wal_segment_size)
    (hz : ∀ b, n * config.wal_segment_size ≤ b → s.disk.bytes b = 0)
    (hhint : s.HintOk config.wal_segment_size hint) :
    ∃ w, WalWriter.open_with_scan_start config s.disk hint = .ok w ∧ w.last_error = none ∧
      w.clock = log_end s.log ∧ w.seg.bytes = s.disk.bytes ∧
      SegmentsReady config.wal_segment_size w.seg (max n 1) := by
  obtain ⟨seg, hopen, hready, hbytes⟩ := WalSegments.open_ready h8 (by omega) hfiles hz
  have hsub : ∀ id ∈ s.disk.files, id < max n 1 := by
    intro id hid
    exact lt_of_lt_of_le ((hfiles id).mp hid) (Nat.le_max_left _ _)
  obtain ⟨log', hlog', hseg⟩ := scan_start_of_hint (by omega) hlog hfit (by omega) hsub hhint
  generalize hscan : (if hint ≠ Lsn.INVALID ∧ hint > 8 then hint else 8) = scan at hlog' hseg
  have hpos : 8 ≤ scan := by
    rw [← hscan]
    split_ifs with huse
    · omega
    · exact le_refl 8
  have hdisk : Contiguous seg.disk.files (max n 1) := hready.files
  have hread : seg.disk.read_all config.wal_segment_size scan = (log', .ok (log_end s.log)) := by
    unfold WalDisk.read_all
    rw [discover_latest_of_contiguous hdisk]
    have hbound := hlog'.le
    have hm : max n 1 - 1 + 1 = max n 1 := by omega
    apply read_records_of_log (by omega) hdisk _ (by omega) hfit _ (by rw [hm]; omega)
    · show LogAt seg.bytes scan log' (log_end s.log)
      rw [hbytes]
      exact hlog'
    · show TailOk seg.bytes (log_end s.log)
      rw [hbytes]
      exact htail
  have hresume : discover_resume_lsn config.wal_segment_size seg.disk hint =
      .ok (log_end s.log) := by
    unfold discover_resume_lsn
    have halign := hlog'.aligned
    simp only [discover_oldest_of_contiguous hdisk, if_true, Lsn.FIRST, hscan]
    rw [if_neg (by rw [Lsn.INVALID]; omega), if_neg, hread]
    rw [hdisk]
    exact fun h => h hseg
  refine ⟨.open_with_segment_manager seg (log_end s.log)
    (if log_end s.log > Lsn.FIRST then log_end s.log else Lsn.INVALID), ?_, rfl, rfl,
    hbytes, ⟨hready.files, hready.current, hready.zeros⟩⟩
  unfold WalWriter.open_with_scan_start
  rw [hopen]
  simp only [hresume]

theorem open_with_scan_start_of_inv (h8 : config.wal_segment_size % 8 = 0)
    (hsize : 65568 ≤ config.wal_segment_size) (hs : LogInv config.wal_segment_size s) {hint : ℕ}
    (hhint : s.HintOk config.wal_segment_size hint) :
    ∃ w n, WalWriter.open_with_scan_start config s.disk hint = .ok w ∧ w.last_error = none ∧
      w.clock = log_end s.log ∧ w.seg.bytes = s.disk.bytes ∧
      SegmentsReady config.wal_segment_size w.seg n ∧
      n ≤ log_end s.log / config.wal_segment_size + 1 ∧
      log_end s.log ≤ n * config.wal_segment_size := by
  obtain ⟨n, hfiles, hnil, hfit, hle, hz⟩ := hs.files
  have hfit' : log_end s.log ≤ max n 1 * config.wal_segment_size := by
    rcases Nat.eq_zero_or_pos n with h0 | hn
    · have : log_end s.log = 8 := by
        rw [hnil h0]
        rfl
      have hmax : max n 1 = 1 := by omega
      rw [this, hmax]
      omega
    · have hmax : max n 1 = n := by omega
      rw [hmax]
      exact hfit hn
  obtain ⟨w, hopen, herr, hclock, hbytes, hready⟩ :=
    open_with_scan_start_resumes h8 hsize hs.log hs.tail hs.aligned hfiles hfit' hz hhint
  exact ⟨w, max n 1, hopen, herr, hclock, hbytes, hready, max_le hle (Nat.le_add_left _ _), hfit'⟩

theorem step_of_play {l : Session} {w w' : WalWriter} {written : List WalRecord}
    (h : s.play config l = some (w, w', written)) :
    s.step config l = some ⟨⟨w'.seg.files, WalSys.crash_bytes w w' l.keep⟩,
      s.log ++ WalSys.kept written l.keep⟩ := by
  simp only [WalSys.step, h]

/-- What a session was, when its crash has left `t`. -/
theorem step_eq_some {l : Session} (h : s.step config l = some t) :
    ∃ w, s.HintOk config.wal_segment_size l.scan_start_hint ∧ (∀ r ∈ l.records, r.Fits) ∧
      WalWriter.open_with_scan_start config s.disk l.scan_start_hint = .ok w ∧
      (append_all config w l.records).1.clock ≤ 256 ^ 8 ∧ l.keep % 8 = 0 ∧ w.clock ≤ l.keep ∧
      l.keep ≤ (append_all config w l.records).1.clock ∧
      s.play config l = some (w, append_all config w l.records) ∧
      t = ⟨⟨(append_all config w l.records).1.seg.files,
          WalSys.crash_bytes w (append_all config w l.records).1 l.keep⟩,
        s.log ++ WalSys.kept (append_all config w l.records).2 l.keep⟩ := by
  cases hplay : s.play config l with
  | none => simp [WalSys.step, hplay] at h
  | some p =>
    have hp := hplay
    unfold WalSys.play at hp
    split_ifs at hp with hcond
    split at hp
    · simp at hp
    · rename_i w hopen
      simp only at hp
      split_ifs at hp with hkeep
      cases hp
      obtain ⟨hclock, hkeep8, hlo, hhi⟩ := hkeep
      simp only [WalSys.step, hplay, Option.some.injEq] at h
      exact ⟨w, hcond.1, hcond.2, hopen, hclock, hkeep8, hlo, hhi, rfl, h.symm⟩

/-- **One session** that ends in a crash of the kind the code gets over. -/
theorem LogInv.step (h8 : config.wal_segment_size % 8 = 0)
    (hsize : 65568 ≤ config.wal_segment_size) {l : Session} (hs : LogInv config.wal_segment_size s)
    (hok : s.CrashOk config l) (hcrc : s.CrcDetects config l) (h : s.step config l = some t) :
    LogInv config.wal_segment_size t := by
  obtain ⟨w, hhint, hfits, hopen, hclock, hkeep8, hlo, hhi, hplay, ht⟩ := step_eq_some h
  obtain ⟨w₀, n, hopen', herr, hwclock, hwbytes, hready, hn, hfit⟩ :=
    open_with_scan_start_of_inv h8 hsize hs hhint
  obtain rfl : w = w₀ := Except.ok.inj (hopen.symm.trans hopen')
  have hwrote : Wrote config w (append_all config w l.records).1 (append_all config w l.records).2 :=
    append_all_reliable hsize hfits herr hready (by rw [hwclock]; exact hn)
      (by rw [hwclock]; exact hfit) hclock
  obtain ⟨hnewest, hclean⟩ := hok w _ _ hplay
  have hdetect := hcrc t h
  generalize append_all config w l.records = out at *
  obtain ⟨w', written⟩ := out
  simp only at *
  obtain ⟨mid, hkept, hmid, hcut⟩ := hwrote.log.cut hlo hhi
  have hbelow : ∀ b, b < l.keep → WalSys.crash_bytes w w' l.keep b = w'.seg.bytes b :=
    fun b hb => if_pos hb
  have habove : ∀ b, l.keep ≤ b → WalSys.crash_bytes w w' l.keep b = w.seg.bytes b :=
    fun b hb => if_neg (not_lt.mpr hb)
  -- the log: the records of before, and those the crash kept
  have hlog : LogAt (WalSys.crash_bytes w w' l.keep) 8 (s.log ++ WalSys.kept written l.keep) mid := by
    refine LogAt.append (hs.log.congr fun b _ hb => ?_) (hwclock ▸ hkept.congr fun b _ hb => ?_)
    · rw [hbelow b (by omega), hwrote.outside b (.inl (by omega)), hwbytes]
    · exact hbelow b (by omega)
  have hend : log_end (s.log ++ WalSys.kept written l.keep) = mid := log_end_of_logAt hlog
  have h8mid := hlog.aligned
  have h8end : 8 ≤ log_end s.log := Nat.le_add_right _ _
  have htail : TailOk (WalSys.crash_bytes w w' l.keep) mid := by
    rcases hclean with hnone | hzeros
    · -- the whole session is taken back
      have hsame : WalSys.crash_bytes w w' l.keep = s.disk.bytes := by
        funext b
        rw [← hwbytes]
        by_cases hb : b < l.keep
        · rw [hbelow b hb, hwrote.outside b (.inl (by omega))]
        · exact habove b (by omega)
      have hle := hkept.le
      rw [hsame, show mid = log_end s.log by omega]
      exact hs.tail
    · have hzeros' : ∀ b, l.keep ≤ b → WalSys.crash_bytes w w' l.keep b = 0 := by
        intro b hb
        rw [habove b hb]
        exact hzeros b hb
      rcases hcut with heq | ⟨r, hr, hlsn, hread, hlt, -⟩
      · exact .inl fun b hb => hzeros' b (by omega)
      · by_cases heq : mid = l.keep
        · exact .inl fun b hb => hzeros' b (by omega)
        · right
          refine torn_of_cut hr hlsn hread (by omega) hlt (by omega) hkeep8 hbelow hzeros' ?_
          rw [ht, hend] at hdetect
          exact hdetect (by omega)
  rw [ht]
  refine ⟨?_, ?_, ?_, ?_⟩
  · rw [hend]
    exact hlog
  · rw [hend]
    exact htail
  · rw [hend]
    omega
  · obtain ⟨n', hready', -, hfit'⟩ := hwrote.ready
    have hpos : 0 < n' := by
      rcases Nat.eq_zero_or_pos n' with h0 | hpos
      · rw [h0, Nat.zero_mul] at hfit'
        omega
      · exact hpos
    refine ⟨n', hready'.files, by omega, fun _ => ?_, ?_, fun b hb => ?_⟩
    · rw [hend]
      omega
    · have := hnewest (n' - 1) ((hready'.files _).mpr (by omega))
      simp only
      omega
    · show WalSys.crash_bytes w w' l.keep b = 0
      rw [habove b (by omega), ← hwrote.outside b (.inr (by omega))]
      exact hready'.zeros b hb

end Session

/-! ## The round trip -/

/-- What the next session finds and does. -/
structure RoundTrip (config : WalConfig) (s : WalSys) (hint : ℕ) (w : WalWriter) : Prop where
  opened : WalWriter.open_with_scan_start config s.disk hint = .ok w
  resumes : w.clock = log_end s.log
  /-- The reader gives the kept records and then the end of the log. -/
  reads : w.seg.disk.read_all config.wal_segment_size Lsn.FIRST = (s.log, .ok (log_end s.log))
  /-- The first append succeeds and its record is read behind them. -/
  appends : ∀ r : WalRecord, r.Fits → log_end s.log + r.record_size ≤ 256 ^ 8 →
    ∃ w', w.append config r .reliable = (w', .ok (log_end s.log)) ∧
      s.log ++ [{ r with lsn := log_end s.log }] <+:
        (w'.seg.disk.read_all config.wal_segment_size Lsn.FIRST).1

theorem LogInv.round_trip {config : WalConfig} {s : WalSys} (h8 : config.wal_segment_size % 8 = 0)
    (hsize : 65568 ≤ config.wal_segment_size) (hs : LogInv config.wal_segment_size s) {hint : ℕ}
    (hhint : s.HintOk config.wal_segment_size hint) : ∃ w, RoundTrip config s hint w := by
  obtain ⟨w, n, hopen, herr, hclock, hbytes, hready, hn, hfit⟩ :=
    open_with_scan_start_of_inv h8 hsize hs hhint
  have hlog : LogAt w.seg.bytes 8 s.log (log_end s.log) := hbytes ▸ hs.log
  have htail : TailOk w.seg.bytes (log_end s.log) := hbytes ▸ hs.tail
  have hlen := hlog.le
  refine ⟨w, hopen, hclock, ?_, fun r hr hmax => ?_⟩
  · unfold WalDisk.read_all
    rw [discover_latest_of_contiguous hready.files]
    have hone := hready.current
    refine read_records_of_log (by omega) hready.files hlog (by decide) hfit htail ?_
    rw [show n - 1 + 1 = n by omega]
    omega
  · obtain ⟨w', happ, -, hclock', hready', hb'⟩ :=
      append_reliable hsize hr.2.2 herr hready (by rw [hclock]; exact hn)
    rw [hclock] at happ hclock' hready' hb'
    refine ⟨w', happ, ?_⟩
    generalize hrec : ({ r with lsn := log_end s.log } : WalRecord) = rec at hb' ⊢
    have hrsize : rec.record_size = r.record_size := by
      rw [← hrec]
      rfl
    have h32 := r.le_record_size
    have hlog' : LogAt w'.seg.bytes 8 (s.log ++ [rec]) (log_end s.log + r.record_size) := by
      refine LogAt.append (hlog.congr fun b _ hb => ?_) ⟨?_, ?_, ?_, ?_⟩
      · rw [hb']
        exact write_of_not_mem (.inl hb)
      · rw [← hrec]
        exact ⟨by show log_end s.log < 256 ^ 8; omega, hr.1, hr.2.1, hr.2.2⟩
      · rw [← hrec]
      · rw [hb', ← rec.length_bytes]
        exact read_write_self _ _
      · rw [hrsize]
        exact rfl
    have hend := le_segment_end (show 0 < config.wal_segment_size by omega)
      (log_end s.log + r.record_size)
    unfold WalDisk.read_all
    rw [discover_latest_of_contiguous hready'.files]
    refine log_isPrefix_read_records hready'.files hlog' (by decide) hend ?_
    have hbound := hlog'.le
    rw [Nat.add_sub_cancel]
    omega

/-- **The log survives crashes.** Take any sequence of sessions from an empty directory, each
ended by a crash that `CrashOk` admits and whose torn record, if any, fails its checksum. Then
the next `open` succeeds, the reader yields exactly the records wholly inside what was kept, in
the order and with the LSNs they were appended with, and then the end of the log, and the first
append of the new session succeeds and is read back behind them. -/
theorem wal_crash_round_trip {config : WalConfig} (h8 : config.wal_segment_size % 8 = 0)
    (hsize : 65568 ≤ config.wal_segment_size) {ls : List Session} {s : WalSys}
    (hok : AllSteps (WalSys.step config) (fun s l => s.CrashOk config l ∧ s.CrcDetects config l)
      .fresh ls)
    (hrun : run (WalSys.step config) .fresh ls = some s) {hint : ℕ}
    (hhint : s.HintOk config.wal_segment_size hint) : ∃ w, RoundTrip config s hint w :=
  (run_invariant_of_allSteps _ (LogInv config.wal_segment_size)
    (fun _ _ _ hs hP hst => hs.step h8 hsize hP.1 hP.2 hst) (LogInv.fresh _) hok hrun).round_trip
    h8 hsize hhint

/-- A session that appends one record and loses nothing. -/
def lossless_session : Session := ⟨0, [blank_record 0], 40⟩

theorem wal_crash_round_trip_one_record :
    ∃ s w, run (WalSys.step ⟨65568, 1⟩) .fresh [lossless_session] = some s ∧
      RoundTrip ⟨65568, 1⟩ s 0 w := by
  have hend : (WalSys.fresh.step ⟨65568, 1⟩ lossless_session).map (fun t => log_end t.log) =
      some 40 := by decide +kernel
  obtain ⟨s, hstep, -⟩ := Option.map_eq_some_iff.mp hend
  have hrun : run (WalSys.step ⟨65568, 1⟩) .fresh [lossless_session] = some s := by
    rw [run_cons, hstep]
    rfl
  obtain ⟨w₀, n, hopen₀, -, -, hbytes, -⟩ := @open_with_scan_start_of_inv ⟨65568, 1⟩ .fresh
    (by decide) (by decide) (LogInv.fresh _) 0 (.inl rfl)
  have hok : WalSys.fresh.CrashOk ⟨65568, 1⟩ lossless_session := by
    intro w w' written hplay
    constructor
    · have hfiles : (WalSys.fresh.play ⟨65568, 1⟩ lossless_session).map (fun p =>
          decide (∀ id ∈ p.2.1.seg.files,
            id ≤ log_end (WalSys.fresh.log ++ WalSys.kept p.2.2 40) / 65568)) = some true := by
        decide +kernel
      rw [hplay] at hfiles
      exact of_decide_eq_true (Option.some.inj hfiles)
    · right
      intro b _
      obtain ⟨w₁, -, -, hopen₁, -, -, -, -, hplay₁, -⟩ := step_eq_some hstep
      rw [hplay, Option.some.injEq, Prod.mk.injEq] at hplay₁
      rw [hplay₁.1, Except.ok.inj (hopen₁.symm.trans hopen₀), hbytes]
      rfl
  have hcrc : WalSys.fresh.CrcDetects ⟨65568, 1⟩ lossless_session := by
    intro t ht hlt
    rw [ht] at hend
    have hlen : log_end t.log = 40 := Option.some.inj hend
    rw [hlen] at hlt
    exact absurd hlt (by decide)
  obtain ⟨w, hw⟩ := @wal_crash_round_trip ⟨65568, 1⟩ (by decide) (by decide) [lossless_session] s
    ⟨⟨hok, hcrc⟩, fun _ _ => trivial⟩ hrun 0 (.inl rfl)
  exact ⟨s, w, hrun, hw⟩

/-! ## A file behind the log -/

/-- A writer whose clock is in an earlier segment than its newest file refuses every append. -/
theorem append_before_segment {config : WalConfig} {w : WalWriter} {r : WalRecord} {io : IoPlan}
    (hsize : 65568 ≤ config.wal_segment_size) (hr : r.payload.length ≤ 65535)
    (herr : w.last_error = none)
    (hlt : w.clock / config.wal_segment_size < w.seg.current_segment_id) :
    (w.append config r io).2 = .error (.WalWriteFailed
      s!"cannot write LSN {w.clock} to segment {w.clock / config.wal_segment_size} which is before current segment {w.seg.current_segment_id}") := by
  generalize hrec : ({ r with lsn := w.clock } : WalRecord) = rec
  have hpay : rec.payload.length ≤ 65535 := by
    rw [← hrec]
    exact hr
  have hle := rec.record_size_le hpay
  have hlen := rec.length_bytes
  have h32 := rec.le_record_size
  have henc : rec.encode = .ok rec.bytes := if_neg (by omega)
  obtain ⟨k, hk⟩ : ∃ k, rec.bytes.length = k + 1 := ⟨rec.bytes.length - 1, by omega⟩
  have hens : w.seg.ensure_for_write config.wal_segment_size w.clock io = _ :=
    (if_neg hlt.ne).trans (if_pos hlt)
  unfold WalWriter.append WalWriter.append_as
  simp only [herr, if_neg (show ¬ r.payload.length > 65535 by omega), hrec, henc]
  rw [WalSegments.write_record_to_segment, if_neg (by omega), hk, WalSegments.write_chunks,
    if_neg (bytes_ne_nil rec)]
  simp only [hens]
  rfl

/-- A record that fills the first segment and one behind it, both lost. -/
def lost_rotation : Session := ⟨0, [blank_record 65528, blank_record 0], 8⟩

theorem length_payload_blank (len : ℕ) : (blank_record len).payload.length = len :=
  List.length_replicate

theorem blank_record_fits {len : ℕ} (h : len ≤ 65535) : (blank_record len).Fits :=
  ⟨show 0 < 256 ^ 8 by decide, show 0 < 256 ^ 8 by decide, by rwa [length_payload_blank]⟩

/-- **A rotation outlives its records.** The crash loses the two records but not the second
segment file, so the next session opens and resumes at the first position of the first segment,
and its first append fails. -/
theorem append_fails_behind_segment :
    ∃ s w, run (WalSys.step ⟨65568, 1⟩) .fresh [lost_rotation] = some s ∧ s.log = [] ∧
      WalWriter.open_with_scan_start ⟨65568, 1⟩ s.disk 0 = .ok w ∧
      (w.append ⟨65568, 1⟩ (blank_record 0) .reliable).2 = .error (.WalWriteFailed
        "cannot write LSN 8 to segment 0 which is before current segment 1") := by
  -- the session: the first record fills segment 0, the second rotates
  obtain ⟨w₀, hopen₀, herr₀, hclock₀, hbytes₀, hready₀⟩ :=
    @open_with_scan_start_resumes ⟨65568, 1⟩ .fresh (by decide) (by decide) 0 0 rfl
      (.inl fun _ _ => rfl) rfl (fun id => by simp [WalSys.fresh]) (by decide) (fun _ _ => rfl)
      (.inl rfl)
  have hclock₀' : w₀.clock = 8 := hclock₀
  have hsize₁ : (blank_record 65528).record_size = 65560 := by
    rw [WalRecord.record_size_eq, length_payload_blank]
  have hsize₂ : (blank_record 0).record_size = 32 := by
    rw [WalRecord.record_size_eq, length_payload_blank]
  obtain ⟨w₁, happ₁, herr₁, hclock₁, hready₁, hbytes₁⟩ :=
    @append_reliable ⟨65568, 1⟩ w₀ _ (by decide) (blank_record 65528)
      (blank_record_fits (by decide)).2.2 herr₀ hready₀ (by rw [hclock₀']; decide)
  rw [hclock₀', hsize₁] at hclock₁ hready₁
  rw [hclock₀'] at happ₁ hbytes₁
  obtain ⟨w₂, happ₂, -, hclock₂, hready₂, hbytes₂⟩ :=
    @append_reliable ⟨65568, 1⟩ w₁ _ (by decide) (blank_record 0)
      (blank_record_fits (by decide)).2.2 herr₁ hready₁ (by rw [hclock₁]; decide)
  rw [hclock₁, hsize₂] at hclock₂ hready₂
  rw [hclock₁] at happ₂ hbytes₂
  have hall : append_all ⟨65568, 1⟩ w₀ [blank_record 65528, blank_record 0] =
      (w₂, [{ blank_record 65528 with lsn := 8 }, { blank_record 0 with lsn := 65568 }]) := by
    simp only [append_all, happ₁, happ₂]
  have hkept : WalSys.kept
      [{ blank_record 65528 with lsn := 8 }, { blank_record 0 with lsn := 65568 }] 8 = [] := by
    apply List.filter_eq_nil_iff.mpr
    intro r _ hr
    have h32 := r.le_record_size
    have hle := le_trans (Nat.le_add_left _ _) (of_decide_eq_true hr)
    omega
  have hplay : WalSys.fresh.play ⟨65568, 1⟩ lost_rotation = some (w₀, w₂,
      [{ blank_record 65528 with lsn := 8 }, { blank_record 0 with lsn := 65568 }]) := by
    have hfits : ∀ r ∈ lost_rotation.records, r.Fits := by
      intro r hr
      rcases List.mem_pair.mp hr with rfl | rfl
      · exact blank_record_fits (by decide)
      · exact blank_record_fits (by decide)
    unfold WalSys.play
    rw [if_pos ⟨.inl rfl, hfits⟩]
    simp only [lost_rotation, hopen₀, hall]
    rw [if_pos (by rw [hclock₂, hclock₀']; decide)]
  -- what is left: the second segment file, and zeros
  have hzeros : ∀ b, WalSys.crash_bytes w₀ w₂ 8 b = 0 := by
    intro b
    have hb₀ : w₀.seg.bytes b = 0 := by
      rw [hbytes₀]
      rfl
    unfold WalSys.crash_bytes
    split_ifs with hb
    · rw [hbytes₂, write_of_not_mem (.inl (by omega)), hbytes₁,
        write_of_not_mem (.inl hb), hb₀]
    · exact hb₀
  have hstep : WalSys.fresh.step ⟨65568, 1⟩ lost_rotation =
      some ⟨⟨w₂.seg.files, WalSys.crash_bytes w₀ w₂ 8⟩, []⟩ := by
    rw [step_of_play hplay]
    show some (WalSys.mk _ ([] ++ WalSys.kept _ 8)) = _
    rw [hkept]
    rfl
  obtain ⟨w, hopen, herr, hclock, -, hready⟩ :=
    @open_with_scan_start_resumes ⟨65568, 1⟩ ⟨⟨w₂.seg.files, WalSys.crash_bytes w₀ w₂ 8⟩, []⟩
      (by decide) (by decide) 2 0 rfl (.inl fun b _ => hzeros b) (show 8 % 8 = 0 by decide)
      hready₂.files (show 8 ≤ max 2 1 * 65568 by decide)
      (fun b _ => hzeros b) (.inl rfl)
  have hclock' : w.clock = 8 := hclock
  have hcur : w.seg.current_segment_id = 1 := Nat.succ.inj hready.current
  refine ⟨_, w, ?_, rfl, hopen, ?_⟩
  · rw [run_cons, hstep]
    rfl
  · rw [append_before_segment (by decide) (blank_record_fits (by decide)).2.2 herr
      (by rw [hclock', hcur]; decide), hclock', hcur]
    rfl

end Ams
