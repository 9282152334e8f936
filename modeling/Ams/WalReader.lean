/-
Reading the log: `pg-storage/src/wal/reader.rs`, and the resume scan of
`WalWriter::open_with_scan_start`.

The reader walks from record to record and stops at the first position where there is
none. That can look four ways: the next segment file is missing, the header is all
zeros, the record runs past the last file, or its checksum fails and nothing but zeros
follows it. The last is a record that a crash cut short, and everything else that fails
the checksum is an error. So the reader's verdict on the end of the log is a fact about
the bytes behind it, and `TailOk` names the two shapes in which it says "end".
-/
import Ams.WalWriter

set_option autoImplicit false

namespace Ams

open Ams.Lib

/-- The WAL directory: which segment files exist, and the bytes in them. -/
structure WalDisk where
  files : List ℕ
  bytes : ByteStream

def WalSegments.disk (m : WalSegments) : WalDisk := ⟨m.files, m.bytes⟩

/-! ## The reader -/

namespace WalDisk

variable (segment_size : ℕ) (d : WalDisk)

/-- The segments a range of at least one byte touches. -/
def segments_of (pos len : ℕ) : List ℕ :=
  List.range' (pos / segment_size) ((pos + len - 1) / segment_size + 1 - pos / segment_size)

/-- `try_read_exact`, which gives up when a segment file is missing. -/
def try_read_exact (pos len : ℕ) : Option (List UInt8) :=
  if ∀ id ∈ segments_of segment_size pos len, id ∈ d.files then some (d.bytes.read pos len) else none

/-- The scan of `is_torn_tail`: zeros up to the first missing segment. -/
def zero_tail : ℕ → ℕ → Bool
  | 0, _ => true
  | n + 1, pos =>
    if pos / segment_size ∈ d.files then
      (d.bytes.read pos (segment_size - pos % segment_size)).all (· == 0) &&
        zero_tail n ((pos / segment_size + 1) * segment_size)
    else true

/-- There are at most as many segments to scan as files. -/
def is_torn_tail (start_lsn record_end : ℕ) (header : List UInt8) : Bool :=
  if wal_le header 0 8 ≠ start_lsn then false
  else d.zero_tail segment_size (d.files.length + 1) record_end

/-- The next record and the position behind it, or `none` at the end of the log. -/
def next_record (start_lsn : ℕ) : Except StorageError (Option WalRecord × ℕ) :=
  match d.try_read_exact segment_size start_lsn 32 with
  | none => .ok (none, start_lsn)
  | some header =>
    if header.all (· == 0) then
      let probe_pos := start_lsn + 32
      match d.try_read_exact segment_size probe_pos 32 with
      | none => .ok (none, start_lsn)
      | some probe =>
        if probe.any (· != 0) then
          .error (.MetadataCorrupted (s!"WAL hole detected: zero-filled header at Lsn({start_lsn}) " ++
            s!"followed by non-zero data at Lsn({probe_pos}); " ++
            "an unflushed reserved slot truncated the log"))
        else .ok (none, start_lsn)
    else
      let total := claimed_size header
      match if total > 32 then d.try_read_exact segment_size (start_lsn + 32) (total - 32)
        else some [] with
      | none => .ok (none, start_lsn)
      | some rest =>
        match WalRecord.decode (header ++ rest) with
        | .ok (record, _) => .ok (some record, start_lsn + total)
        | .error (.WalCorrupted lsn) =>
          if d.is_torn_tail segment_size start_lsn (start_lsn + total) header then .ok (none, start_lsn)
          else .error (.WalCorrupted lsn)
        | .error e => .error e

/-- Read until the end of the log or an error: the records, and the end. -/
def read_records : ℕ → ℕ → List WalRecord × Except StorageError ℕ
  | 0, pos => ([], .error (.WalReadFailed s!"no end of the log before Lsn({pos})"))
  | n + 1, pos =>
    match d.next_record segment_size pos with
    | .error e => ([], .error e)
    | .ok (none, pos) => ([], .ok pos)
    | .ok (some record, pos) =>
      let (records, r) := read_records n pos
      (record :: records, r)

/-- The newest segment on disk, `0` if there is none. -/
def discover_latest_segment_id : ℕ := d.files.max?.getD 0

/-- The oldest one. -/
def discover_oldest_segment_id : ℕ := d.files.min?.getD 0

/-- A record takes at least one byte of a segment. -/
def read_all (pos : ℕ) : List WalRecord × Except StorageError ℕ :=
  d.read_records segment_size ((d.discover_latest_segment_id + 1) * segment_size) pos

end WalDisk

/-! ## Opening a writer -/

/-- The position behind the last complete record. -/
def discover_resume_lsn (segment_size : ℕ) (d : WalDisk) (scan_start_hint : ℕ) :
    Except StorageError ℕ :=
  let oldest := d.discover_oldest_segment_id
  let oldest_start := if oldest = 0 then Lsn.FIRST else oldest * segment_size
  let scan_start := if scan_start_hint ≠ Lsn.INVALID ∧ scan_start_hint > oldest_start
    then scan_start_hint else oldest_start
  if scan_start = Lsn.INVALID ∨ scan_start % 8 ≠ 0 then
    .error (.InvalidConfig s!"invalid WAL start LSN Lsn({scan_start})")
  else if segment_id segment_size scan_start ∉ d.files then .error (.Io "No such file or directory")
  else (d.read_all segment_size scan_start).2

/-- `WalSegmentManager::open`. -/
def WalSegments.open (segment_size : ℕ) (d : WalDisk) : Except StorageError WalSegments :=
  if segment_size = 0 then .error (.InvalidConfig "wal_segment_size must be > 0")
  else if segment_size % 8 ≠ 0 then
    .error (.InvalidConfig s!"wal_segment_size {segment_size} must be a multiple of 8")
  else
    let id := d.discover_latest_segment_id
    let m : WalSegments := ⟨id, d.files, d.bytes, fun _ => false, fun _ => false⟩
    .ok (m.open_segment_file segment_size id .reliable).1

/-- `open_with_scan_start`. The newest segment file is preallocated by the time its length
is looked at, so the resume scan always runs. -/
def WalWriter.open_with_scan_start (config : WalConfig) (d : WalDisk) (scan_start_hint : ℕ) :
    Except StorageError WalWriter :=
  match WalSegments.open config.wal_segment_size d with
  | .error e => .error e
  | .ok seg =>
    match discover_resume_lsn config.wal_segment_size seg.disk scan_start_hint with
    | .error e => .error e
    | .ok start_lsn =>
      .ok (open_with_segment_manager seg start_lsn
        (if start_lsn > Lsn.FIRST then start_lsn else Lsn.INVALID))

/-! ## Records in a stream -/

/-- The records fill the stream from `pos` to `stop`, each at its own LSN. -/
def LogAt (bytes : ByteStream) : ℕ → List WalRecord → ℕ → Prop
  | pos, [], stop => pos = stop
  | pos, r :: rest, stop =>
    r.InRange ∧ r.lsn = pos ∧ bytes.read pos r.record_size = r.bytes ∧
      LogAt bytes (pos + r.record_size) rest stop

/-- A record that was cut short: its header is in place, its checksum fails, and nothing
follows it. -/
structure Torn (bytes : ByteStream) (pos : ℕ) : Prop where
  lsn : wal_le (bytes.read pos 32) 0 8 = pos
  crc : intact (bytes.read pos (claimed_size (bytes.read pos 32)))
    (claimed_size (bytes.read pos 32)) = false
  zeros : ∀ b, pos + claimed_size (bytes.read pos 32) ≤ b → bytes b = 0

/-- What the reader takes for the end of the log. -/
def TailOk (bytes : ByteStream) (pos : ℕ) : Prop := (∀ b, pos ≤ b → bytes b = 0) ∨ Torn bytes pos

section Log

variable {bytes bytes' : ByteStream} {pos stop : ℕ} {log : List WalRecord}

theorem LogAt.le (h : LogAt bytes pos log stop) : pos + 32 * log.length ≤ stop := by
  induction log generalizing pos with
  | nil => exact le_of_eq h
  | cons r rest ih =>
    obtain ⟨-, -, -, hrest⟩ := h
    have hle := ih hrest
    have hsize := r.le_record_size
    rw [List.length_cons]
    omega

/-- Only the bytes of the range matter. -/
theorem LogAt.congr (h : LogAt bytes pos log stop)
    (heq : ∀ b, pos ≤ b → b < stop → bytes' b = bytes b) : LogAt bytes' pos log stop := by
  induction log generalizing pos with
  | nil => exact h
  | cons r rest ih =>
    obtain ⟨hr, hlsn, hread, hrest⟩ := h
    have hle := hrest.le
    refine ⟨hr, hlsn, ?_, ih hrest fun b hlo hhi => heq b (by omega) hhi⟩
    rw [← hread]
    apply ByteStream.read_congr
    intro i hlo hhi
    exact heq i hlo (by omega)

theorem LogAt.append {mid : ℕ} {log' : List WalRecord} (h : LogAt bytes pos log mid)
    (h' : LogAt bytes mid log' stop) : LogAt bytes pos (log ++ log') stop := by
  induction log generalizing pos with
  | nil =>
    obtain rfl : pos = mid := h
    exact h'
  | cons r rest ih =>
    obtain ⟨hr, hlsn, hread, hrest⟩ := h
    exact ⟨hr, hlsn, hread, ih hrest⟩

/-- The part of a log from the LSN of one of its records on. -/
theorem LogAt.from_record (h : LogAt bytes pos log stop) {lsn : ℕ}
    (hmem : ∃ r ∈ log, r.lsn = lsn) : ∃ log', LogAt bytes lsn log' stop ∧ pos ≤ lsn ∧ lsn < stop := by
  induction log generalizing pos with
  | nil =>
    obtain ⟨r, hr, -⟩ := hmem
    simp at hr
  | cons r rest ih =>
    have hle := h.le
    rw [List.length_cons] at hle
    obtain ⟨hr, hlsn, hread, hrest⟩ := h
    obtain ⟨r', hr', heq⟩ := hmem
    rcases List.mem_cons.mp hr' with rfl | hr'
    · rw [hlsn] at heq
      subst heq
      exact ⟨r' :: rest, ⟨hr, hlsn, hread, hrest⟩, le_refl _, by omega⟩
    · obtain ⟨log', hlog', hlo, hhi⟩ := ih hrest ⟨r', hr', heq⟩
      exact ⟨log', hlog', by omega, hhi⟩

end Log

/-! ## Reading them -/

section Read

variable {segment_size : ℕ} {d : WalDisk} {pos stop len : ℕ} {log : List WalRecord}

/-- The segments of the log are the first `n`. -/
def Contiguous (files : List ℕ) (n : ℕ) : Prop := ∀ id, id ∈ files ↔ id < n

variable {n : ℕ}

/-- The files of all segments between two positions are there. -/
def WalDisk.Holds (segment_size : ℕ) (d : WalDisk) (lo hi : ℕ) : Prop :=
  ∀ id, lo / segment_size ≤ id → id * segment_size < hi → id ∈ d.files

theorem Contiguous.holds (h : Contiguous d.files n) :
    d.Holds segment_size 0 (n * segment_size) := by
  intro id _ hlt
  rw [h]
  exact Nat.lt_of_mul_lt_mul_right hlt

theorem discover_latest_of_contiguous (h : Contiguous d.files n) :
    d.discover_latest_segment_id = n - 1 := by
  unfold WalDisk.discover_latest_segment_id
  cases hmax : d.files.max? with
  | none =>
    rw [List.max?_eq_none_iff] at hmax
    have : ¬ 0 < n := by rw [← h, hmax]; exact List.not_mem_nil
    show 0 = n - 1
    omega
  | some m =>
    obtain ⟨hmem, hle⟩ := List.max?_eq_some_iff.mp hmax
    have hm := (h m).mp hmem
    have := hle (n - 1) ((h _).mpr (by omega))
    show m = n - 1
    omega

theorem discover_oldest_of_contiguous (h : Contiguous d.files n) :
    d.discover_oldest_segment_id = 0 := by
  unfold WalDisk.discover_oldest_segment_id
  cases hmin : d.files.min? with
  | none => rfl
  | some m =>
    obtain ⟨hmem, hle⟩ := List.min?_eq_some_iff.mp hmin
    have hm := (h m).mp hmem
    exact Nat.le_zero.mp (hle 0 ((h 0).mpr (by omega)))

theorem mem_segments_of (hlen : 0 < len) {id : ℕ} :
    id ∈ WalDisk.segments_of segment_size pos len ↔
      pos / segment_size ≤ id ∧ id ≤ (pos + len - 1) / segment_size := by
  have hle : pos / segment_size ≤ (pos + len - 1) / segment_size :=
    Nat.div_le_div_right (by omega)
  rw [WalDisk.segments_of, List.mem_range'_1]
  omega

variable {lo hi : ℕ}

/-- A range inside the files can be read. -/
theorem try_read_exact_of_le (hfiles : d.Holds segment_size lo hi) (hlen : 0 < len)
    (hlo : lo ≤ pos) (hhi : pos + len ≤ hi) :
    d.try_read_exact segment_size pos len = some (d.bytes.read pos len) := by
  apply if_pos
  intro id hid
  obtain ⟨hge, hle⟩ := (mem_segments_of hlen).mp hid
  apply hfiles id ((Nat.div_le_div_right hlo).trans hge)
  have hstart := Nat.mul_le_of_le_div _ _ _ hle
  omega

theorem try_read_exact_eq_some {out : List UInt8}
    (h : d.try_read_exact segment_size pos len = some out) : out = d.bytes.read pos len := by
  unfold WalDisk.try_read_exact at h
  split_ifs at h
  exact (Option.some.inj h).symm

/-- Fields of the header do not depend on what follows it. -/
theorem wal_le_append {buf rest : List UInt8} {off w : ℕ} (h : off + w ≤ buf.length) :
    wal_le (buf ++ rest) off w = wal_le buf off w := by
  rw [wal_le, wal_le, List.drop_append_of_le_length (by omega),
    List.take_append_of_le_length (by rw [List.length_drop]; omega)]

theorem claimed_size_append {buf rest : List UInt8} (h : 28 ≤ buf.length) :
    claimed_size (buf ++ rest) = claimed_size buf := by
  rw [claimed_size, claimed_size, wal_le_append h]

theorem le_claimed_size (buf : List UInt8) : 32 ≤ claimed_size buf :=
  le_trans (Nat.le_add_right _ _) (le_align_up _)

/-- A header whose LSN field is not zero is not all zeros. -/
theorem not_all_zero_of_lsn {header : List UInt8} (h : wal_le header 0 8 ≠ 0) :
    header.all (· == 0) = false := by
  by_contra hall
  rw [Bool.not_eq_false, List.all_eq_true] at hall
  apply h
  have hz : ∀ l : List UInt8, (∀ b ∈ l, b = 0) → ofLe l = 0 := by
    intro l hl
    induction l with
    | nil => rfl
    | cons b rest ih =>
      rw [ofLe, hl b (.head _), ih fun c hc => hl c (.tail _ hc)]
      rfl
  apply hz
  intro b hb
  have := hall b (List.mem_of_mem_drop (List.mem_of_mem_take hb))
  exact eq_of_beq this

/-- **A record of the log is read back.** -/
theorem next_record_of_log (hfiles : d.Holds segment_size lo hi) (hlo : lo ≤ pos)
    {r : WalRecord} (hr : r.InRange) (hlsn : r.lsn = pos) (hpos : 0 < pos)
    (hread : d.bytes.read pos r.record_size = r.bytes) (hhi : pos + r.record_size ≤ hi) :
    d.next_record segment_size pos = .ok (some r, pos + r.record_size) := by
  have h32 := r.le_record_size
  -- the header and the rest of the record
  have hsplit : d.bytes.read pos 32 ++ d.bytes.read (pos + 32) (r.record_size - 32) = r.bytes := by
    rw [← ByteStream.read_add, Nat.add_sub_cancel' h32]
    exact hread
  have hhead : ∀ {off w}, off + w ≤ 32 → wal_le (d.bytes.read pos 32) off w = wal_le r.bytes off w := by
    intro off w h
    rw [← hsplit]
    exact (wal_le_append (by rw [ByteStream.length_read]; exact h)).symm
  have hnz : (d.bytes.read pos 32).all (· == 0) = false := by
    apply not_all_zero_of_lsn
    have := r.wal_le_lsn [] hr.lsn
    rw [List.append_nil] at this
    rw [hhead (by omega), this, hlsn]
    omega
  have hclaim : claimed_size (d.bytes.read pos 32) = r.record_size := by
    have hb := r.claimed_size_bytes [] hr.payload
    rw [List.append_nil, ← hsplit, claimed_size_append (by rw [ByteStream.length_read]; decide)] at hb
    exact hb
  unfold WalDisk.next_record
  rw [try_read_exact_of_le hfiles (by decide) hlo (by omega)]
  simp only [hnz, Bool.false_eq_true, if_false, hclaim]
  have hrest : (if r.record_size > 32 then
      d.try_read_exact segment_size (pos + 32) (r.record_size - 32) else some []) =
      some (d.bytes.read (pos + 32) (r.record_size - 32)) := by
    split_ifs with hgt
    · exact try_read_exact_of_le hfiles (by omega) (by omega) (by omega)
    · have hz : r.record_size - 32 = 0 := by omega
      rw [hz]
      rfl
  rw [hrest]
  simp only [hsplit, WalRecord.decode_encode hr]

theorem zero_tail_of_zeros (hsize : 0 < segment_size) (hz : ∀ b, pos ≤ b → d.bytes b = 0) :
    d.zero_tail segment_size n pos = true := by
  induction n generalizing pos with
  | zero => rfl
  | succ n ih =>
    rw [WalDisk.zero_tail]
    split_ifs
    · have hnext : pos ≤ (pos / segment_size + 1) * segment_size := by
        have := Nat.div_add_mod pos segment_size
        have := Nat.mod_lt pos hsize
        rw [Nat.add_mul, Nat.one_mul, Nat.mul_comm]
        omega
      rw [ByteStream.read_zero hz, ih fun b hb => hz b (le_trans hnext hb), Bool.and_true]
      simp
    · rfl

/-- **The end of the log**, whichever files there are. -/
theorem next_record_of_tail (hsize : 0 < segment_size) (hpos : 0 < pos) (ht : TailOk d.bytes pos) :
    d.next_record segment_size pos = .ok (none, pos) := by
  unfold WalDisk.next_record
  cases hhead : d.try_read_exact segment_size pos 32 with
  | none => rfl
  | some header =>
  obtain rfl := try_read_exact_eq_some hhead
  rcases ht with hz | ht
  · -- zeros from here on
    rw [ByteStream.read_zero hz]
    have hall : (List.replicate 32 (0 : UInt8)).all (· == 0) = true := by decide
    simp only [hall, if_true]
    cases hprobe : d.try_read_exact segment_size (pos + 32) 32 with
    | none => rfl
    | some probe =>
      rw [try_read_exact_eq_some hprobe, ByteStream.read_zero fun b hb => hz b (by omega)]
      simp
  · -- a torn record
    have hnz : (d.bytes.read pos 32).all (· == 0) = false := by
      apply not_all_zero_of_lsn
      rw [ht.lsn]
      omega
    simp only [hnz, Bool.false_eq_true, if_false]
    generalize htotal : claimed_size (d.bytes.read pos 32) = total
    have h32 : 32 ≤ total := by
      rw [← htotal]
      exact le_claimed_size _
    cases hrest : (if total > 32 then d.try_read_exact segment_size (pos + 32) (total - 32)
      else some []) with
    | none => rfl
    | some rest =>
      have hsplit : d.bytes.read pos 32 ++ rest = d.bytes.read pos total := by
        split_ifs at hrest with hgt
        · rw [try_read_exact_eq_some hrest, ← ByteStream.read_add, Nat.add_sub_cancel' h32]
        · obtain rfl : total = 32 := by omega
          rw [← Option.some.inj hrest, List.append_nil]
      have hclaim : claimed_size (d.bytes.read pos total) = total := by
        rw [← hsplit, claimed_size_append (by rw [ByteStream.length_read]; decide), htotal]
      obtain ⟨lsn, hdec⟩ := @WalRecord.decode_of_not_intact (d.bytes.read pos total) (by
        rw [hclaim]
        have := ht.crc
        rwa [htotal] at this)
      have htorn : d.is_torn_tail segment_size pos (pos + total) (d.bytes.read pos 32) = true := by
        unfold WalDisk.is_torn_tail
        rw [if_neg (by rw [ht.lsn]; exact fun h => h rfl)]
        apply zero_tail_of_zeros hsize
        have := ht.zeros
        rwa [htotal] at this
      simp only [hsplit, hdec, htorn, if_true]

/-- The records of a log are read first, and then what is behind them. -/
theorem read_records_append (hfiles : d.Holds segment_size lo hi) (hlo : lo ≤ pos)
    (hlog : LogAt d.bytes pos log stop) (hpos : 0 < pos) (hstop : stop ≤ hi) (k : ℕ) :
    d.read_records segment_size (log.length + k) pos =
      (log ++ (d.read_records segment_size k stop).1, (d.read_records segment_size k stop).2) := by
  induction log generalizing pos with
  | nil =>
    obtain rfl : pos = stop := hlog
    rw [List.length_nil, Nat.zero_add]
    rfl
  | cons r rest ih =>
    obtain ⟨hr, hlsn, hread, hrest⟩ := hlog
    have hle := hrest.le
    rw [List.length_cons, Nat.add_right_comm, WalDisk.read_records,
      next_record_of_log hfiles hlo hr hlsn hpos hread (by omega)]
    simp only [ih (by omega) hrest (by omega), List.cons_append]

/-- Reading a whole log, with enough passes. -/
theorem read_records_of_log {fuel : ℕ} (hsize : 0 < segment_size) (hfiles : Contiguous d.files n)
    (hlog : LogAt d.bytes pos log stop) (hpos : 0 < pos) (hstop : stop ≤ n * segment_size)
    (ht : TailOk d.bytes stop) (hfuel : log.length < fuel) :
    d.read_records segment_size fuel pos = (log, .ok stop) := by
  obtain ⟨k, rfl⟩ := Nat.exists_eq_add_of_lt hfuel
  have hle := hlog.le
  rw [Nat.add_assoc, read_records_append hfiles.holds (Nat.zero_le _) hlog hpos hstop,
    WalDisk.read_records, next_record_of_tail hsize (by omega) ht]
  simp only [List.append_nil]

/-- The records of a log are the first that are read, whatever follows them. -/
theorem log_isPrefix_read_records {fuel : ℕ} (hfiles : Contiguous d.files n)
    (hlog : LogAt d.bytes pos log stop) (hpos : 0 < pos) (hstop : stop ≤ n * segment_size)
    (hfuel : log.length < fuel) : log <+: (d.read_records segment_size fuel pos).1 := by
  obtain ⟨k, rfl⟩ := Nat.exists_eq_add_of_le hfuel.le
  rw [read_records_append hfiles.holds (Nat.zero_le _) hlog hpos hstop]
  exact List.prefix_append _ _

/-! ## Holes -/

/-- A record shows in the first bytes of its header: its LSN is not zero. -/
theorem LogAt.exists_ne_zero {r : WalRecord} (h : LogAt d.bytes pos (r :: log) stop)
    (hpos : 0 < pos) : ∃ i < 8, d.bytes (pos + i) ≠ 0 := by
  obtain ⟨hr, hlsn, hread, -⟩ := h
  have h32 := r.le_record_size
  have hsplit : d.bytes.read pos 8 ++ d.bytes.read (pos + 8) (r.record_size - 8) = r.bytes := by
    rw [← ByteStream.read_add, Nat.add_sub_cancel' (by omega)]
    exact hread
  have hne : wal_le (d.bytes.read pos 8) 0 8 ≠ 0 := by
    have hlow := r.wal_le_lsn [] hr.lsn
    rw [List.append_nil, ← hsplit, wal_le_append (by rw [ByteStream.length_read])] at hlow
    rw [hlow, hlsn]
    omega
  have hall := not_all_zero_of_lsn hne
  rw [List.all_eq_false] at hall
  obtain ⟨b, hb, hb0⟩ := hall
  obtain ⟨i, hi, rfl⟩ := List.mem_map.mp hb
  exact ⟨i, List.mem_range.mp hi, fun h0 => hb0 (beq_iff_eq.mpr h0)⟩

/-- A header of zeros, with the one behind it readable: the probe decides. -/
theorem next_record_of_zero_header (hfiles : d.Holds segment_size lo hi) (hlo : lo ≤ pos)
    (hhi : pos + 64 ≤ hi) (hzero : ∀ i < 32, d.bytes (pos + i) = 0) :
    (d.next_record segment_size pos = .ok (none, pos) ∧ ∀ i < 32, d.bytes (pos + 32 + i) = 0) ∨
      ∃ e, d.next_record segment_size pos = .error e := by
  have hall : (d.bytes.read pos 32).all (· == 0) = true := by
    rw [List.all_eq_true]
    intro b hb
    obtain ⟨i, hi, rfl⟩ := List.mem_map.mp hb
    exact beq_iff_eq.mpr (hzero i (List.mem_range.mp hi))
  unfold WalDisk.next_record
  rw [try_read_exact_of_le hfiles (by decide) hlo (by omega)]
  simp only [hall, if_true]
  rw [try_read_exact_of_le hfiles (by decide) (by omega) (by omega)]
  simp only
  split_ifs with hprobe
  · exact .inr ⟨_, rfl⟩
  · refine .inl ⟨rfl, fun i hi => ?_⟩
    by_contra hne
    exact hprobe (List.any_eq_true.mpr
      ⟨_, List.mem_map.mpr ⟨i, List.mem_range.mpr hi, rfl⟩, bne_iff_ne.mpr hne⟩)

end Read

/-- A record at 8, zeros from 40 on, and a record behind them. -/
def holed_disk (gap : ℕ) : WalDisk :=
  ⟨[0], (ByteStream.write (fun _ => 0) 8 { blank_record 0 with lsn := 8 }.bytes).write (40 + gap)
    { blank_record 0 with lsn := 40 + gap }.bytes⟩

theorem holed_disk_zero {gap b : ℕ} (hlo : 40 ≤ b) (hhi : b < 40 + gap) :
    (holed_disk gap).bytes b = 0 := by
  refine (ByteStream.write_of_not_mem (.inl hhi)).trans (ByteStream.write_of_not_mem (.inr ?_))
  rw [WalRecord.length_bytes]
  exact hlo

end Ams
