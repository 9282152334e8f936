/-
WAL segment files: `pg-storage/src/wal/segment.rs`, and `write_record_to_segment` of
`wal/writer.rs`.

The log is one byte stream cut into files of `segment_size` bytes, all of them
preallocated, so a byte of the log is addressed by its LSN alone: the file is
`lsn / segment_size` and the offset `lsn % segment_size`.

Two sets of positions are kept beside the bytes, for stating what is on stable
storage. `written` holds the positions some write has put into their file; `durable`
holds those whose file has been the object of a `sync_all` that started after the
write and returned without error. The code never looks at them.

Any file operation may fail. Since the first failure ends the call, a call's
`IoPlan` says how many operations succeed before it.
-/
import Ams.WalRecord
import Ams.Lib.Stream

set_option autoImplicit false

namespace Ams

open Ams.Lib

/-- The segment that holds an LSN. -/
def segment_id (segment_size : ℕ) (lsn : Lsn) : ℕ := lsn / segment_size

def segment_offset (segment_size : ℕ) (lsn : Lsn) : ℕ := lsn % segment_size

/-- What the file system does during one call. -/
structure IoPlan where
  /-- Operations that succeed before one fails; `none` if none fails. -/
  budget : Option ℕ
  /-- How much of its chunk a failing write still puts into the file. -/
  short_len : ℕ
  msg : String

/-- Nothing fails. -/
def IoPlan.reliable : IoPlan := ⟨none, 0, ""⟩

/-- One file operation. -/
def IoPlan.op (io : IoPlan) : Except StorageError IoPlan :=
  match io.budget with
  | none => .ok io
  | some 0 => .error (.Io io.msg)
  | some (n + 1) => .ok { io with budget := some n }

@[simp] theorem IoPlan.op_reliable : IoPlan.reliable.op = .ok IoPlan.reliable := rfl

/-- `WalSegmentManager` together with the files in its directory. -/
structure WalSegments where
  current_segment_id : ℕ
  /-- The segments on disk. -/
  files : List ℕ
  bytes : ByteStream
  written : ℕ → Bool
  durable : ℕ → Bool

namespace WalSegments

variable (segment_size : ℕ)

/-- `sync_all` on a segment's file. -/
def sync_all (m : WalSegments) (id : ℕ) : WalSegments :=
  { m with durable := fun b => m.durable b || (m.written b && b / segment_size == id) }

/-- Create and preallocate the file if it is not there, and sync it. -/
def open_segment_file (m : WalSegments) (id : ℕ) (io : IoPlan) :
    WalSegments × Except StorageError IoPlan :=
  match io.op with
  | .error e => (m, .error e)
  | .ok io =>
    let m := if id ∈ m.files then m else
      { m with
        files := m.files ++ [id]
        bytes := fun b => if b / segment_size = id then 0 else m.bytes b }
    match io.op with
    | .error e => (m, .error e)
    | .ok io => (m.sync_all segment_size id, .ok io)

/-- Sync the current segment and open the next one. -/
def rotate (m : WalSegments) (io : IoPlan) : WalSegments × Except StorageError IoPlan :=
  match io.op with
  | .error e => (m, .error e)
  | .ok io =>
    let m := m.sync_all segment_size m.current_segment_id
    let next_id := m.current_segment_id + 1
    match m.open_segment_file segment_size next_id io with
    | (m, .error e) => (m, .error e)
    | (m, .ok io) =>
      -- `sync_dir`
      match io.op with
      | .error e => (m, .error e)
      | .ok io => ({ m with current_segment_id := next_id }, .ok io)

/-- The rotation loop of `ensure_for_write`. -/
def rotate_times : ℕ → WalSegments → IoPlan → WalSegments × Except StorageError IoPlan
  | 0, m, io => (m, .ok io)
  | n + 1, m, io =>
    match m.rotate segment_size io with
    | (m, .error e) => (m, .error e)
    | (m, .ok io) => rotate_times n m io

def ensure_for_write (m : WalSegments) (lsn : Lsn) (io : IoPlan) :
    WalSegments × Except StorageError IoPlan :=
  let target_id := segment_id segment_size lsn
  if target_id = m.current_segment_id then (m, .ok io)
  else if target_id < m.current_segment_id then
    (m, .error (.WalWriteFailed
      s!"cannot write LSN {lsn} to segment {target_id} which is before current segment {m.current_segment_id}"))
  else rotate_times segment_size (target_id - m.current_segment_id) m io

/-- `write_all` at a position of the current segment. -/
def put (m : WalSegments) (pos : ℕ) (bs : List UInt8) : WalSegments :=
  { m with
    bytes := m.bytes.write pos bs
    written := fun b => m.written b || decide (pos ≤ b ∧ b < pos + bs.length) }

/-- The loop of `write_record_to_segment`: `rest` is what is left of the record, to be
written at `pos`. Every pass writes at least one byte, so a record has at most as many
passes as bytes. -/
def write_chunks : ℕ → ℕ → List UInt8 → WalSegments → IoPlan →
    WalSegments × Except StorageError IoPlan
  | 0, _, _, m, io => (m, .ok io)
  | passes + 1, pos, rest, m, io =>
    if rest = [] then (m, .ok io)
    else
      let offset := segment_offset segment_size pos
      let chunk := min (segment_size - offset) rest.length
      match m.ensure_for_write segment_size pos io with
      | (m, .error e) => (m, .error e)
      | (m, .ok io) =>
        match io.op with
        | .error e => (m.put pos (rest.take (min io.short_len chunk)), .error e)
        | .ok io =>
          let m := m.put pos (rest.take chunk)
          -- a chunk that fills its segment is synced before the switch
          if rest.drop chunk ≠ [] ∧ offset + chunk = segment_size then
            match io.op with
            | .error e => (m, .error e)
            | .ok io =>
              write_chunks passes (pos + chunk) (rest.drop chunk)
                (m.sync_all segment_size m.current_segment_id) io
          else write_chunks passes (pos + chunk) (rest.drop chunk) m io

def write_record_to_segment (m : WalSegments) (buf : List UInt8) (lsn : Lsn) (io : IoPlan) :
    WalSegments × Except StorageError IoPlan :=
  if buf.length > segment_size then
    (m, .error (.WalWriteFailed
      s!"record size {buf.length} exceeds segment size {segment_size}"))
  else write_chunks segment_size buf.length lsn buf m io

/-- The files left when those before `cutoff` are deleted one after the other. -/
def remove_files (cutoff : ℕ) : List ℕ → IoPlan → List ℕ × Except StorageError IoPlan
  | [], io => ([], .ok io)
  | id :: rest, io =>
    if id < cutoff then
      match io.op with
      | .error e => (id :: rest, .error e)
      | .ok io => remove_files cutoff rest io
    else
      let (kept, r) := remove_files cutoff rest io
      (id :: kept, r)

/-- Delete the segments before the one that holds `lsn`, but never the current one. -/
def recycle_before (m : WalSegments) (lsn : Lsn) (io : IoPlan) :
    WalSegments × Except StorageError IoPlan :=
  let cutoff := min (segment_id segment_size lsn) m.current_segment_id
  let (files, r) := remove_files cutoff m.files io
  ({ m with files }, r)

end WalSegments

/-! ## What a write leaves, whether it succeeds or not -/

/-- Nothing is taken back. -/
structure Grows (m m' : WalSegments) : Prop where
  current : m.current_segment_id ≤ m'.current_segment_id
  written : ∀ b, m.written b = true → m'.written b = true
  durable : ∀ b, m.durable b = true → m'.durable b = true

theorem Grows.refl (m : WalSegments) : Grows m m := ⟨le_refl _, fun _ h => h, fun _ h => h⟩

theorem Grows.trans {m m' m'' : WalSegments} (h : Grows m m') (h' : Grows m' m'') : Grows m m'' :=
  ⟨le_trans h.current h'.current, fun b hb => h'.written b (h.written b hb),
    fun b hb => h'.durable b (h.durable b hb)⟩

/-- The segments before the current one are full and synced, and nothing has been
written behind it. -/
structure Sealed (segment_size : ℕ) (m : WalSegments) : Prop where
  reached : ∀ b, m.written b = true → b / segment_size ≤ m.current_segment_id
  filled : ∀ b, b / segment_size < m.current_segment_id → m.written b = true
  synced : ∀ b, b / segment_size < m.current_segment_id → m.durable b = true

section Write

variable {segment_size : ℕ} {m m' : WalSegments} {io : IoPlan}

theorem grows_sync_all (m : WalSegments) (id : ℕ) : Grows m (m.sync_all segment_size id) :=
  ⟨le_refl _, fun _ h => h, fun b h => by simp [WalSegments.sync_all, h]⟩

theorem Sealed.sync_all (hm : Sealed segment_size m) (id : ℕ) :
    Sealed segment_size (m.sync_all segment_size id) :=
  ⟨hm.reached, hm.filled, fun b hb => (grows_sync_all m id).durable b (hm.synced b hb)⟩

variable {r : Except StorageError IoPlan}

/-- Opening a file changes no position and takes nothing back. -/
theorem open_segment_file_spec {id : ℕ} (h : m.open_segment_file segment_size id io = (m', r)) :
    m'.current_segment_id = m.current_segment_id ∧ m'.written = m.written ∧
      ∀ b, m.durable b = true → m'.durable b = true := by
  unfold WalSegments.open_segment_file at h
  split at h
  · cases h
    exact ⟨rfl, rfl, fun _ hb => hb⟩
  simp only at h
  split at h
  · cases h
    split_ifs
    · exact ⟨rfl, rfl, fun _ hb => hb⟩
    · exact ⟨rfl, rfl, fun _ hb => hb⟩
  · cases h
    split_ifs
    · exact ⟨rfl, rfl, (grows_sync_all m id).durable⟩
    · exact ⟨rfl, rfl, fun b hb => by simp [WalSegments.sync_all, hb]⟩

/-- A rotation out of a full segment leaves it synced. -/
theorem rotate_spec (hm : Sealed segment_size m)
    (hfull : ∀ b, b / segment_size ≤ m.current_segment_id → m.written b = true)
    (h : m.rotate segment_size io = (m', r)) :
    Grows m m' ∧ Sealed segment_size m' ∧ m'.written = m.written ∧
      (∀ io', r = .ok io' → m'.current_segment_id = m.current_segment_id + 1) := by
  unfold WalSegments.rotate at h
  split at h
  · cases h
    exact ⟨Grows.refl m, hm, rfl, fun io' hio => by simp at hio⟩
  rename_i io₁ _
  simp only at h
  rcases hopen : (m.sync_all segment_size m.current_segment_id).open_segment_file segment_size
    ((m.sync_all segment_size m.current_segment_id).current_segment_id + 1) io₁ with ⟨m₂, r₂⟩
  obtain ⟨hcur, hwr, hdur⟩ := open_segment_file_spec hopen
  have hcur' : m₂.current_segment_id = m.current_segment_id := hcur
  have hwr' : m₂.written = m.written := hwr
  have hdur2 : ∀ b, m.durable b = true → m₂.durable b = true := fun b hb =>
    hdur b ((grows_sync_all m _).durable b hb)
  -- every byte up to the end of the segment that is left
  have hsync : ∀ b, b / segment_size ≤ m.current_segment_id → m₂.durable b = true := by
    intro b hb
    apply hdur
    rcases Nat.lt_or_eq_of_le hb with hlt | heq
    · exact (grows_sync_all m _).durable b (hm.synced b hlt)
    · simp [WalSegments.sync_all, heq, hfull b hb]
  have hsealed : Sealed segment_size m₂ := by
    refine ⟨fun b hb => ?_, fun b hb => ?_, fun b hb => ?_⟩
    · rw [hcur']
      exact hm.reached b (hwr' ▸ hb)
    · rw [hwr']
      exact hm.filled b (hcur' ▸ hb)
    · rw [hcur'] at hb
      exact hsync b (le_of_lt hb)
  have hgrows : Grows m m₂ := ⟨le_of_eq hcur'.symm, fun b hb => by rw [hwr']; exact hb, hdur2⟩
  rw [hopen] at h
  cases r₂ with
  | error e =>
    cases h
    exact ⟨hgrows, hsealed, hwr', fun io' hio => by simp at hio⟩
  | ok io₂ =>
    simp only at h
    split at h
    · cases h
      exact ⟨hgrows, hsealed, hwr', fun io' hio => by simp at hio⟩
    · cases h
      refine ⟨⟨Nat.le_succ _, hgrows.written, hdur2⟩, ⟨fun b hb => ?_, fun b hb => ?_,
        fun b hb => ?_⟩, hwr', fun _ _ => rfl⟩
      · exact le_trans (hm.reached b (hwr' ▸ hb)) (Nat.le_succ _)
      · show m₂.written b = true
        rw [hwr']
        exact hfull b (Nat.lt_succ_iff.mp hb)
      · exact hsync b (Nat.lt_succ_iff.mp hb)

theorem rotate_times_spec {n : ℕ} (hm : Sealed segment_size m)
    (hfull : ∀ b, b / segment_size < m.current_segment_id + n → m.written b = true)
    (h : WalSegments.rotate_times segment_size n m io = (m', r)) :
    Grows m m' ∧ Sealed segment_size m' ∧ m'.written = m.written ∧
      (∀ io', r = .ok io' → m'.current_segment_id = m.current_segment_id + n) := by
  induction n generalizing m io with
  | zero =>
    obtain ⟨rfl, rfl⟩ := Prod.mk.inj h
    exact ⟨Grows.refl m, hm, rfl, fun _ _ => rfl⟩
  | succ n ih =>
    rw [WalSegments.rotate_times] at h
    split at h
    all_goals
      rename_i hrot
      obtain ⟨hg, hs, hw, hc⟩ := rotate_spec hm (fun b hb => hfull b (by omega)) hrot
    · cases h
      exact ⟨hg, hs, hw, fun io' hio => by simp at hio⟩
    · have hc1 := hc _ rfl
      obtain ⟨hg', hs', hw', hc'⟩ := ih hs (fun b hb => by
        rw [hw]
        exact hfull b (by omega)) h
      refine ⟨hg.trans hg', hs', hw'.trans hw, fun io' hio => ?_⟩
      rw [hc' io' hio, hc1]
      omega

variable {pos : ℕ}

/-- The segment of a position behind which everything is written. -/
theorem ensure_for_write_spec (hm : Sealed segment_size m)
    (hbelow : ∀ b, b < pos → m.written b = true)
    (h : m.ensure_for_write segment_size pos io = (m', r)) :
    Grows m m' ∧ Sealed segment_size m' ∧ m'.written = m.written ∧
      (∀ io', r = .ok io' → m'.current_segment_id = pos / segment_size) := by
  unfold WalSegments.ensure_for_write segment_id at h
  simp only at h
  split_ifs at h with heq hlt
  · cases h
    exact ⟨Grows.refl m, hm, rfl, fun _ _ => heq.symm⟩
  · cases h
    exact ⟨Grows.refl m, hm, rfl, fun io' hio => by simp at hio⟩
  · obtain ⟨hg, hs, hw, hc⟩ := rotate_times_spec hm (fun b hb => hbelow b (by
      have : b / segment_size < pos / segment_size := by omega
      exact lt_of_not_ge fun hle => absurd (Nat.div_le_div_right hle) (not_le.mpr this))) h
    refine ⟨hg, hs, hw, fun io' hio => ?_⟩
    rw [hc io' hio]
    omega

theorem grows_put (m : WalSegments) (pos : ℕ) (bs : List UInt8) : Grows m (m.put pos bs) :=
  ⟨le_refl _, fun b hb => by simp [WalSegments.put, hb], fun _ h => h⟩

/-- A write inside the current segment. -/
theorem Sealed.put (hm : Sealed segment_size m) {bs : List UInt8}
    (hin : ∀ b, pos ≤ b → b < pos + bs.length → b / segment_size = m.current_segment_id) :
    Sealed segment_size (m.put pos bs) := by
  refine ⟨fun b hb => ?_, fun b hb => (grows_put m pos bs).written b (hm.filled b hb), hm.synced⟩
  simp only [WalSegments.put, Bool.or_eq_true, decide_eq_true_eq] at hb
  rcases hb with hb | ⟨hlo, hhi⟩
  · exact hm.reached b hb
  · exact le_of_eq (hin b hlo hhi)

/-- A chunk ends at or before the end of its segment. -/
theorem div_of_chunk (hsize : 0 < segment_size) {b n : ℕ}
    (hn : n ≤ segment_size - pos % segment_size) (hlo : pos ≤ b) (hhi : b < pos + n) :
    b / segment_size = pos / segment_size := by
  have hmod := Nat.mod_lt pos hsize
  have hpos := Nat.div_add_mod pos segment_size
  have hle : pos / segment_size ≤ b / segment_size := Nat.div_le_div_right hlo
  have hlt : b / segment_size < pos / segment_size + 1 := by
    apply Nat.div_lt_of_lt_mul
    rw [Nat.mul_add, Nat.mul_one]
    omega
  omega

/-- A pass writes at least a byte, and no further than to the end of the segment. -/
theorem chunk_bounds (hsize : 0 < segment_size) {rest : List UInt8} (hne : rest ≠ []) {chunk : ℕ}
    (h : min (segment_size - segment_offset segment_size pos) rest.length = chunk) :
    0 < chunk ∧ chunk ≤ segment_size - pos % segment_size ∧ chunk ≤ rest.length := by
  subst h
  refine ⟨lt_min ?_ (List.length_pos_of_ne_nil hne), Nat.min_le_left _ _, Nat.min_le_right _ _⟩
  exact Nat.sub_pos_of_lt (Nat.mod_lt pos hsize)

/-- **What a record write does**, up to the point where it fails: it only writes within
the record's range, and the segments it leaves behind are full and synced. -/
theorem write_chunks_spec (hsize : 0 < segment_size) {passes : ℕ} {rest : List UInt8}
    (hm : Sealed segment_size m) (hbelow : ∀ b, b < pos → m.written b = true)
    (h : WalSegments.write_chunks segment_size passes pos rest m io = (m', r)) :
    Grows m m' ∧ Sealed segment_size m' ∧
      (∀ b, m'.written b = true → m.written b = true ∨ (pos ≤ b ∧ b < pos + rest.length)) ∧
      (rest.length ≤ passes → ∀ io', r = .ok io' → ∀ b, b < pos + rest.length →
        m'.written b = true) := by
  induction passes generalizing pos rest m io with
  | zero =>
    obtain ⟨rfl, rfl⟩ := Prod.mk.inj h
    refine ⟨Grows.refl m, hm, fun b hb => Or.inl hb, fun hlen _ _ b hb => hbelow b ?_⟩
    omega
  | succ passes ih =>
    rw [WalSegments.write_chunks] at h
    split_ifs at h with hnil
    · obtain ⟨rfl, rfl⟩ := Prod.mk.inj h
      subst hnil
      exact ⟨Grows.refl m, hm, fun b hb => Or.inl hb, fun _ _ _ b hb => hbelow b hb⟩
    simp only at h
    generalize hchunk : min (segment_size - segment_offset segment_size pos) rest.length = chunk at h
    obtain ⟨hone, hle, hlen⟩ := chunk_bounds hsize hnil hchunk
    rcases hens : m.ensure_for_write segment_size pos io with ⟨m₁, r₁⟩
    obtain ⟨hg1, hs1, hw1, hc1⟩ := ensure_for_write_spec hm hbelow hens
    rw [hens] at h
    cases r₁ with
    | error e =>
      cases h
      exact ⟨hg1, hs1, fun b hb => .inl (by rwa [hw1] at hb), fun _ io' hio => by simp at hio⟩
    | ok io₁ =>
    simp only at h
    have hcur := hc1 io₁ rfl
    -- the part of the chunk that reaches the file lies in the current segment
    have hin : ∀ n, n ≤ chunk → ∀ b, pos ≤ b → b < pos + (rest.take n).length →
        b / segment_size = m₁.current_segment_id := by
      intro n hn b hlo hhi
      rw [List.length_take] at hhi
      rw [hcur]
      exact div_of_chunk hsize (le_trans hn hle) hlo (by omega)
    have hnew : ∀ n b, (m₁.put pos (rest.take n)).written b = true →
        m.written b = true ∨ (pos ≤ b ∧ b < pos + rest.length) := by
      intro n b hb
      simp only [WalSegments.put, hw1, Bool.or_eq_true, decide_eq_true_eq, List.length_take] at hb
      rcases hb with hb | hb
      · exact .inl hb
      · exact .inr (by omega)
    split at h
    · cases h
      exact ⟨hg1.trans (grows_put _ _ _), hs1.put (hin _ (Nat.min_le_right _ _)), hnew _,
        fun _ io' hio => by simp at hio⟩
    have hput : ∀ b, b < pos + chunk → (m₁.put pos (rest.take chunk)).written b = true := by
      intro b hb
      by_cases hlo : b < pos
      · exact (grows_put _ _ _).written b (by rw [hw1]; exact hbelow b hlo)
      · simp only [WalSegments.put, Bool.or_eq_true, decide_eq_true_eq, List.length_take]
        right
        omega
    have hsput := hs1.put (hin chunk (le_refl _))
    have hgput := hg1.trans (grows_put m₁ pos (rest.take chunk))
    have hrest : (rest.drop chunk).length = rest.length - chunk := List.length_drop
    -- the passes that are left, from either of the two states the chunk can leave
    have hnext : ∀ (m₂ : WalSegments) (io' : IoPlan), Grows (m₁.put pos (rest.take chunk)) m₂ →
        Sealed segment_size m₂ → m₂.written = (m₁.put pos (rest.take chunk)).written →
        WalSegments.write_chunks segment_size passes (pos + chunk) (rest.drop chunk) m₂ io' =
          (m', r) → Grows m m' ∧ Sealed segment_size m' ∧
        (∀ b, m'.written b = true → m.written b = true ∨ (pos ≤ b ∧ b < pos + rest.length)) ∧
        (rest.length ≤ passes + 1 → ∀ io', r = .ok io' → ∀ b, b < pos + rest.length →
          m'.written b = true) := by
      intro m₂ io' hg2 hs2 hw2 hloop
      obtain ⟨hg, hs, hwr, hall⟩ := ih hs2 (fun b hb => by rw [hw2]; exact hput b hb) hloop
      refine ⟨(hgput.trans hg2).trans hg, hs, fun b hb => ?_, fun hpasses io'' hio b hb => ?_⟩
      · rcases hwr b hb with hb | hb
        · exact hnew chunk b (by rwa [hw2] at hb)
        · right
          omega
      · exact hall (by omega) io'' hio b (by omega)
    split_ifs at h with hsync
    · split at h
      · cases h
        exact ⟨hgput, hsput, hnew chunk, fun _ io' hio => by simp at hio⟩
      · exact hnext _ _ (grows_sync_all _ _) (hsput.sync_all _) rfl h
    · exact hnext _ _ (Grows.refl _) hsput rfl h

/-- The same for a whole record, whose range begins where the written bytes end. -/
theorem write_record_to_segment_spec (hsize : 0 < segment_size) {lsn : ℕ} {buf : List UInt8}
    (hm : Sealed segment_size m) (hbelow : ∀ b, b < lsn → m.written b = true)
    (h : m.write_record_to_segment segment_size buf lsn io = (m', r)) :
    Grows m m' ∧ Sealed segment_size m' ∧
      (∀ b, m'.written b = true → m.written b = true ∨ (lsn ≤ b ∧ b < lsn + buf.length)) ∧
      (∀ io', r = .ok io' → ∀ b, b < lsn + buf.length → m'.written b = true) := by
  unfold WalSegments.write_record_to_segment at h
  split_ifs at h with hbig
  · cases h
    exact ⟨Grows.refl m, hm, fun b hb => .inl hb, fun io' hio => by simp at hio⟩
  · obtain ⟨hg, hs, hwr, hall⟩ := write_chunks_spec hsize hm hbelow h
    exact ⟨hg, hs, hwr, hall (le_refl _)⟩

end Write

end Ams
