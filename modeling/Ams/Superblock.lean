/-
The superblock file: `pg-storage/src/superblock.rs`.

The file holds two 512-byte copies. A write goes to the copy that is not active, and
the active copy is the valid one with the higher checkpoint LSN. That is safe as long
as the active copy is on disk, because then a crash can take only the other one. But
which copy is active is read off the file, and the file shows what was written, synced
or not. After a write whose sync failed the new copy is active and not durable, and
the next write goes over the old one, the last that was. The migration of the old
format writes both copies before it syncs either.

The model runs the calls one write and one sync at a time. A copy is what the file
reads as, what is durable, and what has been written since the last successful sync;
a crash leaves any of these or bytes that do not decode.
-/
import Ams.WalRecord
import Ams.Lib.Run

set_option autoImplicit false

namespace Ams

open Ams.Lib
open Function (update update_self update_of_ne)

/-! ## A copy and its bytes -/

abbrev SUPERBLOCK_MAGIC : ℕ := 0x50475253
abbrev SUPERBLOCK_VERSION : ℕ := 2
abbrev SUPERBLOCK_VERSION_V1 : ℕ := 1
abbrev SUPERBLOCK_SIZE : ℕ := 512

/-- `Oid::FIRST_USER`. -/
abbrev Oid.FIRST_USER : Oid := 16384

structure Superblock where
  version : ℕ
  page_size : ℕ
  checkpoint_lsn : Lsn
  next_page_id : PageId
  next_txn_id : TxnId
  next_oid : Oid
  created_at : ℕ
deriving DecidableEq, Repr

namespace Superblock

/-- The current version, and fields that fit their widths. -/
structure InRange (sb : Superblock) : Prop where
  version : sb.version = SUPERBLOCK_VERSION
  page_size : sb.page_size < 256 ^ 4
  checkpoint_lsn : sb.checkpoint_lsn < 256 ^ 8
  next_page_id : sb.next_page_id < 256 ^ 8
  next_txn_id : sb.next_txn_id < 256 ^ 8
  next_oid : sb.next_oid < 256 ^ 8
  created_at : sb.created_at < 256 ^ 8

instance (sb : Superblock) : Decidable sb.InRange :=
  decidable_of_iff (sb.version = SUPERBLOCK_VERSION ∧ sb.page_size < 256 ^ 4 ∧
      sb.checkpoint_lsn < 256 ^ 8 ∧ sb.next_page_id < 256 ^ 8 ∧ sb.next_txn_id < 256 ^ 8 ∧
      sb.next_oid < 256 ^ 8 ∧ sb.created_at < 256 ^ 8)
    ⟨fun ⟨a, b, c, d, e, f, g⟩ => ⟨a, b, c, d, e, f, g⟩, fun ⟨a, b, c, d, e, f, g⟩ => ⟨a, b, c, d, e, f, g⟩⟩

/-- The bytes before the checksum. -/
def fields (sb : Superblock) : List (List UInt8) :=
  [leBytes 4 SUPERBLOCK_MAGIC, leBytes 4 sb.version, leBytes 4 sb.page_size, leBytes 4 0,
   leBytes 8 sb.checkpoint_lsn, leBytes 8 sb.next_page_id, leBytes 8 sb.next_txn_id,
   leBytes 8 sb.next_oid, leBytes 8 sb.created_at]

/-- The reserved bytes after the checksum. -/
def reserved : List UInt8 := List.replicate 452 0

def encode (sb : Superblock) : List UInt8 :=
  sb.fields.flatten ++ leBytes 4 (crc32 (sb.fields.flatten ++ reserved)).toNat ++ reserved

def decode_v2 (bytes : List UInt8) : Except StorageError Superblock :=
  if (crc32 (bytes.take 56 ++ bytes.drop 60)).toNat ≠ wal_le bytes 56 4 then
    .error (.MetadataCorrupted "checksum mismatch")
  else
    .ok ⟨SUPERBLOCK_VERSION, wal_le bytes 8 4, wal_le bytes 16 8, wal_le bytes 24 8,
      wal_le bytes 32 8, wal_le bytes 40 8, wal_le bytes 48 8⟩

/-- The old layout has no OID counter, and its checksum is eight bytes earlier. -/
def decode_v1 (bytes : List UInt8) : Except StorageError Superblock :=
  if (crc32 (bytes.take 48 ++ bytes.drop 52)).toNat ≠ wal_le bytes 48 4 then
    .error (.MetadataCorrupted "checksum mismatch (v1)")
  else
    .ok ⟨SUPERBLOCK_VERSION, wal_le bytes 8 4, wal_le bytes 16 8, wal_le bytes 24 8,
      wal_le bytes 32 8, Oid.FIRST_USER, wal_le bytes 40 8⟩

/-- The superblock of a copy, and whether the copy is in the old format. -/
def decode (bytes : List UInt8) : Except StorageError (Superblock × Bool) :=
  if bytes.length ≠ SUPERBLOCK_SIZE then
    .error (.MetadataCorrupted "superblock copy has wrong size")
  else
    let magic := wal_le bytes 0 4
    if magic ≠ SUPERBLOCK_MAGIC then
      .error (.MetadataCorrupted s!"bad magic: expected {SUPERBLOCK_MAGIC}, got {magic}")
    else
      let version := wal_le bytes 4 4
      if version = SUPERBLOCK_VERSION then (decode_v2 bytes).map (·, false)
      else if version = SUPERBLOCK_VERSION_V1 then (decode_v1 bytes).map (·, true)
      else .error (.MetadataCorrupted s!"unsupported version {version}")

theorem length_fields (sb : Superblock) : sb.fields.flatten.length = 56 := by
  simp [fields, List.flatten]

theorem length_encode (sb : Superblock) : sb.encode.length = SUPERBLOCK_SIZE := by
  rw [encode, List.length_append, List.length_append, length_fields, length_leBytes, reserved,
    List.length_replicate]

/-- A field before the checksum, read back. -/
theorem wal_le_encode (sb : Superblock) {k off w v : ℕ} (hk : sb.fields[k]? = some (leBytes w v))
    (hoff : ((sb.fields.take k).map List.length).sum = off) (hv : v < 256 ^ w) :
    wal_le sb.encode off w = v := by
  rw [wal_le, encode, List.append_assoc, take_drop_flatten hk hoff (length_leBytes w v),
    ofLe_leBytes_of_lt hv]

theorem decode_encode {sb : Superblock} (h : sb.InRange) : decode sb.encode = .ok (sb, false) := by
  have hmagic : wal_le sb.encode 0 4 = SUPERBLOCK_MAGIC :=
    sb.wal_le_encode (k := 0) rfl rfl (by decide)
  have hversion : wal_le sb.encode 4 4 = SUPERBLOCK_VERSION :=
    (sb.wal_le_encode (k := 1) rfl (by simp [fields]) (by rw [h.version]; decide)).trans h.version
  have hcrc : (crc32 (sb.encode.take 56 ++ sb.encode.drop 60)).toNat = wal_le sb.encode 56 4 := by
    have htake : sb.encode.take 56 = sb.fields.flatten := by
      rw [encode, List.append_assoc]
      exact List.take_left' sb.length_fields
    have hdrop : sb.encode.drop 60 = reserved := by
      rw [encode]
      apply List.drop_left'
      rw [List.length_append, length_fields, length_leBytes]
    have hsum : (sb.encode.drop 56).take 4 = leBytes 4 (crc32 (sb.fields.flatten ++ reserved)).toNat := by
      rw [encode, List.append_assoc, List.drop_left' sb.length_fields]
      exact List.take_left' (length_leBytes _ _)
    rw [htake, hdrop, wal_le, hsum, ofLe_leBytes_of_lt (BitVec.isLt _)]
  have hlen : ∀ k, ((sb.fields.take k).map List.length).sum =
      (([4, 4, 4, 4, 8, 8, 8, 8, 8] : List ℕ).take k).sum := by
    intro k
    rw [List.map_take]
    simp [fields]
  have hps : wal_le sb.encode 8 4 = sb.page_size := sb.wal_le_encode (k := 2) rfl (hlen 2) h.page_size
  have hlsn : wal_le sb.encode 16 8 = sb.checkpoint_lsn :=
    sb.wal_le_encode (k := 4) rfl (hlen 4) h.checkpoint_lsn
  have hpage : wal_le sb.encode 24 8 = sb.next_page_id :=
    sb.wal_le_encode (k := 5) rfl (hlen 5) h.next_page_id
  have htxn : wal_le sb.encode 32 8 = sb.next_txn_id :=
    sb.wal_le_encode (k := 6) rfl (hlen 6) h.next_txn_id
  have hoid : wal_le sb.encode 40 8 = sb.next_oid :=
    sb.wal_le_encode (k := 7) rfl (hlen 7) h.next_oid
  have hat : wal_le sb.encode 48 8 = sb.created_at :=
    sb.wal_le_encode (k := 8) rfl (hlen 8) h.created_at
  unfold decode
  rw [if_neg (not_not.mpr sb.length_encode)]
  simp only
  rw [if_neg (not_not.mpr hmagic), if_pos hversion, decode_v2, if_neg (not_not.mpr hcrc), hps, hlsn,
    hpage, htxn, hoid, hat, Except.map, ← h.version]

end Superblock

/-! ## The file -/

/-- The two copies, at offsets `0` and `SUPERBLOCK_SIZE`. -/
inductive Copy where
  | A
  | B
deriving DecidableEq, Repr

def Copy.other : Copy → Copy
  | .A => .B
  | .B => .A

/-- The active copy's superblock, which copy it is, and whether a valid copy is in the
old format. -/
def read_with_offset (file : Copy → List UInt8) : Except StorageError (Superblock × Copy × Bool) :=
  match Superblock.decode (file .A), Superblock.decode (file .B) with
  | .ok (a, migrated_a), .ok (b, migrated_b) =>
    let migrated := migrated_a || migrated_b
    if b.checkpoint_lsn > a.checkpoint_lsn then .ok (b, .B, migrated) else .ok (a, .A, migrated)
  | .ok (a, migrated_a), .error _ => .ok (a, .A, migrated_a)
  | .error _, .ok (b, migrated_b) => .ok (b, .B, migrated_b)
  | .error a_err, .error b_err =>
    .error (.MetadataCorrupted
      s!"both copies are corrupted: copy A: {a_err.display}; copy B: {b_err.display}")

/-- A copy of the file: what it reads as, what is durable, and what was written since
the last successful sync. -/
structure CopyState where
  now : List UInt8
  synced : List UInt8
  written : List (List UInt8)
deriving DecidableEq, Repr

/-- A copy nobody has written since it was synced. -/
def CopyState.durable (bytes : List UInt8) : CopyState := ⟨bytes, bytes, []⟩

/-- Bytes that do not decode. -/
def TornCopy (bytes : List UInt8) : Prop := (Superblock.decode bytes).isOk = false

instance (bytes : List UInt8) : Decidable (TornCopy bytes) := inferInstanceAs (Decidable (_ = _))

/-- What a crash may leave of the copy. -/
def CopyState.Survives (c : CopyState) (bytes : List UInt8) : Prop :=
  bytes = c.synced ∨ bytes ∈ c.written ∨ (c.written ≠ [] ∧ TornCopy bytes)

instance (c : CopyState) (bytes : List UInt8) : Decidable (c.Survives bytes) :=
  inferInstanceAs (Decidable (_ ∨ _ ∨ _))

def CopyState.write (c : CopyState) (bytes : List UInt8) : CopyState :=
  { c with now := bytes, written := bytes :: c.written }

def CopyState.sync (c : CopyState) : CopyState := .durable c.now

/-- Where a call stands: between calls, or with copies still to write before its
`sync_all`. `migrating` is the write-back of `read`. -/
inductive SbPc where
  | idle
  | writing (todo : List Copy) (sb : Superblock) (migrating : Bool)
deriving DecidableEq, Repr

/-- The file, the call under way, and the values recovery may find: that of the last
`write` that returned `Ok`, and those attempted since. -/
structure SbSys where
  copy : Copy → CopyState
  pc : SbPc
  candidates : List Superblock

/-- One thing that happens. The results of the file operations are in the labels: a
failing write may have left the copy as it was, complete, or torn. -/
inductive SbOp where
  | read
  | write (sb : Superblock)
  | io_write
  | io_write_fails (left : Option (List UInt8))
  | io_sync
  | io_sync_fails
  | crash (file : Copy → List UInt8)

namespace SbSys

def now (s : SbSys) (c : Copy) : List UInt8 := (s.copy c).now

/-- `Superblock::read`: a file without old copies is only read. -/
def begin_read (s : SbSys) : SbSys :=
  match read_with_offset s.now with
  | .ok (sb, _, true) => { s with pc := .writing [.A, .B] sb true }
  | _ => s

/-- `Superblock::write`, up to its first file write. -/
def begin_write (s : SbSys) (sb : Superblock) : SbSys :=
  match read_with_offset s.now with
  | .error _ => { s with pc := .writing [.A, .B] sb false, candidates := sb :: s.candidates }
  | .ok (current, active, _) =>
    if sb.checkpoint_lsn ≤ current.checkpoint_lsn then s
    else { s with pc := .writing [active.other] sb false, candidates := sb :: s.candidates }

def step (s : SbSys) : SbOp → Option SbSys
  | .read => if s.pc = .idle then some s.begin_read else none
  | .write sb => if s.pc = .idle ∧ sb.InRange then some (s.begin_write sb) else none
  | .io_write =>
    match s.pc with
    | .writing (c :: todo) sb migrating =>
      some { s with
        copy := update s.copy c ((s.copy c).write sb.encode)
        pc := .writing todo sb migrating }
    | _ => none
  | .io_write_fails left =>
    match s.pc, left with
    | .writing (_ :: _) _ _, none => some { s with pc := .idle }
    | .writing (c :: _) sb _, some bytes =>
      if bytes = sb.encode ∨ TornCopy bytes then
        some { s with copy := update s.copy c ((s.copy c).write bytes), pc := .idle }
      else none
    | _, _ => none
  | .io_sync =>
    match s.pc with
    | .writing [] sb migrating =>
      some ⟨fun c => (s.copy c).sync, .idle, if migrating then s.candidates else [sb]⟩
    | _ => none
  | .io_sync_fails =>
    match s.pc with
    | .writing [] _ _ => some { s with pc := .idle }
    | _ => none
  | .crash file =>
    if (s.copy .A).Survives (file .A) ∧ (s.copy .B).Survives (file .B) then
      some { s with copy := fun c => .durable (file c), pc := .idle }
    else none

/-- Two equal durable copies of a superblock, in either format. -/
def start (bytes : List UInt8) (sb : Superblock) : SbSys := ⟨fun _ => .durable bytes, .idle, [sb]⟩

/-- The steps that keep a durable copy: a write that starts from an active copy that is
synced, and a read that finds no copy in the old format. -/
def Guarded (s : SbSys) : SbOp → Prop
  | .write _ => ∀ r ∈ (read_with_offset s.now).toOption, (s.copy r.2.1).written = []
  | .read => ∀ r ∈ (read_with_offset s.now).toOption, r.2.2 = false
  | _ => True

end SbSys

/-! ## One copy is always durable -/

/-- The file reads as one of its valid copies, and no valid copy is newer. -/
theorem read_with_offset_of_valid {file : Copy → List UInt8} {x : Copy} {v : Superblock} {m : Bool}
    (hx : Superblock.decode (file x) = .ok (v, m)) :
    ∃ w c old, read_with_offset file = .ok (w, c, old) ∧
      (∃ m', Superblock.decode (file c) = .ok (w, m')) ∧ v.checkpoint_lsn ≤ w.checkpoint_lsn := by
  unfold read_with_offset
  cases x with
  | A =>
    rw [hx]
    cases hb : Superblock.decode (file .B) with
    | error e => exact ⟨v, .A, m, rfl, ⟨m, hx⟩, le_refl _⟩
    | ok r =>
      obtain ⟨b, m'⟩ := r
      simp only
      by_cases hlt : b.checkpoint_lsn > v.checkpoint_lsn
      · rw [if_pos hlt]
        exact ⟨b, .B, _, rfl, ⟨m', hb⟩, le_of_lt hlt⟩
      · rw [if_neg hlt]
        exact ⟨v, .A, _, rfl, ⟨m, hx⟩, le_refl _⟩
  | B =>
    rw [hx]
    cases ha : Superblock.decode (file .A) with
    | error e => exact ⟨v, .B, m, rfl, ⟨m, hx⟩, le_refl _⟩
    | ok r =>
      obtain ⟨a, m'⟩ := r
      simp only
      by_cases hlt : v.checkpoint_lsn > a.checkpoint_lsn
      · rw [if_pos hlt]
        exact ⟨v, .B, _, rfl, ⟨m, hx⟩, le_refl _⟩
      · rw [if_neg hlt]
        exact ⟨a, .A, _, rfl, ⟨m', ha⟩, not_lt.mp hlt⟩

theorem Copy.eq_or_other (c x : Copy) : c = x ∨ c = x.other := by
  cases c <;> cases x <;> simp [Copy.other]

theorem Copy.other_ne (x : Copy) : x.other ≠ x := by
  cases x <;> simp [Copy.other]

theorem Copy.other_other (x : Copy) : x.other.other = x := by
  cases x <;> rfl

/-- Bytes that may stand beside a durable copy of `v`: if they decode, then to a
candidate or to something older than `v`. -/
def Harmless (candidates : List Superblock) (v : Superblock) (bytes : List UInt8) : Prop :=
  ∀ w m, Superblock.decode bytes = .ok (w, m) →
    w ∈ candidates ∨ w.checkpoint_lsn < v.checkpoint_lsn

theorem TornCopy.decode_eq_error {bytes : List UInt8} (h : TornCopy bytes) :
    ∃ e, Superblock.decode bytes = .error e := by
  cases hd : Superblock.decode bytes with
  | error e => exact ⟨e, rfl⟩
  | ok r =>
    rw [TornCopy, hd] at h
    exact absurd h (by simp [Except.isOk, Except.toBool])

theorem read_with_offset_of_torn {file : Copy → List UInt8} (h : ∀ c, TornCopy (file c)) :
    ∃ e, read_with_offset file = .error e := by
  obtain ⟨a, ha⟩ := (h .A).decode_eq_error
  obtain ⟨b, hb⟩ := (h .B).decode_eq_error
  unfold read_with_offset
  rw [ha, hb]
  exact ⟨_, rfl⟩

theorem TornCopy.harmless {bytes : List UInt8} (h : TornCopy bytes) (candidates : List Superblock)
    (v : Superblock) : Harmless candidates v bytes := by
  intro w m hw
  obtain ⟨e, he⟩ := h.decode_eq_error
  rw [he] at hw
  simp at hw

theorem harmless_encode {sb : Superblock} (h : sb.InRange) {candidates : List Superblock}
    (hmem : sb ∈ candidates) (v : Superblock) : Harmless candidates v sb.encode := by
  intro w m hw
  rw [Superblock.decode_encode h] at hw
  obtain ⟨rfl, -⟩ := Prod.mk.inj (Except.ok.inj hw)
  exact .inl hmem

/-- Copy `x` is durable and holds the candidate `v`; nothing the other copy may be is
in its way. -/
structure Anchored (copy : Copy → CopyState) (candidates : List Superblock) (x : Copy)
    (v : Superblock) : Prop where
  clean : (copy x).written = []
  reads : (copy x).now = (copy x).synced
  valid : ∃ m, Superblock.decode (copy x).synced = .ok (v, m)
  mem : v ∈ candidates
  synced : Harmless candidates v (copy x.other).synced
  written : ∀ bytes ∈ (copy x.other).written, Harmless candidates v bytes
  now_other : (copy x.other).now = (copy x.other).synced ∨
    (copy x.other).now ∈ (copy x.other).written

namespace Anchored

variable {copy : Copy → CopyState} {candidates : List Superblock} {x : Copy} {v : Superblock}

variable (h : Anchored copy candidates x v)

include h

theorem now_harmless : Harmless candidates v (copy x.other).now := by
  rcases h.now_other with heq | hmem
  · rw [heq]
    exact h.synced
  · exact h.written _ hmem

theorem attempt (sb : Superblock) : Anchored copy (sb :: candidates) x v where
  clean := h.clean
  reads := h.reads
  valid := h.valid
  mem := List.mem_cons_of_mem _ h.mem
  synced w m hw := (h.synced w m hw).imp_left (List.mem_cons_of_mem _)
  written bytes hb w m hw := (h.written bytes hb w m hw).imp_left (List.mem_cons_of_mem _)
  now_other := h.now_other

/-- The file reads as a candidate. If that copy is synced, it is an anchor too. -/
theorem active : ∃ w c old, read_with_offset (fun c => (copy c).now) = .ok (w, c, old) ∧
      ((copy c).written = [] → Anchored copy candidates c w) := by
  obtain ⟨m, hm⟩ := h.valid
  obtain ⟨w, c, old, hread, ⟨m', hw⟩, hle⟩ :=
    @read_with_offset_of_valid (fun c => (copy c).now) x v m (by simp only [h.reads]; exact hm)
  refine ⟨w, c, old, hread, fun hclean => ?_⟩
  rcases Copy.eq_or_other c x with rfl | rfl
  · simp only [h.reads] at hw
    rw [hm] at hw
    obtain ⟨rfl, -⟩ := Prod.mk.inj (Except.ok.inj hw)
    exact h
  · -- the other copy, synced: what it reads as is what is durable
    have hnow : (copy x.other).now = (copy x.other).synced := by
      rcases h.now_other with heq | hmem
      · exact heq
      · rw [hclean] at hmem
        simp at hmem
    have hmem : w ∈ candidates := by
      rcases h.now_harmless w m' hw with hmem | hlt
      · exact hmem
      · exact absurd hle (not_le.mpr hlt)
    refine ⟨hclean, hnow, ⟨m', by rw [← hnow]; exact hw⟩, hmem, ?_, ?_, ?_⟩ <;> rw [Copy.other_other]
    · intro u m'' hu
      rw [hm] at hu
      obtain ⟨rfl, -⟩ := Prod.mk.inj (Except.ok.inj hu)
      exact .inl h.mem
    · rw [h.clean]
      exact fun bytes hb => absurd hb List.not_mem_nil
    · exact .inl h.reads

/-- A write to the copy that is not the anchor. -/
theorem write_other {bytes : List UInt8}
    (hb : Harmless candidates v bytes) :
    Anchored (update copy x.other ((copy x.other).write bytes)) candidates x v := by
  have hx : update copy x.other ((copy x.other).write bytes) x = copy x :=
    update_of_ne (Copy.other_ne x).symm _ _
  refine ⟨?_, ?_, ?_, h.mem, ?_, ?_, ?_⟩
  · rw [hx]; exact h.clean
  · rw [hx]; exact h.reads
  · rw [hx]; exact h.valid
  · rw [update_self]; exact h.synced
  · rw [update_self]
    intro c hc
    rcases List.mem_cons.mp hc with rfl | hc
    · exact hb
    · exact h.written c hc
  · rw [update_self]
    exact .inr (.head _)

/-- A sync after the other copy was written in full: it is the new anchor. -/
theorem sync_other {sb : Superblock} (hr : sb.InRange)
    (hlt : v.checkpoint_lsn < sb.checkpoint_lsn) (hnow : (copy x.other).now = sb.encode) :
    Anchored (fun c => (copy c).sync) [sb] x.other sb where
  clean := rfl
  reads := rfl
  valid := ⟨false, by
    change Superblock.decode (copy x.other).now = _
    rw [hnow, Superblock.decode_encode hr]⟩
  mem := List.mem_singleton_self sb
  synced := by
    rw [Copy.other_other]
    intro w m hw
    obtain ⟨m', hm'⟩ := h.valid
    change Superblock.decode (copy x).now = _ at hw
    rw [h.reads, hm'] at hw
    obtain ⟨rfl, -⟩ := Prod.mk.inj (Except.ok.inj hw)
    exact .inr hlt
  written bytes hb := absurd hb List.not_mem_nil
  now_other := .inl rfl

/-- What a crash leaves of the anchor is the anchor. -/
theorem survives_eq {bytes : List UInt8}
    (hs : (copy x).Survives bytes) : bytes = (copy x).synced := by
  rcases hs with heq | hmem | ⟨hne, -⟩
  · exact heq
  · rw [h.clean] at hmem
    simp at hmem
  · exact absurd h.clean hne

theorem survives_harmless {bytes : List UInt8}
    (hs : (copy x.other).Survives bytes) : Harmless candidates v bytes := by
  rcases hs with heq | hmem | ⟨-, htorn⟩
  · rw [heq]
    exact h.synced
  · exact h.written _ hmem
  · exact htorn.harmless _ _

theorem crash {file : Copy → List UInt8}
    (hf : ∀ c, (copy c).Survives (file c)) :
    Anchored (fun c => .durable (file c)) candidates x v where
  clean := rfl
  reads := rfl
  valid := by
    obtain ⟨m, hm⟩ := h.valid
    refine ⟨m, ?_⟩
    change Superblock.decode (file x) = _
    rw [h.survives_eq (hf x)]
    exact hm
  mem := h.mem
  synced := h.survives_harmless (hf x.other)
  written bytes hb := absurd hb List.not_mem_nil
  now_other := .inl rfl

end Anchored

namespace SbSys

/-- Between calls there is an anchor; during a write it is the copy not written. -/
def Inv (s : SbSys) : Prop :=
  ∃ x v, Anchored s.copy s.candidates x v ∧
    match s.pc with
    | .idle => True
    | .writing todo sb migrating => migrating = false ∧ sb.InRange ∧ sb ∈ s.candidates ∧
        v.checkpoint_lsn < sb.checkpoint_lsn ∧
        (todo = [x.other] ∨ todo = [] ∧ (s.copy x.other).now = sb.encode)

theorem Inv.step {s t : SbSys} {op : SbOp} (h : s.Inv) (hg : s.Guarded op)
    (hst : s.step op = some t) : t.Inv := by
  obtain ⟨x, v, ha, hpc⟩ := h
  cases op with
  | read =>
    obtain ⟨hidle, rfl⟩ := guarded hst
    obtain ⟨w, c, old, hread, -⟩ := ha.active
    have hold : old = false := hg (w, c, old) (by
      change (w, c, old) ∈ (read_with_offset fun c => (s.copy c).now).toOption
      rw [hread]
      rfl)
    have hsame : s.begin_read = s := by
      unfold begin_read
      change (match read_with_offset (fun c => (s.copy c).now) with
        | .ok (sb, _, true) => { s with pc := .writing [.A, .B] sb true }
        | _ => s) = s
      rw [hread, hold]
    rw [hsame]
    exact ⟨x, v, ha, hpc⟩
  | write sb =>
    obtain ⟨hen, rfl⟩ := guarded hst
    obtain ⟨w, c, old, hread, hanchor⟩ := ha.active
    have hc : Anchored s.copy s.candidates c w := hanchor (hg (w, c, old) (by
      change (w, c, old) ∈ (read_with_offset fun c => (s.copy c).now).toOption
      rw [hread]
      rfl))
    have hbegin : s.begin_write sb = if sb.checkpoint_lsn ≤ w.checkpoint_lsn then s
        else { s with pc := .writing [c.other] sb false, candidates := sb :: s.candidates } := by
      unfold begin_write
      rw [show read_with_offset s.now = .ok (w, c, old) from hread]
    rw [hbegin]
    by_cases hle : sb.checkpoint_lsn ≤ w.checkpoint_lsn
    · rw [if_pos hle]
      exact ⟨x, v, ha, hpc⟩
    · rw [if_neg hle]
      exact ⟨c, w, hc.attempt sb, rfl, hen.2, (.head _), not_le.mp hle, .inl rfl⟩
  | io_write =>
    simp only [SbSys.step] at hst
    split at hst
    · next c todo sb migrating hp =>
      cases hst
      rw [hp] at hpc
      obtain ⟨hmig, hr, hmem, hlt, htodo | ⟨hnil, -⟩⟩ := hpc
      · obtain ⟨rfl, rfl⟩ := List.cons.inj htodo
        refine ⟨x, v, ha.write_other (harmless_encode hr hmem v), hmig, hr, hmem, hlt, ?_⟩
        refine .inr ⟨rfl, ?_⟩
        change (update s.copy x.other _ x.other).now = _
        rw [update_self]
        rfl
      · exact absurd hnil (List.cons_ne_nil _ _)
    · cases hst
  | io_write_fails left =>
    simp only [SbSys.step] at hst
    split at hst
    · cases hst
      exact ⟨x, v, ha, trivial⟩
    · next c todo sb migrating bytes hp =>
      obtain ⟨hbytes, rfl⟩ := guarded hst
      rw [hp] at hpc
      obtain ⟨-, hr, hmem, -, htodo | ⟨hnil, -⟩⟩ := hpc
      · obtain ⟨rfl, rfl⟩ := List.cons.inj htodo
        refine ⟨x, v, ha.write_other ?_, trivial⟩
        rcases hbytes with rfl | htorn
        · exact harmless_encode hr hmem v
        · exact htorn.harmless _ _
      · exact absurd hnil (List.cons_ne_nil _ _)
    · cases hst
  | io_sync =>
    simp only [SbSys.step] at hst
    split at hst
    · next sb migrating hp =>
      cases hst
      rw [hp] at hpc
      obtain ⟨hmig, hr, hmem, hlt, htodo | ⟨-, hnow⟩⟩ := hpc
      · exact absurd htodo.symm (List.cons_ne_nil _ _)
      · rw [hmig]
        exact ⟨x.other, sb, ha.sync_other hr hlt hnow, trivial⟩
    · cases hst
  | io_sync_fails =>
    simp only [SbSys.step] at hst
    split at hst
    · cases hst
      exact ⟨x, v, ha, trivial⟩
    · cases hst
  | crash file =>
    obtain ⟨hf, rfl⟩ := guarded hst
    refine ⟨x, v, ha.crash fun c => ?_, trivial⟩
    cases c with
    | A => exact hf.1
    | B => exact hf.2

theorem start_inv {bytes : List UInt8} {sb : Superblock} {m : Bool}
    (h : Superblock.decode bytes = .ok (sb, m)) : (start bytes sb).Inv := by
  have hself : Harmless [sb] sb bytes := by
    intro w m' hw
    rw [h] at hw
    obtain ⟨rfl, -⟩ := Prod.mk.inj (Except.ok.inj hw)
    exact .inl (.head _)
  exact ⟨.A, sb, ⟨rfl, rfl, ⟨m, h⟩, (.head _), hself,
    fun b hb => absurd hb List.not_mem_nil, .inl rfl⟩, trivial⟩

end SbSys

/-- **A durable copy survives.** Start from two equal valid copies, in either format.
In every run in which each write starts from a synced active copy and no read has a
copy of the old format to migrate, with any write and sync failing, a crash at any
point leaves a file that reads as the value of the last write that returned `Ok` or of
one attempted after it. -/
theorem superblock_survives_crash {bytes : List UInt8} {sb₀ : Superblock} {m : Bool}
    (hvalid : Superblock.decode bytes = .ok (sb₀, m)) {ops : List SbOp} {s : SbSys}
    (hguard : AllSteps SbSys.step SbSys.Guarded (SbSys.start bytes sb₀) ops)
    (hrun : run SbSys.step (SbSys.start bytes sb₀) ops = some s) {file : Copy → List UInt8}
    (hfile : ∀ c, (s.copy c).Survives (file c)) :
    ∃ sb active old, read_with_offset file = .ok (sb, active, old) ∧ sb ∈ s.candidates := by
  obtain ⟨x, v, ha, -⟩ := run_invariant_of_allSteps SbSys.Guarded SbSys.Inv
    (fun _ _ _ h hg hst => h.step hg hst) (SbSys.start_inv hvalid) hguard hrun
  have hcrash := ha.crash hfile
  obtain ⟨w, c, old, hread, hanchor⟩ := hcrash.active
  exact ⟨w, c, old, hread, (hanchor rfl).mem⟩

/-! ### Two runs -/

/-- A superblock that differs from another by its checkpoint only. -/
def Superblock.checkpointed (lsn : Lsn) : Superblock := ⟨SUPERBLOCK_VERSION, 8192, lsn, 1, 1, 16384, 0⟩

theorem Superblock.inRange_checkpointed {lsn : Lsn} (h : lsn < 256 ^ 8) :
    (checkpointed lsn).InRange :=
  ⟨rfl, by norm_num [checkpointed], h, by norm_num [checkpointed], by norm_num [checkpointed],
    by norm_num [checkpointed], by norm_num [checkpointed]⟩

/-- A write between calls, over two copies in the current format. -/
theorem SbSys.step_write {s : SbSys} {a b sb : Superblock} (hidle : s.pc = .idle)
    (ha : s.now .A = a.encode) (hb : s.now .B = b.encode) (har : a.InRange) (hbr : b.InRange)
    (hr : sb.InRange) (hlt : max a.checkpoint_lsn b.checkpoint_lsn < sb.checkpoint_lsn) :
    s.step (.write sb) = some { s with
      pc := .writing [if b.checkpoint_lsn > a.checkpoint_lsn then .A else .B] sb false
      candidates := sb :: s.candidates } := by
  have hread : read_with_offset s.now =
      if b.checkpoint_lsn > a.checkpoint_lsn then .ok (b, .B, false) else .ok (a, .A, false) := by
    unfold read_with_offset
    rw [ha, hb, Superblock.decode_encode har, Superblock.decode_encode hbr]
    rfl
  unfold SbSys.step begin_write
  simp only [hidle, hr, and_self, if_true, hread]
  by_cases h : b.checkpoint_lsn > a.checkpoint_lsn
  · simp only [if_pos h]
    rw [if_neg (not_le.mpr (lt_of_le_of_lt (le_max_right _ _) hlt))]
    rfl
  · simp only [if_neg h]
    rw [if_neg (not_le.mpr (lt_of_le_of_lt (le_max_left _ _) hlt))]
    rfl

/-- A file of zeros does not decode. -/
theorem torn_zeros : TornCopy (List.replicate 512 0) := by decide +kernel

section Runs

open Superblock

/-- The file after the first write of a run that starts from checkpoint 8, before its
sync. -/
def SbSys.first_write : SbSys :=
  ⟨update (fun _ => .durable (checkpointed 8).encode) .B
    ((CopyState.durable (checkpointed 8).encode).write (checkpointed 16).encode),
    .writing [] (checkpointed 16) false, [checkpointed 16, checkpointed 8]⟩

theorem run_first_write : run SbSys.step (SbSys.start (checkpointed 8).encode (checkpointed 8))
      [.write (checkpointed 16), .io_write] = some SbSys.first_write := by
  have hr : ∀ {lsn : Lsn}, lsn < 256 ^ 8 → (checkpointed lsn).InRange := inRange_checkpointed
  rw [run_cons, SbSys.step_write rfl rfl rfl (hr (by decide)) (hr (by decide)) (hr (by decide))
    (by decide)]
  rfl

theorem first_write_now : SbSys.first_write.now .A = (checkpointed 8).encode ∧
    SbSys.first_write.now .B = (checkpointed 16).encode := by
  unfold SbSys.now SbSys.first_write
  simp only
  rw [update_of_ne (by decide), update_self]
  exact ⟨rfl, rfl⟩

/-- The first write's sync fails. The second write takes the unsynced copy for the
active one and goes over the only durable copy; a crash before its sync tears both. -/
theorem superblock_lost_after_failed_sync :
    ∃ s file, decode (checkpointed 8).encode = .ok (checkpointed 8, false) ∧
      run SbSys.step (SbSys.start (checkpointed 8).encode (checkpointed 8))
        [.write (checkpointed 16), .io_write, .io_sync_fails, .write (checkpointed 24), .io_write]
          = some s ∧
      (∀ c, (s.copy c).Survives (file c)) ∧ ∃ e, read_with_offset file = .error e := by
  have hr : ∀ {lsn : Lsn}, lsn < 256 ^ 8 → (checkpointed lsn).InRange := inRange_checkpointed
  refine ⟨⟨update SbSys.first_write.copy .A
      ((SbSys.first_write.copy .A).write (checkpointed 24).encode),
      .writing [] (checkpointed 24) false, [checkpointed 24, checkpointed 16, checkpointed 8]⟩,
    fun _ => List.replicate 512 0, decode_encode (hr (by decide)), ?_, ?_, ?_⟩
  · rw [show ([.write (checkpointed 16), .io_write, .io_sync_fails, .write (checkpointed 24), .io_write]
        : List SbOp) = [.write (checkpointed 16), .io_write] ++
          [.io_sync_fails, .write (checkpointed 24), .io_write] from rfl, run_append, run_first_write,
      Option.bind_some, run_cons]
    have hfail : SbSys.first_write.step .io_sync_fails =
        some { SbSys.first_write with pc := .idle } := rfl
    rw [hfail, Option.bind_some, run_cons, @SbSys.step_write { SbSys.first_write with pc := .idle }
      (checkpointed 8) (checkpointed 16) (checkpointed 24) rfl first_write_now.1 first_write_now.2
      (hr (by decide)) (hr (by decide)) (hr (by decide)) (by decide)]
    rfl
  · intro c
    refine .inr (.inr ⟨?_, torn_zeros⟩)
    cases c with
    | A => exact List.cons_ne_nil _ _
    | B => exact List.cons_ne_nil _ _
  · exact read_with_offset_of_torn fun _ => torn_zeros

/-- A crash in the middle of the first write, with the copy being written torn. -/
theorem superblock_survives_crash_torn_write : ∃ sb active old, read_with_offset
        (update (fun _ => (checkpointed 8).encode) Copy.B (List.replicate 512 0)) =
        .ok (sb, active, old) ∧ sb ∈ [checkpointed 16, checkpointed 8] := by
  have hr : ∀ {lsn : Lsn}, lsn < 256 ^ 8 → (checkpointed lsn).InRange := inRange_checkpointed
  refine @superblock_survives_crash _ _ _ (decode_encode (hr (by decide)))
    [.write (checkpointed 16), .io_write] SbSys.first_write ?_ run_first_write _ ?_
  · refine ⟨?_, fun t _ => ⟨trivial, fun _ _ => trivial⟩⟩
    intro r _
    rfl
  · intro c
    cases c with
    | A => exact .inl rfl
    | B => exact .inr (.inr ⟨List.cons_ne_nil _ _, torn_zeros⟩)

end Runs

end Ams
