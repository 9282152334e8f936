/-
A WAL record and its bytes: `pg-storage/src/wal/record.rs`.

A record is a 32-byte header, the payload and zero padding to a multiple of 8. The
checksum covers everything but itself, and `decode` checks it before it looks at the
record type, so a record whose bytes are not the ones that were written is reported
as `WalCorrupted` whatever they are. That is what the reader's end-of-log test goes
by, and why the checksum function itself is never needed below: it enters through
`decode_encode` (a record survives its bytes) and through `intact`, the test alone.

The payloads of the record types are opaque bytes here.
-/
import Ams.Types
import Ams.Lib.Bytes

set_option autoImplicit false

namespace Ams

open Ams.Lib

/-- The errors of the storage layer. -/
inductive StorageError where
  | Io (msg : String)
  | PageNotFound (page_id : PageId)
  | BufferPoolFull
  | WalCorrupted (lsn : Lsn)
  | WalWriteFailed (msg : String)
  | WalReadFailed (msg : String)
  | CheckpointFailed (msg : String)
  | MetadataCorrupted (msg : String)
  | LsnNotAvailable (lsn : Lsn)
  | InvalidConfig (msg : String)
  | Serialize (msg : String)
deriving DecidableEq, Repr

/-- The texts of `#[error]`. -/
def StorageError.display : StorageError → String
  | .Io msg => s!"I/O error: {msg}"
  | .PageNotFound page_id => s!"page {page_id} not found"
  | .BufferPoolFull => "buffer pool full, no evictable frame"
  | .WalCorrupted lsn => s!"WAL corrupted at Lsn({lsn})"
  | .WalWriteFailed msg => s!"WAL write failed: {msg}"
  | .WalReadFailed msg => s!"WAL read failed: {msg}"
  | .CheckpointFailed msg => s!"checkpoint failed: {msg}"
  | .MetadataCorrupted msg => s!"metadata corrupted: {msg}"
  | .LsnNotAvailable lsn => s!"LSN Lsn({lsn}) not available"
  | .InvalidConfig msg => s!"invalid configuration: {msg}"
  | .Serialize msg => s!"serialization error: {msg}"

/-- `Lsn::INVALID`. -/
abbrev Lsn.INVALID : Lsn := 0

/-- `Lsn::FIRST`. -/
abbrev Lsn.FIRST : Lsn := 8

/-- `align_up(n, 8)`. -/
def align_up (n : ℕ) : ℕ := (n + 7) / 8 * 8

theorem align_up_dvd (n : ℕ) : 8 ∣ align_up n := Dvd.intro_left _ rfl

theorem le_align_up (n : ℕ) : n ≤ align_up n := by
  unfold align_up
  omega

/-! ## Record types -/

inductive WalRecordType where
  | HeapInsert | HeapUpdate | HeapDelete | BTreeInsert | BTreeSplitPrepare | BTreeDelete
  | HeapHotUpdate | HeapCleanup | FullPageImage | TxnBegin | TxnCommit | TxnAbort
  | CheckpointBegin | CheckpointEnd | PageAlloc | PageFree | BTreeSplitCLR | BTreeSplitCopy
  | BTreeSplitCommit | LogicalHnsw | LogicalInverted | LogicalGraph | LogicalTimeSeries
  | SegmentSeal | SegmentMerge | HnswNodeInit | HnswSetNeighbors | HnswMetaUpdate
  | HnswNodeTombstone | HnswDirAppend | HnswDirLink | HnswPublishLive
deriving DecidableEq, Repr

namespace WalRecordType

/-- The on-disk discriminants. -/
def to_u8 : WalRecordType → UInt8
  | .HeapInsert => 1 | .HeapUpdate => 2 | .HeapDelete => 3 | .BTreeInsert => 4
  | .BTreeSplitPrepare => 5 | .BTreeDelete => 6 | .HeapHotUpdate => 7 | .HeapCleanup => 8
  | .FullPageImage => 10 | .TxnBegin => 20 | .TxnCommit => 21 | .TxnAbort => 22
  | .CheckpointBegin => 30 | .CheckpointEnd => 31 | .PageAlloc => 40 | .PageFree => 41
  | .BTreeSplitCLR => 50 | .BTreeSplitCopy => 51 | .BTreeSplitCommit => 52
  | .LogicalHnsw => 100 | .LogicalInverted => 101 | .LogicalGraph => 102
  | .LogicalTimeSeries => 103 | .SegmentSeal => 110 | .SegmentMerge => 111
  | .HnswNodeInit => 121 | .HnswSetNeighbors => 122 | .HnswMetaUpdate => 123
  | .HnswNodeTombstone => 124 | .HnswDirAppend => 125 | .HnswDirLink => 126
  | .HnswPublishLive => 127

def from_u8 (v : UInt8) : Except StorageError WalRecordType :=
  match v.toNat with
  | 1 => .ok .HeapInsert | 2 => .ok .HeapUpdate | 3 => .ok .HeapDelete | 4 => .ok .BTreeInsert
  | 5 => .ok .BTreeSplitPrepare | 6 => .ok .BTreeDelete | 7 => .ok .HeapHotUpdate
  | 8 => .ok .HeapCleanup | 10 => .ok .FullPageImage | 20 => .ok .TxnBegin
  | 21 => .ok .TxnCommit | 22 => .ok .TxnAbort | 30 => .ok .CheckpointBegin
  | 31 => .ok .CheckpointEnd | 40 => .ok .PageAlloc | 41 => .ok .PageFree
  | 50 => .ok .BTreeSplitCLR | 51 => .ok .BTreeSplitCopy | 52 => .ok .BTreeSplitCommit
  | 100 => .ok .LogicalHnsw | 101 => .ok .LogicalInverted | 102 => .ok .LogicalGraph
  | 103 => .ok .LogicalTimeSeries | 110 => .ok .SegmentSeal | 111 => .ok .SegmentMerge
  | 121 => .ok .HnswNodeInit | 122 => .ok .HnswSetNeighbors | 123 => .ok .HnswMetaUpdate
  | 124 => .ok .HnswNodeTombstone | 125 => .ok .HnswDirAppend | 126 => .ok .HnswDirLink
  | 127 => .ok .HnswPublishLive
  | n => .error (.WalReadFailed s!"unknown WAL record type discriminant {n}")

theorem from_u8_to_u8 (t : WalRecordType) : from_u8 t.to_u8 = .ok t := by
  cases t <;> rfl

end WalRecordType

/-! ## The checksum -/

/-- One bit of the reflected CRC-32. -/
def crc32_bit (crc : BitVec 32) : BitVec 32 :=
  if crc &&& 1#32 = 1#32 then (crc >>> 1) ^^^ 0xEDB88320#32 else crc >>> 1

def crc32_byte (crc : BitVec 32) (b : UInt8) : BitVec 32 :=
  (List.range 8).foldl (fun crc _ => crc32_bit crc) (crc ^^^ BitVec.ofNat 32 b.toNat)

/-- `crc32fast::Hasher` over the bytes. -/
def crc32 (bs : List UInt8) : BitVec 32 :=
  bs.foldl crc32_byte 0xFFFFFFFF#32 ^^^ 0xFFFFFFFF#32

/-! ## Records -/

abbrev WAL_RECORD_HEADER_SIZE : ℕ := 32

structure WalRecord where
  lsn : Lsn
  prev_lsn : Lsn
  txn_id : TxnId
  record_type : WalRecordType
  flags : UInt8
  payload : List UInt8
deriving DecidableEq, Repr

namespace WalRecord

/-- The fields fit their widths. -/
structure InRange (r : WalRecord) : Prop where
  lsn : r.lsn < 256 ^ 8
  prev_lsn : r.prev_lsn < 256 ^ 8
  txn_id : r.txn_id < 256 ^ 8
  payload : r.payload.length ≤ 65535

def record_size (r : WalRecord) : ℕ := align_up (WAL_RECORD_HEADER_SIZE + r.payload.length)

/-- The header up to the checksum. -/
def fields (r : WalRecord) : List (List UInt8) :=
  [leBytes 8 r.lsn, leBytes 8 r.prev_lsn, leBytes 8 r.txn_id,
   [r.record_type.to_u8], [r.flags], leBytes 2 r.payload.length]

/-- The payload with its padding. -/
def body (r : WalRecord) : List UInt8 :=
  r.payload ++ List.replicate (r.record_size - WAL_RECORD_HEADER_SIZE - r.payload.length) 0

/-- The serialized record, for a payload that `encode` accepts. -/
def bytes (r : WalRecord) : List UInt8 :=
  r.fields.flatten ++ leBytes 4 (crc32 (r.fields.flatten ++ r.body)).toNat ++ r.body

def encode (r : WalRecord) : Except StorageError (List UInt8) :=
  if r.payload.length > 65535 then
    .error (.WalWriteFailed
      s!"payload length {r.payload.length} exceeds maximum 65535")
  else .ok r.bytes

end WalRecord

/-- The bytes `[off, off + w)`, as a number. -/
def wal_le (buf : List UInt8) (off w : ℕ) : ℕ := ofLe ((buf.drop off).take w)

/-- The size a header claims for its record. -/
def claimed_size (buf : List UInt8) : ℕ := align_up (WAL_RECORD_HEADER_SIZE + wal_le buf 26 2)

/-- The checksum test of `decode`, over the first `total` bytes. -/
def intact (buf : List UInt8) (total : ℕ) : Bool :=
  (crc32 (buf.take 28 ++ (buf.take total).drop 32)).toNat == wal_le buf 28 4

def WalRecord.decode (buf : List UInt8) : Except StorageError (WalRecord × ℕ) :=
  if buf.length < WAL_RECORD_HEADER_SIZE then .error (.WalCorrupted Lsn.INVALID)
  else
    let lsn := wal_le buf 0 8
    let payload_len := wal_le buf 26 2
    let total := claimed_size buf
    if buf.length < total then .error (.WalCorrupted lsn)
    else if intact buf total then
      match WalRecordType.from_u8 (buf.getD 24 0) with
      | .error e => .error e
      | .ok record_type =>
        .ok (⟨lsn, wal_le buf 8 8, wal_le buf 16 8, record_type, buf.getD 25 0,
          (buf.drop 32).take payload_len⟩, total)
    else .error (.WalCorrupted lsn)

namespace WalRecord

variable {r : WalRecord}

theorem length_fields (r : WalRecord) : r.fields.flatten.length = 28 := by
  simp [fields, List.flatten]

theorem record_size_eq (r : WalRecord) : r.record_size = (32 + r.payload.length + 7) / 8 * 8 := rfl

theorem length_body (r : WalRecord) : r.body.length + 32 = r.record_size := by
  have h := r.record_size_eq
  have hbody : r.body.length = r.payload.length + (r.record_size - 32 - r.payload.length) := by
    rw [body, List.length_append, List.length_replicate]
  omega

@[simp] theorem length_bytes (r : WalRecord) : r.bytes.length = r.record_size := by
  have h := r.length_body
  rw [bytes, List.length_append, List.length_append, length_fields, length_leBytes]
  omega

theorem record_size_dvd (r : WalRecord) : 8 ∣ r.record_size := align_up_dvd _

theorem le_record_size (r : WalRecord) : 32 ≤ r.record_size := by
  have h := r.record_size_eq
  omega

theorem record_size_le (h : r.payload.length ≤ 65535) : r.record_size ≤ 65568 := by
  have h' := r.record_size_eq
  omega

/-- A field of the header, read back. -/
theorem take_drop_bytes (r : WalRecord) (rest : List UInt8) {k off w : ℕ} {f : List UInt8}
    (hk : r.fields[k]? = some f) (hoff : ((r.fields.take k).map List.length).sum = off)
    (hw : f.length = w) : ((r.bytes ++ rest).drop off).take w = f := by
  rw [bytes, List.append_assoc, List.append_assoc]
  exact take_drop_flatten hk hoff hw

theorem wal_le_bytes (r : WalRecord) (rest : List UInt8) {k off w v : ℕ}
    (hk : r.fields[k]? = some (leBytes w v)) (hoff : ((r.fields.take k).map List.length).sum = off)
    (hv : v < 256 ^ w) : wal_le (r.bytes ++ rest) off w = v := by
  rw [wal_le, r.take_drop_bytes rest hk hoff (length_leBytes w v), ofLe_leBytes_of_lt hv]

theorem wal_le_lsn (r : WalRecord) (rest : List UInt8) (h : r.lsn < 256 ^ 8) :
    wal_le (r.bytes ++ rest) 0 8 = r.lsn :=
  r.wal_le_bytes rest (k := 0) rfl rfl h

theorem wal_le_payload_len (r : WalRecord) (rest : List UInt8) (h : r.payload.length ≤ 65535) :
    wal_le (r.bytes ++ rest) 26 2 = r.payload.length :=
  r.wal_le_bytes rest (k := 5) rfl (by simp [fields]) (by omega)

theorem claimed_size_bytes (r : WalRecord) (rest : List UInt8) (h : r.payload.length ≤ 65535) :
    claimed_size (r.bytes ++ rest) = r.record_size := by
  rw [claimed_size, r.wal_le_payload_len rest h, record_size]

/-- The bytes after the header. -/
theorem drop_bytes (r : WalRecord) : r.bytes.drop 32 = r.body := by
  rw [bytes]
  apply List.drop_left'
  rw [List.length_append, length_fields, length_leBytes]

theorem intact_bytes (r : WalRecord) : intact r.bytes r.record_size = true := by
  have htake : r.bytes.take 28 = r.fields.flatten := by
    rw [bytes, List.append_assoc]
    exact List.take_left' r.length_fields
  have hcrc : wal_le r.bytes 28 4 = (crc32 (r.fields.flatten ++ r.body)).toNat := by
    rw [wal_le, bytes, List.append_assoc, List.drop_left' r.length_fields,
      List.take_left' (length_leBytes 4 _)]
    exact ofLe_leBytes_of_lt (BitVec.isLt _)
  have hall : r.bytes.take r.record_size = r.bytes := by
    rw [← length_bytes, List.take_length]
  rw [intact, htake, hall, drop_bytes, hcrc, beq_self_eq_true]

/-- The byte at an offset of the header. -/
theorem getD_bytes (r : WalRecord) {k off : ℕ} {b : UInt8} (hk : r.fields[k]? = some [b])
    (hoff : ((r.fields.take k).map List.length).sum = off) : r.bytes.getD off 0 = b := by
  have h := r.take_drop_bytes [] hk hoff (w := 1) rfl
  rw [List.append_nil] at h
  have hhead : (r.bytes.drop off).head? = some b := by
    have htake : ((r.bytes.drop off).take 1).head? = (r.bytes.drop off).head? := List.head?_take
    rw [← htake, h]
    rfl
  rw [List.head?_drop] at hhead
  rw [List.getD_eq_getElem?_getD, hhead]
  rfl

/-- **A record survives its bytes.** -/
theorem decode_encode (hr : r.InRange) : decode r.bytes = .ok (r, r.record_size) := by
  have hlen := r.wal_le_payload_len [] hr.payload
  have hclaim := r.claimed_size_bytes [] hr.payload
  have hlsn := r.wal_le_lsn [] hr.lsn
  have hprev : wal_le (r.bytes ++ []) 8 8 = r.prev_lsn :=
    r.wal_le_bytes [] (k := 1) rfl (by simp [fields]) hr.prev_lsn
  have htxn : wal_le (r.bytes ++ []) 16 8 = r.txn_id :=
    r.wal_le_bytes [] (k := 2) rfl (by simp [fields]) hr.txn_id
  simp only [List.append_nil] at hlen hclaim hlsn hprev htxn
  have hbody : (r.bytes.drop 32).take r.payload.length = r.payload := by
    rw [drop_bytes, body]
    exact List.take_left' rfl
  unfold decode
  rw [if_neg (by rw [length_bytes]; exact not_lt.mpr r.le_record_size)]
  simp only [hclaim, hlen, length_bytes, lt_irrefl, if_false, intact_bytes, if_true, hbody]
  rw [r.getD_bytes (k := 3) rfl (by simp [fields]), r.getD_bytes (k := 4) rfl (by simp [fields]),
    WalRecordType.from_u8_to_u8, hlsn, hprev, htxn]

end WalRecord

/-- A failed checksum is `WalCorrupted`, whatever else the bytes hold. -/
theorem WalRecord.decode_of_not_intact {buf : List UInt8}
    (h : intact buf (claimed_size buf) = false) : ∃ lsn, decode buf = .error (.WalCorrupted lsn) := by
  unfold decode
  split_ifs with hshort
  · exact ⟨_, rfl⟩
  · simp only [h, Bool.false_eq_true, if_false]
    split_ifs
    · exact ⟨_, rfl⟩
    · exact ⟨_, rfl⟩

end Ams
