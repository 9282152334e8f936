/-
The tuple codec: `pg-am-heap/src/tuple.rs` with the TOAST pointers of
`pg-am-heap/src/toast.rs`.

Values are laid out one after the other with no per-column offsets, so decoding
finds column `i` only if it reads every earlier column with exactly the width the
encoder gave it. The round trip is therefore an induction over the columns whose
invariant is a split of the byte string: what has been read, the encoding of the
columns still to come, and the tail. The null bitmap, the alignment of `t_hoff`,
the column count and the NodeId flag are facts about the header that the induction
starts and ends with.

Signed integers and `f32` components are bit vectors: both are written and read
as their little-endian bit patterns. `Uuid` is its sixteen bytes. Text goes
through UTF-8, validated on the way back. The `Debug` rendering of a datum in one
error message is left out of that message.
-/
import Ams.TupleHeader
import Ams.Lib.Bytes

set_option autoImplicit false

namespace Ams

open Ams.Lib
open List (append_assoc length_append length_replicate)

/-! ## Header bytes -/

/-- `{:#0w$x}`: at least `digits` hexadecimal digits after `0x`. -/
def hex (digits n : ℕ) : String :=
  let ds := Nat.toDigits 16 n
  String.ofList ('0' :: 'x' :: (List.replicate (digits - ds.length) '0' ++ ds))

/-- The bytes `[off, off + w)` of a byte string, as a number. -/
def le_at (bytes : List UInt8) (off w : ℕ) : ℕ := ofLe ((bytes.drop off).take w)

namespace TupleHeader

/-- The consecutive fields of the header; the seventh is the `t_ctid` pad. -/
def fields (h : TupleHeader) : List (List UInt8) :=
  [leBytes 8 h.t_xmin, leBytes 8 h.t_xmax, leBytes 8 h.t_agent_id, h.t_trace_id.toList,
    leBytes 8 h.t_ctid.page_id, leBytes 2 h.t_ctid.slot_id, leBytes 2 0,
    leBytes 2 h.t_infomask.toNat, leBytes 2 h.t_infomask2.toNat, leBytes 2 h.t_hoff,
    leBytes 2 h.t_flags.toNat, leBytes 4 h.t_cid]

/-- `TupleHeader::write_to`, into a fresh 64-byte buffer. -/
def write_to (h : TupleHeader) : List UInt8 := h.fields.flatten

def read_from (bytes : List UInt8) : Except HeapError TupleHeader :=
  let len := bytes.length
  if len < 64 then .error (.Corrupted s!"tuple shorter than header: {len} bytes")
  else
    let pad := le_at bytes 50 2
    let shown := hex 4 pad
    if pad ≠ 0 then .error (.Corrupted s!"t_ctid pad u16 must be 0, got {shown}")
    else .ok
      { t_xmin := le_at bytes 0 8
        t_xmax := le_at bytes 8 8
        t_agent_id := le_at bytes 16 8
        t_trace_id := Vector.ofFn fun i => bytes.getD (24 + i.val) 0
        t_ctid := ⟨le_at bytes 40 8, le_at bytes 48 2⟩
        t_infomask := BitVec.ofNat 16 (le_at bytes 52 2)
        t_infomask2 := BitVec.ofNat 16 (le_at bytes 54 2)
        t_hoff := le_at bytes 56 2
        t_flags := BitVec.ofNat 16 (le_at bytes 58 2)
        t_cid := le_at bytes 60 4 }

/-- The field widths of the source's struct: `u64`, `u16` and `u32`. -/
structure InRange (h : TupleHeader) : Prop where
  t_xmin : h.t_xmin < 256 ^ 8
  t_xmax : h.t_xmax < 256 ^ 8
  t_agent_id : h.t_agent_id < 256 ^ 8
  page_id : h.t_ctid.page_id < 256 ^ 8
  slot_id : h.t_ctid.slot_id < 256 ^ 2
  t_hoff : h.t_hoff < 256 ^ 2
  t_cid : h.t_cid < 256 ^ 4

@[simp] theorem length_write_to (h : TupleHeader) : h.write_to.length = 64 := by
  simp [write_to, fields]

/-- A header field is read back from its place among the fields. -/
theorem le_at_fields {h : TupleHeader} {rest : List UInt8} {k off w v : ℕ}
    (hk : h.fields[k]? = some (leBytes w v))
    (hoff : ((h.fields.take k).map List.length).sum = off) (hv : v < 256 ^ w) :
    le_at (h.write_to ++ rest) off w = v := by
  rw [le_at, write_to, take_drop_flatten hk hoff (length_leBytes w v), ofLe_leBytes_of_lt hv]

/-- **The header survives its bytes.** -/
theorem read_from_write_to {h : TupleHeader} (hr : h.InRange) (rest : List UInt8) :
    read_from (h.write_to ++ rest) = .ok h := by
  have hlen : ¬ (h.write_to ++ rest).length < 64 := by
    rw [length_append, length_write_to]; omega
  have hpad : le_at (h.write_to ++ rest) 50 2 = 0 :=
    le_at_fields (k := 6) rfl (by simp [fields]) (by decide)
  have hmask : ∀ b : BitVec 16, b.toNat < 256 ^ 2 := fun b => b.isLt
  have htrace : (Vector.ofFn fun i : Fin 16 => (h.write_to ++ rest).getD (24 + i.val) 0)
      = h.t_trace_id := by
    have hcut : ((h.write_to ++ rest).drop 24).take 16 = h.t_trace_id.toList :=
      @take_drop_flatten _ h.fields rest _ 3 _ _ rfl (by simp [fields]) (by simp)
    ext i hi
    have hget : (h.write_to ++ rest).getD (24 + i) 0
        = (((h.write_to ++ rest).drop 24).take 16).getD i 0 := by
      simp [List.getD_eq_getElem?_getD, hi]
    rw [Vector.getElem_ofFn, hget, hcut]
    simp [List.getD_eq_getElem?_getD, hi]
  unfold read_from
  simp only
  rw [if_neg hlen, if_neg (not_not.mpr hpad), htrace,
    le_at_fields (k := 0) rfl (by simp [fields]) hr.t_xmin,
    le_at_fields (k := 1) rfl (by simp [fields]) hr.t_xmax,
    le_at_fields (k := 2) rfl (by simp [fields]) hr.t_agent_id,
    le_at_fields (k := 4) rfl (by simp [fields]) hr.page_id,
    le_at_fields (k := 5) rfl (by simp [fields]) hr.slot_id,
    le_at_fields (k := 7) rfl (by simp [fields]) (hmask h.t_infomask),
    le_at_fields (k := 8) rfl (by simp [fields]) (hmask h.t_infomask2),
    le_at_fields (k := 9) rfl (by simp [fields]) hr.t_hoff,
    le_at_fields (k := 10) rfl (by simp [fields]) (hmask h.t_flags),
    le_at_fields (k := 11) rfl (by simp [fields]) hr.t_cid]
  simp

end TupleHeader

/-! ## TOAST pointers -/

abbrev TOAST_POINTER_SIZE : ℕ := 20

/-- The high two bits `01` of a varlena header. -/
abbrev VARLENA_EXTERNAL_FLAG : ℕ := 0x40000000

abbrev VARLENA_TAG_MASK : ℕ := 0xC0000000

abbrev VARLENA_LEN_MASK : ℕ := 0x3FFFFFFF

/-- Does a varlena header mark the attribute as external? -/
def is_external (vl_len : ℕ) : Bool := decide (vl_len &&& VARLENA_TAG_MASK = VARLENA_EXTERNAL_FLAG)

structure ToastPointer where
  va_rawsize : BitVec 32
  va_extsize : BitVec 32
  va_valueid : BitVec 32
  va_toastrelid : BitVec 32
deriving DecidableEq, Repr

namespace ToastPointer

def fields (p : ToastPointer) : List (List UInt8) :=
  [leBytes 4 (TOAST_POINTER_SIZE ||| VARLENA_EXTERNAL_FLAG), leBytes 4 p.va_rawsize.toNat,
    leBytes 4 p.va_extsize.toNat, leBytes 4 p.va_valueid.toNat, leBytes 4 p.va_toastrelid.toNat]

def encode (p : ToastPointer) : List UInt8 := p.fields.flatten

def decode (bytes : List UInt8) : Except HeapError ToastPointer :=
  let len := bytes.length
  if len ≠ TOAST_POINTER_SIZE then
    .error (.Corrupted s!"TOAST pointer must be 20 bytes, got {len}")
  else
    let vl_len := le_at bytes 0 4
    let tag := hex 8 vl_len
    let field := hex 8 (vl_len &&& VARLENA_LEN_MASK)
    if !is_external vl_len then
      .error (.Corrupted s!"TOAST pointer missing external tag: vl_len_ = {tag}")
    else if vl_len &&& VARLENA_LEN_MASK ≠ TOAST_POINTER_SIZE then
      .error (.Corrupted s!"TOAST pointer length mismatch: vl_len_ = {field}")
    else .ok
      { va_rawsize := BitVec.ofNat 32 (le_at bytes 4 4)
        va_extsize := BitVec.ofNat 32 (le_at bytes 8 4)
        va_valueid := BitVec.ofNat 32 (le_at bytes 12 4)
        va_toastrelid := BitVec.ofNat 32 (le_at bytes 16 4) }

@[simp] theorem length_encode (p : ToastPointer) : p.encode.length = 20 := by
  simp [encode, fields]

theorem le_at_fields {p : ToastPointer} {rest : List UInt8} {k off v : ℕ}
    (hk : p.fields[k]? = some (leBytes 4 v))
    (hoff : ((p.fields.take k).map List.length).sum = off) (hv : v < 256 ^ 4) :
    le_at (p.encode ++ rest) off 4 = v := by
  rw [le_at, encode, take_drop_flatten hk hoff (length_leBytes 4 v), ofLe_leBytes_of_lt hv]

theorem le_at_tag (p : ToastPointer) (rest : List UInt8) :
    le_at (p.encode ++ rest) 0 4 = TOAST_POINTER_SIZE ||| VARLENA_EXTERNAL_FLAG :=
  le_at_fields (k := 0) rfl rfl (by decide)

/-- A pointer survives its bytes. -/
theorem decode_encode (p : ToastPointer) : decode p.encode = .ok p := by
  have h := fun {k off v} => @le_at_fields p [] k off v
  have htag := p.le_at_tag []
  simp only [List.append_nil] at h htag
  have hbits : ∀ b : BitVec 32, b.toNat < 256 ^ 4 := fun b => b.isLt
  have hext : is_external (TOAST_POINTER_SIZE ||| VARLENA_EXTERNAL_FLAG) = true := by decide
  have hmask : (TOAST_POINTER_SIZE ||| VARLENA_EXTERNAL_FLAG) &&& VARLENA_LEN_MASK
      = TOAST_POINTER_SIZE := by decide
  unfold decode
  simp only [length_encode, htag, hext, hmask, ne_eq, not_true_eq_false, if_false, Bool.not_true,
    Bool.false_eq_true]
  rw [h (k := 1) rfl (by simp [fields]) (hbits p.va_rawsize),
    h (k := 2) rfl (by simp [fields]) (hbits p.va_extsize),
    h (k := 3) rfl (by simp [fields]) (hbits p.va_valueid),
    h (k := 4) rfl (by simp [fields]) (hbits p.va_toastrelid)]
  simp

end ToastPointer

/-! ## Columns and values -/

abbrev MAX_NATTS : ℕ := 2047

abbrev MAX_VECTOR_DIM : ℕ := 2000

inductive ColumnType where
  | Int4
  | Int8
  | Timestamptz
  | Uuid
  | Text
  | Bytea
  | Vector (dim : ℕ)
deriving DecidableEq, Repr

/-- A column value. `External` stands in for either varlena type. -/
inductive Datum where
  | Int4 (v : BitVec 32)
  | Int8 (v : BitVec 64)
  | Timestamptz (v : BitVec 64)
  | Uuid (v : Vector UInt8 16)
  | Text (v : String)
  | Bytea (v : List UInt8)
  | Vector (v : List (BitVec 32))
  | External (ptr : ToastPointer)
deriving DecidableEq

namespace ColumnType

def fixed_width : ColumnType → Option ℕ
  | .Int4 => some 4
  | .Int8 => some 8
  | .Timestamptz => some 8
  | .Uuid => some 16
  | .Text => none
  | .Bytea => none
  | .Vector dim => some (dim * 4)

/-- The derived `Debug` text. -/
def debug : ColumnType → String
  | .Int4 => "Int4"
  | .Int8 => "Int8"
  | .Timestamptz => "Timestamptz"
  | .Uuid => "Uuid"
  | .Text => "Text"
  | .Bytea => "Bytea"
  | .Vector dim => s!"Vector({dim})"

end ColumnType

def check_vector_dim (dim : ℕ) : Except HeapError Unit :=
  if ¬ (1 ≤ dim ∧ dim ≤ MAX_VECTOR_DIM) then
    .error (.InvalidArgument s!"vector dimension {dim} out of range 1..={MAX_VECTOR_DIM}")
  else .ok ()

/-- A vector column carries its own validity domain. -/
def ColumnType.check_dim : ColumnType → Except HeapError Unit
  | .Vector dim => check_vector_dim dim
  | _ => .ok ()

namespace Datum

def column_type : Datum → ColumnType
  | .Int4 _ => .Int4
  | .Int8 _ => .Int8
  | .Timestamptz _ => .Timestamptz
  | .Uuid _ => .Uuid
  | .Text _ => .Text
  | .Bytea _ => .Bytea
  | .Vector v => .Vector (v.length % 2 ^ 32)
  | .External _ => .Bytea

/-- May this datum be stored in a column of type `col`? -/
def matches_column (col : ColumnType) : Datum → Bool
  | .External _ => col.fixed_width.isNone
  | .Vector v =>
    match col with
    | .Vector dim => decide (v.length = dim)
    | col => decide (col = column_type (.Vector v))
  | datum => decide (col = datum.column_type)

def is_external : Datum → Bool
  | .External _ => true
  | _ => false

/-- The bytes of a string. -/
def utf8 (s : String) : List UInt8 := s.toByteArray.data.toList

/-- `write_inline_varlena`: a total length, then the payload. -/
def inline_varlena (payload : List UInt8) : Except HeapError (List UInt8) :=
  let len := payload.length
  if len + 4 > VARLENA_LEN_MASK then
    .error (.InvalidArgument s!"varlena payload too large: {len} bytes")
  else .ok (leBytes 4 (len + 4) ++ payload)

def encode : Datum → Except HeapError (List UInt8)
  | .Int4 v => .ok (leBytes 4 v.toNat)
  | .Int8 v => .ok (leBytes 8 v.toNat)
  | .Timestamptz v => .ok (leBytes 8 v.toNat)
  | .Uuid v => .ok v.toList
  | .Text s => inline_varlena (utf8 s)
  | .Bytea b => inline_varlena b
  | .Vector v => .ok (v.flatMap fun x => leBytes 4 x.toNat)
  | .External ptr => .ok ptr.encode

end Datum

/-! ## Encoding -/

/-- What the first pass over the columns finds out. -/
structure TupleShape where
  has_null : Bool
  has_varwidth : Bool
  has_external : Bool
deriving DecidableEq, Repr

/-- The validation pass: every vector column has a legal dimension and every datum
fits its column. -/
def scan_columns : TupleShape → List ColumnType → List (Option Datum) →
    Except HeapError TupleShape
  | shape, col :: columns, val :: values =>
    match col.check_dim with
    | .error e => .error e
    | .ok () =>
      match val with
      | none => scan_columns { shape with has_null := true } columns values
      | some datum =>
        if !datum.matches_column col then
          let c := col.debug
          .error (.InvalidArgument s!"datum does not match column type {c}")
        else
          scan_columns
            { shape with
              has_varwidth := shape.has_varwidth || col.fixed_width.isNone
              has_external := shape.has_external || datum.is_external } columns values
  | shape, _, _ => .ok shape

/-- Bytes of null bitmap for `natts` columns. -/
def bitmap_len (has_null : Bool) (natts : ℕ) : ℕ := if has_null then (natts + 7) / 8 else 0

/-- Start of the attribute data: header and bitmap, rounded up to 8. -/
def data_offset (has_null : Bool) (natts : ℕ) : ℕ := (64 + bitmap_len has_null natts + 7) / 8 * 8

/-- Set the bits of the null columns, starting at column `i`. -/
def set_null_bits : ℕ → List (Option Datum) → List UInt8 → List UInt8
  | _, [], bitmap => bitmap
  | i, val :: values, bitmap =>
    let bitmap := if val.isNone then bitmap.modify (i / 8) (· ||| UInt8.ofNat (1 <<< (i % 8)))
      else bitmap
    set_null_bits (i + 1) values bitmap

/-- The present values, one after the other. -/
def encode_values : List (Option Datum) → Except HeapError (List UInt8)
  | [] => .ok []
  | none :: values => encode_values values
  | some datum :: values =>
    match datum.encode with
    | .error e => .error e
    | .ok bytes =>
      match encode_values values with
      | .error e => .error e
      | .ok rest => .ok (bytes ++ rest)

/-- The header with its structural bits recomputed; the caller's other bits stay. -/
def structural_header (header : TupleHeader) (shape : TupleShape) (natts : ℕ)
    (has_nodeid : Bool) : TupleHeader :=
  { header with
    t_infomask :=
      (header.t_infomask &&& ~~~(HEAP_HASNULL ||| HEAP_HASVARWIDTH ||| HEAP_HASEXTERNAL))
        ||| (if shape.has_null then HEAP_HASNULL else 0#16)
        ||| (if shape.has_varwidth then HEAP_HASVARWIDTH else 0#16)
        ||| (if shape.has_external then HEAP_HASEXTERNAL else 0#16)
    t_infomask2 :=
      (((header.t_infomask2 &&& ~~~HEAP_NATTS_MASK) ||| BitVec.ofNat 16 natts)
        &&& ~~~HEAP_HAS_NODEID) ||| (if has_nodeid then HEAP_HAS_NODEID else 0#16)
    t_hoff := data_offset shape.has_null natts
    t_flags := (header.t_flags &&& ~~~TUPLE_VERSION_MASK) ||| TUPLE_VERSION_M2 }

/-- The bytes between the fixed header and the attribute data. -/
def bitmap_area (shape : TupleShape) (values : List (Option Datum)) (natts : ℕ) : List UInt8 :=
  let bitmap := List.replicate (bitmap_len shape.has_null natts) 0
  let bitmap := if shape.has_null then set_null_bits 0 values bitmap else bitmap
  bitmap ++ List.replicate (data_offset shape.has_null natts - 64 - bitmap_len shape.has_null natts) 0

def encode_tuple_impl (header : TupleHeader) (columns : List ColumnType)
    (values : List (Option Datum)) (node_id : Option (BitVec 32)) :
    Except HeapError (List UInt8) :=
  let natts := columns.length
  let given := values.length
  if natts ≠ given then
    .error (.InvalidArgument s!"schema has {natts} columns but {given} values given")
  else if natts > MAX_NATTS then
    .error (.InvalidArgument s!"too many columns: {natts} > {MAX_NATTS}")
  else
    match scan_columns ⟨false, false, false⟩ columns values with
    | .error e => .error e
    | .ok shape =>
      match encode_values values with
      | .error e => .error e
      | .ok data =>
        .ok ((structural_header header shape natts node_id.isSome).write_to
          ++ bitmap_area shape values natts ++ data
          ++ (node_id.map fun id => leBytes 4 id.toNat).getD [])

def encode_tuple (header : TupleHeader) (columns : List ColumnType)
    (values : List (Option Datum)) : Except HeapError (List UInt8) :=
  encode_tuple_impl header columns values none

def encode_tuple_with_node_id (header : TupleHeader) (columns : List ColumnType)
    (values : List (Option Datum)) (node_id : BitVec 32) : Except HeapError (List UInt8) :=
  encode_tuple_impl header columns values (some node_id)

/-! ## Decoding -/

/-- Advance `pos` over the next `n` bytes. -/
def take (bytes : List UInt8) (pos n : ℕ) : Except HeapError (List UInt8 × ℕ) :=
  let len := bytes.length
  if pos + n > len then
    .error (.Corrupted s!"tuple truncated: need {n} bytes at {pos}, have {len}")
  else .ok ((bytes.drop pos).take n, pos + n)

/-- `field.chunks_exact(4)`, each chunk a component. -/
def vector_components : List UInt8 → List (BitVec 32)
  | a :: b :: c :: d :: rest => BitVec.ofNat 32 (ofLe [a, b, c, d]) :: vector_components rest
  | _ => []

/-- The inline or external value of a varlena column; `inline` reads the payload. -/
def decode_varlena (bytes : List UInt8) (pos : ℕ)
    (inline : List UInt8 → Except HeapError Datum) : Except HeapError (Datum × ℕ) :=
  match take bytes pos 4 with
  | .error e => .error e
  | .ok (tag, pos') =>
    let vl_len := ofLe tag
    if is_external vl_len then
      match take bytes (pos' - 4) TOAST_POINTER_SIZE with
      | .error e => .error e
      | .ok (raw, pos) =>
        match ToastPointer.decode raw with
        | .error e => .error e
        | .ok ptr => .ok (.External ptr, pos)
    else
      let total := vl_len &&& VARLENA_LEN_MASK
      if total < 4 then .error (.Corrupted s!"varlena total length {total} < header size")
      else
        match take bytes pos' (total - 4) with
        | .error e => .error e
        | .ok (payload, pos) =>
          match inline payload with
          | .error e => .error e
          | .ok datum => .ok (datum, pos)

/-- A fixed-width column: its bytes, read by `read`. -/
def decode_fixed (bytes : List UInt8) (pos width : ℕ) (read : List UInt8 → Datum) :
    Except HeapError (Datum × ℕ) :=
  match take bytes pos width with
  | .error e => .error e
  | .ok (field, pos) => .ok (read field, pos)

def decode_text (payload : List UInt8) : Except HeapError Datum :=
  match String.fromUTF8? payload.toByteArray with
  | some s => .ok (.Text s)
  | none => .error (.Corrupted "text column is not valid UTF-8")

def decode_datum (bytes : List UInt8) (pos : ℕ) : ColumnType → Except HeapError (Datum × ℕ)
  | .Int4 => decode_fixed bytes pos 4 fun f => .Int4 (BitVec.ofNat 32 (ofLe f))
  | .Int8 => decode_fixed bytes pos 8 fun f => .Int8 (BitVec.ofNat 64 (ofLe f))
  | .Timestamptz => decode_fixed bytes pos 8 fun f => .Timestamptz (BitVec.ofNat 64 (ofLe f))
  | .Uuid => decode_fixed bytes pos 16 fun f => .Uuid (Vector.ofFn fun i => f.getD i.val 0)
  | .Vector dim => decode_fixed bytes pos (dim * 4) fun f => .Vector (vector_components f)
  | .Text => decode_varlena bytes pos decode_text
  | .Bytea => decode_varlena bytes pos fun payload => .ok (.Bytea payload)

/-- The column loop of `decode_tuple`, from column `i` at position `pos`. -/
def decode_columns (bytes : List UInt8) (is_null : ℕ → Bool) :
    ℕ → ℕ → List ColumnType → Except HeapError (List (Option Datum) × ℕ)
  | _, pos, [] => .ok ([], pos)
  | i, pos, col :: columns =>
    if is_null i then
      match decode_columns bytes is_null (i + 1) pos columns with
      | .error e => .error e
      | .ok (values, pos) => .ok (none :: values, pos)
    else
      match decode_datum bytes pos col with
      | .error e => .error e
      | .ok (datum, pos) =>
        match decode_columns bytes is_null (i + 1) pos columns with
        | .error e => .error e
        | .ok (values, pos) => .ok (some datum :: values, pos)

/-- The schema check of `decode_tuple`. -/
def check_dims : List ColumnType → Except HeapError Unit
  | [] => .ok ()
  | .Vector dim :: columns =>
    match check_vector_dim dim with
    | .error _ =>
      .error (.Corrupted s!"vector column dimension {dim} out of range 1..={MAX_VECTOR_DIM}")
    | .ok () => check_dims columns
  | _ :: columns => check_dims columns

/-- Is column `i` null, by the bitmap after the fixed header? -/
def null_bit (bytes : List UInt8) (i : ℕ) : Bool :=
  decide ((bytes.getD (64 + i / 8) 0).toNat &&& (1 <<< (i % 8)) ≠ 0)

def decode_tuple (bytes : List UInt8) (columns : List ColumnType) :
    Except HeapError (TupleHeader × List (Option Datum)) :=
  match TupleHeader.read_from bytes with
  | .error e => .error e
  | .ok header =>
    let natts := header.natts
    let described := columns.length
    let len := bytes.length
    if natts ≠ described then
      .error (.Corrupted s!"tuple has {natts} columns, schema describes {described}")
    else
      match check_dims columns with
      | .error e => .error e
      | .ok () =>
        let t_hoff := header.t_hoff
        if t_hoff < 64 ∨ t_hoff > len ∨ t_hoff % 8 ≠ 0 then
          .error (.Corrupted
            s!"t_hoff {t_hoff} out of range or not 8-byte aligned (tuple is {len} bytes)")
        else
          let has_null := hasFlag header.t_infomask HEAP_HASNULL
          if has_null ∧ 64 + bitmap_len has_null described > t_hoff then
            .error (.Corrupted "null bitmap extends past t_hoff")
          else
            match decode_columns bytes (fun i => has_null && null_bit bytes i) 0 t_hoff columns with
            | .error e => .error e
            | .ok (values, pos) =>
              let trailing := len - pos
              if hasFlag header.t_infomask2 HEAP_HAS_NODEID then
                if trailing ≠ 4 then
                  .error (.Corrupted
                    s!"tuple with HEAP_HAS_NODEID has {trailing} trailing bytes, expected exactly 4 (the NodeId)")
                else .ok (header, values)
              else if trailing ≠ 0 then
                .error (.Corrupted s!"tuple has {trailing} trailing bytes after the last column")
              else .ok (header, values)

def tuple_node_id (bytes : List UInt8) (columns : List ColumnType) :
    Except HeapError (Option (BitVec 32)) :=
  match decode_tuple bytes columns with
  | .error e => .error e
  | .ok (header, _) =>
    if !hasFlag header.t_infomask2 HEAP_HAS_NODEID then .ok none
    else .ok (some (BitVec.ofNat 32 (ofLe (bytes.drop (bytes.length - 4)))))

/-! ## Round trip: the header -/

section StructuralHeader

variable (header : TupleHeader) (shape : TupleShape) (natts : ℕ) (b : Bool)

theorem or_and_eq_of_and_eq_zero {a x k : BitVec 16} (h : x &&& k = 0#16) :
    (a ||| x) &&& k = a &&& k := by
  have hdist : (a ||| x) &&& k = (a &&& k) ||| (x &&& k) := by
    ext i
    simp [Bool.and_or_distrib_right]
  rw [hdist, h, BitVec.or_zero]

theorem structural_header_has_null :
    hasFlag (structural_header header shape natts b).t_infomask HEAP_HASNULL = shape.has_null := by
  obtain ⟨n, v, e⟩ := shape
  simp only [structural_header, hasFlag_or, hasFlag_and]
  rw [show ~~~(HEAP_HASNULL ||| HEAP_HASVARWIDTH ||| HEAP_HASEXTERNAL) &&& HEAP_HASNULL = 0#16 from
    by decide, hasFlag_zero]
  cases n <;> cases v <;> cases e <;> decide

theorem structural_header_has_nodeid :
    hasFlag (structural_header header shape natts b).t_infomask2 HEAP_HAS_NODEID = b := by
  simp only [structural_header, hasFlag_or, hasFlag_and]
  rw [show ~~~HEAP_HAS_NODEID &&& HEAP_HAS_NODEID = 0#16 from by decide, BitVec.and_zero,
    hasFlag_zero, hasFlag_zero]
  cases b <;> decide

theorem structural_header_natts (h : natts ≤ MAX_NATTS) :
    (structural_header header shape natts b).natts = natts := by
  have hnatts : (BitVec.ofNat 16 natts &&& HEAP_NATTS_MASK).toNat = natts := by
    rw [BitVec.toNat_and, BitVec.toNat_ofNat]
    change natts % 2 ^ 16 &&& (2 ^ 11 - 1) = natts
    change natts ≤ 2047 at h
    rw [Nat.and_two_pow_sub_one_eq_mod]
    omega
  have hmask : (structural_header header shape natts b).t_infomask2 &&& HEAP_NATTS_MASK
      = BitVec.ofNat 16 natts &&& HEAP_NATTS_MASK := by
    simp only [structural_header]
    rw [or_and_eq_of_and_eq_zero (by cases b <;> decide), BitVec.and_assoc,
      show ~~~HEAP_HAS_NODEID &&& HEAP_NATTS_MASK = HEAP_NATTS_MASK from by decide,
      BitVec.or_comm, or_and_eq_of_and_eq_zero]
    rw [BitVec.and_assoc, show ~~~HEAP_NATTS_MASK &&& HEAP_NATTS_MASK = 0#16 from by decide,
      BitVec.and_zero]
  rw [TupleHeader.natts, hmask, hnatts]

/-- The bits of `t_infomask` and `t_infomask2` that the encoder computes itself. -/
abbrev STRUCTURAL_INFOMASK : BitVec 16 := HEAP_HASNULL ||| HEAP_HASVARWIDTH ||| HEAP_HASEXTERNAL

abbrev STRUCTURAL_INFOMASK2 : BitVec 16 := HEAP_NATTS_MASK ||| HEAP_HAS_NODEID

theorem structural_header_infomask :
    (structural_header header shape natts b).t_infomask &&& ~~~STRUCTURAL_INFOMASK
      = header.t_infomask &&& ~~~STRUCTURAL_INFOMASK := by
  simp only [structural_header]
  rw [or_and_eq_of_and_eq_zero (by split_ifs <;> decide),
    or_and_eq_of_and_eq_zero (by split_ifs <;> decide),
    or_and_eq_of_and_eq_zero (by split_ifs <;> decide), BitVec.and_assoc, BitVec.and_self]

theorem structural_header_infomask2 (h : natts ≤ MAX_NATTS) :
    (structural_header header shape natts b).t_infomask2 &&& ~~~STRUCTURAL_INFOMASK2
      = header.t_infomask2 &&& ~~~STRUCTURAL_INFOMASK2 := by
  have hnatts : BitVec.ofNat 16 natts &&& ~~~STRUCTURAL_INFOMASK2 = 0#16 := by
    have hlow : BitVec.ofNat 16 natts = BitVec.ofNat 16 natts &&& HEAP_NATTS_MASK := by
      apply BitVec.eq_of_toNat_eq
      rw [BitVec.toNat_and, BitVec.toNat_ofNat]
      change natts % 2 ^ 16 = natts % 2 ^ 16 &&& (2 ^ 11 - 1)
      change natts ≤ 2047 at h
      rw [Nat.and_two_pow_sub_one_eq_mod]
      omega
    rw [hlow, BitVec.and_assoc,
      show HEAP_NATTS_MASK &&& ~~~STRUCTURAL_INFOMASK2 = 0#16 from by decide, BitVec.and_zero]
  simp only [structural_header]
  rw [or_and_eq_of_and_eq_zero (by cases b <;> decide), BitVec.and_assoc,
    show ~~~HEAP_HAS_NODEID &&& ~~~STRUCTURAL_INFOMASK2 = ~~~STRUCTURAL_INFOMASK2 from by decide,
    or_and_eq_of_and_eq_zero hnatts, BitVec.and_assoc,
    show ~~~HEAP_NATTS_MASK &&& ~~~STRUCTURAL_INFOMASK2 = ~~~STRUCTURAL_INFOMASK2 from by decide]

theorem structural_header_flags :
    (structural_header header shape natts b).t_flags &&& ~~~TUPLE_VERSION_MASK
      = header.t_flags &&& ~~~TUPLE_VERSION_MASK := by
  simp only [structural_header]
  rw [or_and_eq_of_and_eq_zero (by decide), BitVec.and_assoc, BitVec.and_self]

theorem data_offset_le (h : natts ≤ MAX_NATTS) (n : Bool) :
    64 + bitmap_len n natts ≤ data_offset n natts ∧ data_offset n natts % 8 = 0 ∧
      data_offset n natts ≤ 320 := by
  change natts ≤ 2047 at h
  unfold data_offset
  have hlen : bitmap_len n natts ≤ 256 := by
    unfold bitmap_len
    split_ifs <;> omega
  omega

theorem structural_header_inRange (hr : header.InRange) (h : natts ≤ MAX_NATTS) :
    (structural_header header shape natts b).InRange where
  t_xmin := hr.t_xmin
  t_xmax := hr.t_xmax
  t_agent_id := hr.t_agent_id
  page_id := hr.page_id
  slot_id := hr.slot_id
  t_hoff := by
    have := (data_offset_le natts h shape.has_null).2.2
    change data_offset shape.has_null natts < 256 ^ 2
    omega
  t_cid := hr.t_cid

end StructuralHeader

/-! ## Round trip: the null bitmap -/

/-- The bit of column `j` in a bitmap. -/
def bitmap_bit (bitmap : List UInt8) (j : ℕ) : Bool :=
  (bitmap.getD (j / 8) 0).toNat.testBit (j % 8)

theorem null_bit_eq (bytes : List UInt8) (i : ℕ) :
    null_bit bytes i = (bytes.getD (64 + i / 8) 0).toNat.testBit (i % 8) := by
  rw [null_bit, Nat.one_shiftLeft, Bool.eq_iff_iff, decide_eq_true_eq]
  constructor
  · intro h
    obtain ⟨k, hk⟩ := Nat.exists_testBit_of_ne_zero h
    rw [Nat.testBit_and, Nat.testBit_two_pow, Bool.and_eq_true, decide_eq_true_eq] at hk
    rw [hk.2]
    exact hk.1
  · intro h h0
    have := congrArg (fun n => n.testBit (i % 8)) h0
    simp only [Nat.testBit_and, Nat.testBit_two_pow, decide_true, Bool.and_true, h,
      Nat.zero_testBit] at this
    cases this

theorem length_set_null_bits (i : ℕ) (values : List (Option Datum)) (bitmap : List UInt8) :
    (set_null_bits i values bitmap).length = bitmap.length := by
  induction values generalizing i bitmap with
  | nil => rfl
  | cons val values ih =>
    rw [set_null_bits, ih]
    split_ifs
    · rw [List.length_modify]
    · rfl

/-- Setting one bit. -/
theorem bitmap_bit_modify {bitmap : List UInt8} {i : ℕ} (hi : i / 8 < bitmap.length) (j : ℕ) :
    bitmap_bit (bitmap.modify (i / 8) (· ||| UInt8.ofNat (1 <<< (i % 8)))) j
      = (bitmap_bit bitmap j || decide (j = i)) := by
  have hmod : i % 8 < 8 := Nat.mod_lt _ (by decide)
  have hone : (UInt8.ofNat (1 <<< (i % 8))).toNat = 2 ^ (i % 8) := by
    rw [Nat.one_shiftLeft, UInt8.toNat_ofNat', Nat.mod_eq_of_lt]
    calc 2 ^ (i % 8) ≤ 2 ^ 7 := Nat.pow_le_pow_right (by decide) (by omega)
      _ < 2 ^ 8 := by decide
  unfold bitmap_bit
  rw [List.getD_eq_getElem?_getD, List.getD_eq_getElem?_getD, List.getElem?_modify]
  by_cases hb : i / 8 = j / 8
  · rw [← hb, List.getElem?_eq_getElem hi]
    simp only [if_true, Option.map_eq_map, Option.map_some, Option.getD_some, UInt8.toNat_or,
      Nat.testBit_or, hone, Nat.testBit_two_pow]
    congr 1
    rw [decide_eq_decide]
    omega
  · have hne : j ≠ i := fun h => hb (by rw [h])
    simp [hb, hne]

variable {values : List (Option Datum)}

/-- The bitmap marks the null columns and no others. -/
theorem bitmap_bit_set_null_bits :
    ∀ {i : ℕ} {bitmap : List UInt8}, i + values.length ≤ bitmap.length * 8 → ∀ j,
      bitmap_bit (set_null_bits i values bitmap) j
        = (bitmap_bit bitmap j || (decide (i ≤ j) && decide (values[j - i]? = some none))) := by
  induction values with
  | nil => intro i bitmap _ j; simp [set_null_bits]
  | cons val values ih =>
    intro i bitmap hlen j
    rw [List.length_cons] at hlen
    have hi : i / 8 < bitmap.length := by omega
    have hlen' : i + 1 + values.length ≤ (if val.isNone then
        bitmap.modify (i / 8) (· ||| UInt8.ofNat (1 <<< (i % 8))) else bitmap).length * 8 := by
      split_ifs
      · rw [List.length_modify]; omega
      · omega
    rw [set_null_bits, ih hlen']
    by_cases hj : j = i
    · subst hj
      have hgt : ¬ j + 1 ≤ j := by omega
      cases val with
      | none => simp [bitmap_bit_modify hi]
      | some d => simp
    · have hshift : ∀ h : i ≤ j, (val :: values)[j - i]? = values[j - (i + 1)]? := by
        intro h
        rw [show j - i = (j - (i + 1)) + 1 by omega, List.getElem?_cons_succ]
      have hle : decide (i + 1 ≤ j) = decide (i ≤ j) := by
        rw [decide_eq_decide]; omega
      rw [hle]
      by_cases h : i ≤ j
      · rw [hshift h]
        cases val with
        | none => simp [bitmap_bit_modify hi, hj]
        | some d => simp
      · cases val with
        | none => simp [bitmap_bit_modify hi, hj, h]
        | some d => simp [h]

/-! ## Round trip: the values -/

variable {bytes post pre : List UInt8} {pos : ℕ}

/-- The next field of a split byte string. -/
theorem take_append {field : List UInt8} {n : ℕ} (hpos : pre.length = pos) (hn : field.length = n) :
    take (pre ++ (field ++ post)) pos n = .ok (field, pos + n) := by
  unfold take
  have hlen : ¬ pos + n > (pre ++ (field ++ post)).length := by
    simp only [length_append]
    omega
  simp only
  rw [if_neg hlen, List.drop_left' hpos, List.take_left' hn]

theorem decode_fixed_append {field : List UInt8} {n : ℕ} {read : List UInt8 → Datum}
    (hpos : pre.length = pos) (hn : field.length = n) :
    decode_fixed (pre ++ (field ++ post)) pos n read = .ok (read field, pos + n) := by
  rw [decode_fixed, take_append hpos hn]

/-- A length below `2 ^ 30` is not taken for an external tag. -/
theorem is_external_eq_false {n : ℕ} (h : n ≤ VARLENA_LEN_MASK) : is_external n = false := by
  have hzero : n &&& VARLENA_TAG_MASK = 0 := by
    apply Nat.eq_of_testBit_eq
    intro i
    rw [Nat.testBit_and, Nat.zero_testBit, show VARLENA_TAG_MASK = 3 <<< 30 from by decide,
      Nat.testBit_shiftLeft]
    by_cases hi : 30 ≤ i
    · have hlt : n < 2 ^ i := lt_of_lt_of_le (b := 2 ^ 30) (by change n ≤ 2 ^ 30 - 1 at h; omega)
        (Nat.pow_le_pow_right (by decide) hi)
      rw [Nat.testBit_lt_two_pow hlt, Bool.false_and]
    · simp [hi]
  rw [is_external, hzero]
  decide

theorem decode_varlena_inline {payload : List UInt8} {datum : Datum}
    {inline : List UInt8 → Except HeapError Datum} (hpos : pre.length = pos)
    (henc : Datum.inline_varlena payload = .ok bytes) (hin : inline payload = .ok datum) :
    decode_varlena (pre ++ (bytes ++ post)) pos inline = .ok (datum, pos + bytes.length) := by
  unfold Datum.inline_varlena at henc
  simp only at henc
  split_ifs at henc with hbig
  cases henc
  have hsmall : payload.length + 4 ≤ VARLENA_LEN_MASK := not_lt.mp hbig
  have hlt : payload.length + 4 < 256 ^ 4 := by
    change payload.length + 4 ≤ 2 ^ 30 - 1 at hsmall
    omega
  have hmask : (payload.length + 4) &&& VARLENA_LEN_MASK = payload.length + 4 := by
    change (payload.length + 4) &&& (2 ^ 30 - 1) = payload.length + 4
    change payload.length + 4 ≤ 2 ^ 30 - 1 at hsmall
    rw [Nat.and_two_pow_sub_one_eq_mod, Nat.mod_eq_of_lt (by omega)]
  have htag : take (pre ++ (leBytes 4 (payload.length + 4) ++ payload ++ post)) pos 4
      = .ok (leBytes 4 (payload.length + 4), pos + 4) := by
    rw [append_assoc]
    exact take_append hpos (length_leBytes _ _)
  have hpay : take (pre ++ (leBytes 4 (payload.length + 4) ++ payload ++ post)) (pos + 4)
      payload.length = .ok (payload, pos + 4 + payload.length) := by
    rw [append_assoc, ← append_assoc pre]
    exact take_append (by rw [length_append, length_leBytes, hpos]) rfl
  unfold decode_varlena
  rw [htag]
  simp only [ofLe_leBytes_of_lt hlt, is_external_eq_false hsmall, hmask, Bool.false_eq_true,
    if_false, Nat.add_sub_cancel]
  rw [if_neg (by omega), hpay]
  simp only [hin]
  rw [length_append, length_leBytes]
  congr 2
  omega

theorem decode_varlena_external (ptr : ToastPointer) (inline : List UInt8 → Except HeapError Datum)
    (hpos : pre.length = pos) :
    decode_varlena (pre ++ (ptr.encode ++ post)) pos inline
      = .ok (.External ptr, pos + ptr.encode.length) := by
  have htag : take (pre ++ (ptr.encode ++ post)) pos 4
      = .ok ((ptr.encode ++ post).take 4, pos + 4) := by
    have hsplit : ptr.encode ++ post = (ptr.encode ++ post).take 4 ++ (ptr.encode ++ post).drop 4 :=
      (List.take_append_drop 4 _).symm
    rw [hsplit]
    refine take_append hpos ?_
    rw [List.length_take, length_append, ToastPointer.length_encode]
    omega
  have hraw : take (pre ++ (ptr.encode ++ post)) pos TOAST_POINTER_SIZE
      = .ok (ptr.encode, pos + TOAST_POINTER_SIZE) := take_append hpos ptr.length_encode
  have hvl : ofLe ((ptr.encode ++ post).take 4) = TOAST_POINTER_SIZE ||| VARLENA_EXTERNAL_FLAG := by
    have h := ptr.le_at_tag post
    rwa [le_at, List.drop_zero] at h
  have hext : is_external (TOAST_POINTER_SIZE ||| VARLENA_EXTERNAL_FLAG) = true := by decide
  unfold decode_varlena
  rw [htag]
  simp only [hvl, hext, if_true, Nat.add_sub_cancel, hraw, ptr.decode_encode, ptr.length_encode]

theorem decode_text_utf8 (s : String) : decode_text (Datum.utf8 s) = .ok (.Text s) := by
  have hbytes : (Datum.utf8 s).toByteArray = s.toByteArray := by
    apply ByteArray.ext
    apply Array.toList_inj.mp
    rw [List.toList_data_toByteArray]
    rfl
  unfold decode_text String.fromUTF8?
  rw [hbytes, dif_pos s.isValidUTF8]
  rfl

theorem vector_components_encode (v : List (BitVec 32)) :
    vector_components (v.flatMap fun x => leBytes 4 x.toNat) = v := by
  induction v with
  | nil => rfl
  | cons x v ih =>
    have hx : BitVec.ofNat 32 (ofLe (leBytes 4 x.toNat)) = x := by
      rw [ofLe_leBytes_of_lt x.isLt, BitVec.ofNat_toNat, BitVec.setWidth_eq]
    rw [List.flatMap_cons]
    change BitVec.ofNat 32 (ofLe (leBytes 4 x.toNat)) :: vector_components _ = _
    rw [hx]
    congr 1

theorem length_vector_encode (v : List (BitVec 32)) :
    (v.flatMap fun x => leBytes 4 x.toNat).length = v.length * 4 := by
  induction v with
  | nil => rfl
  | cons x v ih => rw [List.flatMap_cons, length_append, ih, length_leBytes, List.length_cons]; omega

/-- **One value.** A datum that fits its column is read back from its bytes, and
the reader stops where they end. -/
theorem decode_datum_encode {col : ColumnType} {datum : Datum} (hpos : pre.length = pos)
    (hmatch : datum.matches_column col = true) (henc : datum.encode = .ok bytes) :
    decode_datum (pre ++ (bytes ++ post)) pos col = .ok (datum, pos + bytes.length) := by
  have hbits : ∀ {w k : ℕ} (v : BitVec w), 2 ^ w = 256 ^ k →
      BitVec.ofNat w (ofLe (leBytes k v.toNat)) = v := by
    intro w k v hw
    rw [ofLe_leBytes_of_lt (hw ▸ v.isLt), BitVec.ofNat_toNat, BitVec.setWidth_eq]
  cases datum with
  | Int4 v =>
    obtain rfl : col = .Int4 := of_decide_eq_true hmatch
    cases henc
    rw [decode_datum, decode_fixed_append hpos (length_leBytes _ _), length_leBytes,
      hbits v (by decide)]
  | Int8 v =>
    obtain rfl : col = .Int8 := of_decide_eq_true hmatch
    cases henc
    rw [decode_datum, decode_fixed_append hpos (length_leBytes _ _), length_leBytes,
      hbits v (by decide)]
  | Timestamptz v =>
    obtain rfl : col = .Timestamptz := of_decide_eq_true hmatch
    cases henc
    rw [decode_datum, decode_fixed_append hpos (length_leBytes _ _), length_leBytes,
      hbits v (by decide)]
  | Uuid v =>
    obtain rfl : col = .Uuid := of_decide_eq_true hmatch
    cases henc
    rw [decode_datum, decode_fixed_append hpos (by simp), Vector.length_toList]
    congr 3
    ext i hi
    simp [List.getD_eq_getElem?_getD]
  | Text v =>
    obtain rfl : col = .Text := of_decide_eq_true hmatch
    rw [decode_datum]
    exact decode_varlena_inline hpos henc (decode_text_utf8 v)
  | Bytea v =>
    obtain rfl : col = .Bytea := of_decide_eq_true hmatch
    rw [decode_datum]
    exact decode_varlena_inline hpos henc rfl
  | Vector v =>
    cases henc
    cases col with
    | Vector dim =>
      obtain rfl : v.length = dim := of_decide_eq_true hmatch
      rw [decode_datum, decode_fixed_append hpos (length_vector_encode v), length_vector_encode,
        vector_components_encode]
    | _ => simp [Datum.matches_column, Datum.column_type] at hmatch
  | External ptr =>
    cases henc
    cases col with
    | Text => rw [decode_datum]; exact decode_varlena_external ptr _ hpos
    | Bytea => rw [decode_datum]; exact decode_varlena_external ptr _ hpos
    | _ => cases hmatch

/-- What the validation pass has checked of one column. -/
def ColumnOk (col : ColumnType) (val : Option Datum) : Prop :=
  col.check_dim = .ok () ∧ ∀ datum, val = some datum → datum.matches_column col = true

theorem scan_columns_ok {columns : List ColumnType} :
    ∀ {values : List (Option Datum)} {shape shape' : TupleShape},
      columns.length = values.length → scan_columns shape columns values = .ok shape' →
      List.Forall₂ ColumnOk columns values ∧
        shape'.has_null = (shape.has_null || values.any Option.isNone) := by
  induction columns with
  | nil =>
    intro values shape shape' hlen h
    cases values with
    | nil => cases h; exact ⟨.nil, by simp⟩
    | cons val values => cases hlen
  | cons col columns ih =>
    intro values shape shape' hlen h
    cases values with
    | nil => cases hlen
    | cons val values =>
      have hlen' : columns.length = values.length := Nat.succ.inj hlen
      simp only [scan_columns] at h
      split at h
      · cases h
      · next u hok =>
        cases val with
        | none =>
          obtain ⟨hall, hnull⟩ := ih hlen' h
          exact ⟨.cons ⟨hok, fun _ hd => by cases hd⟩ hall, by simp [hnull]⟩
        | some datum =>
          simp only at h
          by_cases hm : datum.matches_column col = true
          · simp only [hm, Bool.not_true, Bool.false_eq_true, if_false] at h
            obtain ⟨hall, hnull⟩ := ih hlen' h
            refine ⟨.cons ⟨hok, fun d hd => ?_⟩ hall, by simp [hnull]⟩
            cases hd
            exact hm
          · simp only [Bool.eq_false_iff.mpr hm, Bool.not_false, if_true] at h
            cases h

theorem check_dims_ok {columns : List ColumnType} (h : List.Forall₂ ColumnOk columns values) :
    check_dims columns = .ok () := by
  induction h with
  | nil => rfl
  | @cons col val columns values hcol _ ih =>
    cases col with
    | Vector dim =>
      rw [check_dims, show check_vector_dim dim = .ok () from hcol.1]
      exact ih
    | _ => exact ih

/-- **The column loop.** From a split of the bytes at the position reached, the
remaining columns are read back and the loop ends where their encoding does. -/
theorem decode_columns_encode {columns : List ColumnType}
    (hok : List.Forall₂ ColumnOk columns values) {is_null : ℕ → Bool} :
    ∀ {i pos : ℕ} {pre data post : List UInt8}, pre.length = pos →
      encode_values values = .ok data →
      (∀ k, k < values.length → is_null (i + k) = decide (values[k]? = some none)) →
      decode_columns (pre ++ (data ++ post)) is_null i pos columns
        = .ok (values, pos + data.length) := by
  induction hok with
  | nil =>
    intro i pos pre data post _ henc _
    cases henc
    rfl
  | @cons col val columns values hcol _ ih =>
    intro i pos pre data post hpos henc hnull
    have hhead := hnull 0 (Nat.succ_pos _)
    rw [Nat.add_zero, List.getElem?_cons_zero] at hhead
    have htail : ∀ k, k < values.length →
        is_null (i + 1 + k) = decide (values[k]? = some none) := by
      intro k hk
      have h := hnull (k + 1) (Nat.succ_lt_succ hk)
      rw [List.getElem?_cons_succ] at h
      rw [← h]
      congr 1
      omega
    cases val with
    | none =>
      have hrest := @ih _ _ _ _ post hpos henc htail
      rw [decode_columns, hhead]
      simp only [decide_true, if_true, hrest]
    | some datum =>
      rw [encode_values] at henc
      cases hd : datum.encode with
      | error e => rw [hd] at henc; cases henc
      | ok bytes =>
        rw [hd] at henc
        simp only at henc
        split at henc
        · cases henc
        · next rest hr =>
          cases henc
          have hdatum : decode_datum (pre ++ (bytes ++ rest ++ post)) pos col
              = .ok (datum, pos + bytes.length) := by
            rw [append_assoc]
            exact decode_datum_encode hpos (hcol.2 datum rfl) hd
          have hrest : decode_columns (pre ++ (bytes ++ rest ++ post)) is_null (i + 1)
              (pos + bytes.length) columns = .ok (values, pos + bytes.length + rest.length) := by
            rw [append_assoc, ← append_assoc pre]
            exact ih (by rw [length_append, hpos]) hr htail
          rw [decode_columns, hhead]
          simp only [reduceCtorEq, Option.some.injEq, decide_false, Bool.false_eq_true, if_false,
            hdatum, hrest]
          rw [length_append, Nat.add_assoc]

/-! ## Round trip: the tuple -/

theorem length_bitmap_area (shape : TupleShape) (values : List (Option Datum)) {natts : ℕ}
    (h : natts ≤ MAX_NATTS) :
    (bitmap_area shape values natts).length = data_offset shape.has_null natts - 64 := by
  have hle := (data_offset_le natts h shape.has_null).1
  unfold bitmap_area
  rw [length_append, length_replicate]
  have hmap : (if shape.has_null = true then set_null_bits 0 values
      (List.replicate (bitmap_len shape.has_null natts) 0)
      else List.replicate (bitmap_len shape.has_null natts) 0).length
        = bitmap_len shape.has_null natts := by
    split_ifs
    · rw [length_set_null_bits, length_replicate]
    · rw [length_replicate]
  simp only [hmap]
  omega

/-- The null test of the decoder finds exactly the null values. -/
theorem null_bit_encoded {h : TupleHeader} {shape : TupleShape} {rest : List UInt8}
    (hnull : shape.has_null = true) {k : ℕ} (hk : k < values.length) :
    null_bit (h.write_to ++ bitmap_area shape values values.length ++ rest) k
      = decide (values[k]? = some none) := by
  have hbytes : (values.length + 7) / 8 * 8 ≥ values.length := by omega
  have hkb : k / 8 < (values.length + 7) / 8 := by omega
  have hbit := @bitmap_bit_set_null_bits values 0
    (List.replicate ((values.length + 7) / 8) 0)
    (by rw [length_replicate]; omega) k
  have hzero : bitmap_bit (List.replicate ((values.length + 7) / 8) 0) k = false := by
    simp [bitmap_bit, List.getD_eq_getElem?_getD, hkb]
  rw [hzero, Bool.false_or, Nat.sub_zero, decide_eq_true (Nat.zero_le k), Bool.true_and] at hbit
  rw [← hbit, null_bit_eq, bitmap_bit]
  congr 2
  have hlen : (h.write_to).length ≤ 64 + k / 8 := by rw [TupleHeader.length_write_to]; omega
  rw [List.getD_eq_getElem?_getD, List.getD_eq_getElem?_getD, append_assoc,
    List.getElem?_append_right hlen, TupleHeader.length_write_to, Nat.add_sub_cancel_left,
    bitmap_area, bitmap_len]
  simp only [hnull, if_true]
  rw [append_assoc, List.getElem?_append_left]
  rw [length_set_null_bits, length_replicate]
  exact hkb

/-- What `encode_tuple_impl` has checked when it succeeds, and the bytes it makes. -/
theorem encode_tuple_impl_ok {header : TupleHeader} {columns : List ColumnType}
    {node_id : Option (BitVec 32)}
    (h : encode_tuple_impl header columns values node_id = .ok bytes) :
    columns.length = values.length ∧ columns.length ≤ MAX_NATTS ∧
      ∃ shape data, scan_columns ⟨false, false, false⟩ columns values = .ok shape ∧
        encode_values values = .ok data ∧
        bytes = (structural_header header shape columns.length node_id.isSome).write_to
          ++ bitmap_area shape values columns.length ++ data
          ++ (node_id.map fun id => leBytes 4 id.toNat).getD [] := by
  unfold encode_tuple_impl at h
  simp only at h
  split_ifs at h with hlen hmax
  refine ⟨not_not.mp hlen, not_lt.mp hmax, ?_⟩
  cases hs : scan_columns ⟨false, false, false⟩ columns values with
  | error e => rw [hs] at h; cases h
  | ok shape =>
    rw [hs] at h
    simp only at h
    cases he : encode_values values with
    | error e => rw [he] at h; cases h
    | ok data =>
      rw [he] at h
      cases h
      exact ⟨shape, data, rfl, rfl, rfl⟩

/-- Decoding returns the structural header and the values. -/
theorem decode_encode_impl {header : TupleHeader} (hr : header.InRange) {columns : List ColumnType}
    {node_id : Option (BitVec 32)}
    (h : encode_tuple_impl header columns values node_id = .ok bytes) :
    ∃ shape, decode_tuple bytes columns =
        .ok (structural_header header shape columns.length node_id.isSome, values) ∧
      columns.length ≤ MAX_NATTS ∧
      ∃ front, bytes = front ++ (node_id.map fun id => leBytes 4 id.toNat).getD [] := by
  obtain ⟨hlen, hmax, shape, data, hscan, hdata, hbytes⟩ := encode_tuple_impl_ok h
  refine ⟨shape, ?_, hmax, _, hbytes⟩
  obtain ⟨hok, hnull⟩ := scan_columns_ok hlen hscan
  rw [Bool.false_or] at hnull
  obtain ⟨hd1, hd2, -⟩ := data_offset_le columns.length hmax shape.has_null
  generalize htail : (node_id.map fun id => leBytes 4 id.toNat).getD [] = tail at hbytes
  have htailLen : tail.length = if node_id.isSome then 4 else 0 := by
    rw [← htail]
    cases node_id with
    | none => rfl
    | some id => exact length_leBytes 4 _
  generalize hsh : structural_header header shape columns.length node_id.isSome = sh at hbytes
  have hrange : sh.InRange := hsh ▸ structural_header_inRange header shape _ _ hr hmax
  have hnatts : sh.natts = columns.length := hsh ▸ structural_header_natts header shape _ _ hmax
  have hhoff : sh.t_hoff = data_offset shape.has_null columns.length := by rw [← hsh]; rfl
  have hflag : hasFlag sh.t_infomask HEAP_HASNULL = shape.has_null :=
    hsh ▸ structural_header_has_null header shape _ _
  have hnode : hasFlag sh.t_infomask2 HEAP_HAS_NODEID = node_id.isSome :=
    hsh ▸ structural_header_has_nodeid header shape _ _
  have hprelen : (sh.write_to ++ bitmap_area shape values columns.length).length
      = data_offset shape.has_null columns.length := by
    rw [length_append, TupleHeader.length_write_to, length_bitmap_area shape values hmax]
    omega
  have hread : TupleHeader.read_from bytes = .ok sh := by
    rw [hbytes, append_assoc, append_assoc]
    exact TupleHeader.read_from_write_to hrange _
  have htotal : bytes.length = data_offset shape.has_null columns.length + data.length
      + tail.length := by
    rw [hbytes, length_append, length_append, hprelen]
  have hcols : decode_columns bytes (fun i => shape.has_null && null_bit bytes i) 0
      (data_offset shape.has_null columns.length) columns
        = .ok (values, data_offset shape.has_null columns.length + data.length) := by
    rw [hbytes, append_assoc]
    refine decode_columns_encode hok hprelen hdata fun k hk => ?_
    rw [Nat.zero_add]
    cases hn : shape.has_null with
    | true => rw [hlen, Bool.true_and, null_bit_encoded hn hk]
    | false =>
      rw [hnull, List.any_eq_false] at hn
      rw [Bool.false_and, eq_comm, decide_eq_false_iff_not]
      intro hnone
      exact hn none (List.mem_of_getElem? hnone) rfl
  unfold decode_tuple
  rw [hread]
  simp only [hnatts, hhoff, hflag, hnode, check_dims_ok hok, hcols, ne_eq, not_true_eq_false,
    if_false]
  rw [if_neg (by omega), if_neg (by omega), htotal, htailLen]
  cases node_id with
  | none => simp
  | some id => simp

/-- **Tuple codec round trip.** Whatever `encode_tuple` or
`encode_tuple_with_node_id` accepts, decoding with the same columns returns the
values unchanged and a header with the caller's identity fields and non-structural
bits, and the NodeId read back is the one given. -/
theorem tuple_codec_round_trip {header : TupleHeader} (hr : header.InRange)
    {columns : List ColumnType} {values : List (Option Datum)} {node_id : Option (BitVec 32)}
    {bytes : List UInt8}
    (h : (match node_id with
      | none => encode_tuple header columns values
      | some id => encode_tuple_with_node_id header columns values id) = .ok bytes) :
    (∃ header', decode_tuple bytes columns = .ok (header', values) ∧
      header'.t_xmin = header.t_xmin ∧ header'.t_xmax = header.t_xmax ∧
      header'.t_agent_id = header.t_agent_id ∧ header'.t_trace_id = header.t_trace_id ∧
      header'.t_ctid = header.t_ctid ∧ header'.t_cid = header.t_cid ∧
      header'.t_infomask &&& ~~~STRUCTURAL_INFOMASK
        = header.t_infomask &&& ~~~STRUCTURAL_INFOMASK ∧
      header'.t_infomask2 &&& ~~~STRUCTURAL_INFOMASK2
        = header.t_infomask2 &&& ~~~STRUCTURAL_INFOMASK2 ∧
      header'.t_flags &&& ~~~TUPLE_VERSION_MASK = header.t_flags &&& ~~~TUPLE_VERSION_MASK) ∧
    tuple_node_id bytes columns = .ok node_id := by
  have himpl : encode_tuple_impl header columns values node_id = .ok bytes := by
    cases node_id <;> exact h
  obtain ⟨shape, hdec, hmax, front, hfront⟩ := decode_encode_impl hr himpl
  refine ⟨⟨_, hdec, rfl, rfl, rfl, rfl, rfl, rfl, structural_header_infomask .., ?_,
    structural_header_flags ..⟩, ?_⟩
  · exact structural_header_infomask2 header shape columns.length _ hmax
  · unfold tuple_node_id
    rw [hdec]
    simp only [structural_header_has_nodeid]
    cases node_id with
    | none => rfl
    | some id =>
      have hdrop : bytes.drop (bytes.length - 4) = leBytes 4 id.toNat := by
        rw [hfront]
        exact List.drop_left' (by simp)
      simp only [Option.isSome_some, Bool.not_true, Bool.false_eq_true, if_false]
      rw [hdrop, ofLe_leBytes_of_lt id.isLt, BitVec.ofNat_toNat, BitVec.setWidth_eq]

/-- A row with a null text, a TOASTed value and a NodeId. -/
theorem tuple_codec_round_trip_null_external :
    let header := TupleHeader.new 7 0 3 (Vector.replicate 16 9) ⟨5, 2⟩ 1
    let columns := [ColumnType.Int4, .Text, .Bytea, .Vector 1]
    let values := [some (Datum.Int4 6), none, some (.External ⟨5000, 5000, 42, 16399⟩),
      some (.Vector [8])]
    ∃ bytes, encode_tuple_with_node_id header columns values 77 = .ok bytes ∧
      (∃ header', decode_tuple bytes columns = .ok (header', values)) ∧
      tuple_node_id bytes columns = .ok (some 77) := by
  refine ⟨_, rfl, ?_⟩
  have h := @tuple_codec_round_trip (TupleHeader.new 7 0 3 (Vector.replicate 16 9) ⟨5, 2⟩ 1)
    (by constructor <;> decide) [ColumnType.Int4, .Text, .Bytea, .Vector 1]
    [some (Datum.Int4 6), none, some (.External ⟨5000, 5000, 42, 16399⟩), some (.Vector [8])]
    (some 77) _ rfl
  obtain ⟨⟨header', hdec, -⟩, hnode⟩ := h
  exact ⟨⟨header', hdec⟩, hnode⟩

end Ams
