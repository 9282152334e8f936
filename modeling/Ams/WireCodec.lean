/-
The backend half of the wire codec: the messages of the v3 protocol as `codec.rs`
writes them, and a reader of those messages.

The encoders are the source's. Counts and lengths go through the source's casts, `as
i16`, `as i32` and `as u32`, which keep the low bits; nothing checks that the number
fits. The reader is the protocol's: a tag, a length that counts itself, and a body that
must be used up exactly by the fields its counts announce, counts and lengths being
signed. So a message reads back when its numbers fit, and each round trip below carries
that as its hypothesis.
-/
import Ams.Lib.ByteReader
import Ams.TupleCodec

set_option autoImplicit false

namespace Ams

open Lib Lib.ByteReader
open List (append_assoc length_append length_cons nil_append)

/-! ## Texts -/

/-- The text has no NUL. -/
def NulFree (s : String) : Prop := (Char.ofNat 0) ∉ s.toList

instance (s : String) : Decidable (NulFree s) := inferInstanceAs (Decidable (_ ∉ _))

theorem zero_not_mem_utf8EncodeChar {c : Char} (h : c ≠ Char.ofNat 0) :
    (0 : UInt8) ∉ String.utf8EncodeChar c := by
  have hv : c.val.toNat ≠ 0 := by
    intro heq
    apply h
    apply Char.ext
    apply UInt32.toNat_inj.mp
    rw [heq]
    rfl
  have hbyte : ∀ n, 0 < n → n < 256 → (0 : UInt8) ≠ UInt8.ofNat n := by
    intro n hpos hlt heq
    have hnat : (UInt8.ofNat n).toNat = n := UInt8.toNat_ofNat_of_lt' hlt
    rw [← heq] at hnat
    have : (0 : UInt8).toNat = 0 := rfl
    omega
  unfold String.utf8EncodeChar
  simp only
  split_ifs with h1 h2 h3
  all_goals
    simp only [List.mem_cons, List.not_mem_nil, or_false, not_or]
  · exact hbyte _ (by omega) (by omega)
  · exact ⟨hbyte _ (by omega) (by omega), hbyte _ (by omega) (by omega)⟩
  · exact ⟨hbyte _ (by omega) (by omega), hbyte _ (by omega) (by omega),
      hbyte _ (by omega) (by omega)⟩
  · exact ⟨hbyte _ (by omega) (by omega), hbyte _ (by omega) (by omega),
      hbyte _ (by omega) (by omega), hbyte _ (by omega) (by omega)⟩

theorem utf8_eq_flatMap (s : String) : Datum.utf8 s = s.toList.flatMap String.utf8EncodeChar := by
  unfold Datum.utf8
  rw [← String.utf8Encode_toList]
  unfold List.utf8Encode
  simp

/-- A character has at most four bytes. -/
theorem length_utf8_le (s : String) : (Datum.utf8 s).length ≤ 4 * s.toList.length := by
  have hchar : ∀ c : Char, (String.utf8EncodeChar c).length ≤ 4 := by
    intro c
    unfold String.utf8EncodeChar
    simp only
    split_ifs <;> simp
  rw [utf8_eq_flatMap, List.length_flatMap]
  induction s.toList with
  | nil => simp
  | cons c l ih =>
    have := hchar c
    rw [List.map_cons, List.sum_cons, length_cons]
    omega

/-- Only NUL has a zero byte in UTF-8. -/
theorem NulFree.bytes {s : String} (h : NulFree s) : (0 : UInt8) ∉ Datum.utf8 s := by
  rw [utf8_eq_flatMap]
  intro hmem
  obtain ⟨c, hc, hzero⟩ := List.mem_flatMap.mp hmem
  exact zero_not_mem_utf8EncodeChar (fun heq => h (by rw [← heq]; exact hc)) hzero

theorem nulFree_append {s t : String} (hs : NulFree s) (ht : NulFree t) : NulFree (s ++ t) := by
  unfold NulFree
  rw [String.toList_append, List.mem_append]
  exact fun h => h.elim hs ht

theorem nulFree_toString (n : ℕ) : NulFree (toString n) := by
  unfold NulFree
  rw [Nat.toString_eq_repr, Nat.toList_repr]
  intro hmem
  have hdigit := Nat.isDigit_of_mem_toDigits (by decide) (by decide) hmem
  exact absurd hdigit (by decide)

theorem length_toString_le {n : ℕ} (h : n < 2 ^ 64) : (toString n).toList.length ≤ 20 := by
  rw [Nat.toString_eq_repr, Nat.toList_repr]
  exact (Nat.length_toDigits_le_iff (by norm_num) (by norm_num)).mpr (by norm_num at h ⊢; omega)

/-! ## Encoding -/

abbrev STATUS_IDLE : UInt8 := 0x49

abbrev STATUS_IN_TXN : UInt8 := 0x54

/-- A field of a `RowDescription`. -/
structure FieldDesc where
  name : String
  table_oid : ℕ
  attnum : ℤ
  type_oid : ℕ
  type_len : ℤ
  type_modifier : ℤ
  format : ℤ
deriving DecidableEq

/-- The body's length is cast to `u32`. -/
def put_msg (buf : List UInt8) (tag : UInt8) (body : List UInt8) : List UInt8 :=
  buf ++ (tag :: beBytes 4 (body.length + 4)) ++ body

def put_cstring (body : List UInt8) (s : String) : List UInt8 := body ++ Datum.utf8 s ++ [0]

def ready_for_query (buf : List UInt8) (status : UInt8) : List UInt8 := put_msg buf 0x5A [status]

/-- What `row_description` writes for a field. -/
def put_field (body : List UInt8) (f : FieldDesc) : List UInt8 :=
  put_cstring body f.name ++ beBytes 4 f.table_oid ++ beInt 2 f.attnum ++ beBytes 4 f.type_oid ++
    beInt 2 f.type_len ++ beInt 4 f.type_modifier ++ beInt 2 f.format

/-- The number of fields is cast to `i16`. -/
def row_description (buf : List UInt8) (fields : List FieldDesc) : List UInt8 :=
  put_msg buf 0x54 (fields.foldl put_field (beBytes 2 fields.length))

/-- What `data_row` writes for a value; a length is cast to `i32`. -/
def put_value (body : List UInt8) : Option (List UInt8) → List UInt8
  | none => body ++ beInt 4 (-1)
  | some bytes => body ++ beBytes 4 bytes.length ++ bytes

/-- The number of values is cast to `i16`. -/
def data_row (buf : List UInt8) (values : List (Option (List UInt8))) : List UInt8 :=
  put_msg buf 0x44 (values.foldl put_value (beBytes 2 values.length))

def command_complete (buf : List UInt8) (tag : String) : List UInt8 :=
  put_msg buf 0x43 (put_cstring [] tag)

def error_response (buf : List UInt8) (severity sqlstate message : String) : List UInt8 :=
  let body := put_cstring [0x53] severity
  let body := put_cstring (body ++ [0x56]) severity
  let body := put_cstring (body ++ [0x43]) sqlstate
  let body := put_cstring (body ++ [0x4D]) message
  put_msg buf 0x45 (body ++ [0])

def empty_query_response (buf : List UInt8) : List UInt8 := put_msg buf 0x49 []

/-! ## The protocol's messages -/

/-- A field of a `RowDescription`, as read. -/
structure WireField where
  name : List UInt8
  table_oid : ℕ
  attnum : ℤ
  type_oid : ℕ
  type_len : ℤ
  type_modifier : ℤ
  format : ℤ
deriving DecidableEq

/-- The messages a server may answer a simple query with. -/
inductive BackendMessage where
  | RowDescription (fields : List WireField)
  | DataRow (values : List (Option (List UInt8)))
  | CommandComplete (tag : List UInt8)
  | ErrorResponse (fields : List (UInt8 × List UInt8))
  | EmptyQueryResponse
  | ReadyForQuery (status : UInt8)
deriving DecidableEq

namespace BackendMessage

def read_field : ByteReader WireField := do
  let name ← cstring
  let table_oid ← unsigned 4
  let attnum ← int 2
  let type_oid ← unsigned 4
  let type_len ← int 2
  let type_modifier ← int 4
  let format ← int 2
  pure ⟨name, table_oid, attnum, type_oid, type_len, type_modifier, format⟩

/-- A length of `-1` is a NULL; no other is negative. -/
def read_value : ByteReader (Option (List UInt8)) := do
  let len ← int 4
  if len = -1 then pure none
  else if len < 0 then ByteReader.fail
  else
    let bytes ← ByteReader.take len.toNat
    pure (some bytes)

/-- A count, then as many values. -/
def read_counted {α : Type} (p : ByteReader α) : ByteReader (List α) := do
  let n ← int 2
  if n < 0 then ByteReader.fail else times p n.toNat

/-- Fields of an `ErrorResponse`, to the zero byte that ends them. -/
def read_error_fields : ℕ → ByteReader (List (UInt8 × List UInt8))
  | 0 => ByteReader.fail
  | fuel + 1 => do
    let code ← unsigned 1
    if code = 0 then pure []
    else
      let text ← cstring
      let rest ← read_error_fields fuel
      pure ((UInt8.ofNat code, text) :: rest)

/-- The body of a message with the given tag, which must be used up. -/
def read_body (tag : ℕ) (body : List UInt8) : Option BackendMessage :=
  if tag = 0x54 then ((read_counted read_field).whole body).map .RowDescription
  else if tag = 0x44 then ((read_counted read_value).whole body).map .DataRow
  else if tag = 0x43 then (cstring.whole body).map .CommandComplete
  else if tag = 0x45 then ((read_error_fields body.length).whole body).map .ErrorResponse
  else if tag = 0x49 then if body = [] then some .EmptyQueryResponse else none
  else if tag = 0x5A then ((unsigned 1).whole body).map fun s => .ReadyForQuery (UInt8.ofNat s)
  else none

/-- What follows the tag and the length. The length counts itself. -/
def read_sized (tag len : ℕ) : ByteReader BackendMessage :=
  if len < 4 then ByteReader.fail
  else do
    let body ← ByteReader.take (len - 4)
    ByteReader.ofOption (read_body tag body)

/-- A message: a tag, a length, and a body of that length. -/
def read : ByteReader BackendMessage := do
  let tag ← unsigned 1
  let len ← unsigned 4
  read_sized tag len

end BackendMessage

open BackendMessage

/-! ## Round trips -/

theorem reads_byte (b : UInt8) : Reads (unsigned 1) [b] b.toNat := by
  have h := @reads_unsigned 1 b.toNat b.toNat_lt
  have hb : beBytes 1 b.toNat = [b] := by simp [beBytes, leBytes]
  rwa [hb] at h

/-- A message reads back if its body does and its length fits in 32 bits. -/
theorem reads_put_msg {tag : UInt8} {body : List UInt8} {m : BackendMessage}
    (hbody : read_body tag.toNat body = some m) (hlen : body.length + 4 < 2 ^ 32) :
    Reads BackendMessage.read (put_msg [] tag body) m := by
  have hl : Reads (unsigned 4) (beBytes 4 (body.length + 4)) (body.length + 4) :=
    reads_unsigned (by norm_num at hlen ⊢; exact hlen)
  have hrest : Reads (read_sized tag.toNat (body.length + 4)) body m := by
    unfold read_sized
    rw [if_neg (by omega)]
    have h := (@reads_take (body.length + 4 - 4) body (by omega)).bind
      (f := fun body => ByteReader.ofOption (read_body tag.toNat body)) (reads_ofOption hbody)
    rwa [List.append_nil] at h
  have hmsg := (reads_byte tag).bind (f := fun tag => unsigned 4 >>= read_sized tag) (hl.bind hrest)
  rw [put_msg, nil_append, List.cons_append]
  exact hmsg

/-- A message whose body does not read is no message, whatever follows. -/
theorem read_put_msg_eq_none {tag : UInt8} {body : List UInt8}
    (hbody : read_body tag.toNat body = none) (hlen : body.length + 4 < 2 ^ 32)
    (rest : List UInt8) : BackendMessage.read (put_msg [] tag body ++ rest) = none := by
  have hl : Reads (unsigned 4) (beBytes 4 (body.length + 4)) (body.length + 4) :=
    reads_unsigned (by norm_num at hlen ⊢; exact hlen)
  have hbytes : put_msg [] tag body ++ rest =
      [tag] ++ (beBytes 4 (body.length + 4) ++ (body ++ rest)) := by
    simp [put_msg]
  rw [hbytes, BackendMessage.read, bind_apply, reads_byte tag _, Option.bind_some, bind_apply, hl _,
    Option.bind_some, read_sized, if_neg (by omega), bind_apply,
    @reads_take (body.length + 4 - 4) body (by omega) rest, Option.bind_some, hbody]
  rfl

theorem put_msg_eq (buf : List UInt8) (tag : UInt8) (body : List UInt8) :
    put_msg buf tag body = buf ++ put_msg [] tag body := by
  simp only [put_msg, nil_append, append_assoc]

theorem put_msg_ne_nil (tag : UInt8) (body : List UInt8) : put_msg [] tag body ≠ [] := by
  simp [put_msg]

/-! ### Row descriptions -/

/-- The field as a client reads it. -/
def FieldDesc.wire (f : FieldDesc) : WireField :=
  ⟨Datum.utf8 f.name, f.table_oid, f.attnum, f.type_oid, f.type_len, f.type_modifier, f.format⟩

/-- The name has no NUL and the numbers are in the range of their machine types. -/
structure FieldDesc.Ok (f : FieldDesc) : Prop where
  name : NulFree f.name
  table_oid : f.table_oid < 2 ^ 32
  attnum : -2 ^ 15 ≤ f.attnum ∧ f.attnum < 2 ^ 15
  type_oid : f.type_oid < 2 ^ 32
  type_len : -2 ^ 15 ≤ f.type_len ∧ f.type_len < 2 ^ 15
  type_modifier : -2 ^ 31 ≤ f.type_modifier ∧ f.type_modifier < 2 ^ 31
  format : -2 ^ 15 ≤ f.format ∧ f.format < 2 ^ 15

theorem foldl_append {α : Type} (put : List UInt8 → α → List UInt8) (enc : α → List UInt8)
    (h : ∀ body a, put body a = body ++ enc a) (body : List UInt8) (as : List α) :
    as.foldl put body = body ++ as.flatMap enc := by
  induction as generalizing body with
  | nil => simp
  | cons a as ih => rw [List.foldl_cons, ih, h, List.flatMap_cons, append_assoc]

theorem put_field_eq (body : List UInt8) (f : FieldDesc) :
    put_field body f = body ++ put_field [] f := by
  simp only [put_field, put_cstring, nil_append, append_assoc]

theorem length_put_field (f : FieldDesc) :
    (put_field [] f).length = (Datum.utf8 f.name).length + 19 := by
  simp [put_field, put_cstring]

theorem reads_field {f : FieldDesc} (h : f.Ok) : Reads read_field (put_field [] f) f.wire := by
  have hname := reads_cstring h.name.bytes
  have hoid : Reads (unsigned 4) (beBytes 4 f.table_oid) f.table_oid :=
    reads_unsigned (lt_of_lt_of_eq h.table_oid (by norm_num))
  have htype : Reads (unsigned 4) (beBytes 4 f.type_oid) f.type_oid :=
    reads_unsigned (lt_of_lt_of_eq h.type_oid (by norm_num))
  have hint2 : ∀ {i : ℤ}, -2 ^ 15 ≤ i ∧ i < 2 ^ 15 → Reads (int 2) (beInt 2 i) i := by
    rintro i ⟨hlo, hhi⟩
    exact reads_int (by norm_num at hlo ⊢; omega) (by norm_num at hhi ⊢; omega)
  have hmod : Reads (int 4) (beInt 4 f.type_modifier) f.type_modifier := by
    obtain ⟨hlo, hhi⟩ := h.type_modifier
    exact reads_int (by norm_num at hlo ⊢; omega) (by norm_num at hhi ⊢; omega)
  have hbytes : put_field [] f = (Datum.utf8 f.name ++ [0]) ++ (beBytes 4 f.table_oid ++
      (beInt 2 f.attnum ++ (beBytes 4 f.type_oid ++ (beInt 2 f.type_len ++
        (beInt 4 f.type_modifier ++ beInt 2 f.format))))) := by
    simp only [put_field, put_cstring, nil_append, append_assoc]
  rw [hbytes]
  unfold read_field
  refine hname.bind (hoid.bind ?_)
  refine (hint2 h.attnum).bind (htype.bind ?_)
  refine (hint2 h.type_len).bind (hmod.bind ?_)
  exact (hint2 h.format).bind_pure

/-- A count that fits in 15 bits, and the values behind it. -/
theorem reads_counted {α β : Type} {p : ByteReader β} {enc : α → List UInt8} {val : α → β} {as : List α}
    (hlen : as.length < 2 ^ 15) (h : ∀ a ∈ as, Reads p (enc a) (val a)) :
    Reads (read_counted p) (beBytes 2 as.length ++ as.flatMap enc) (as.map val) := by
  have hcount : Reads (int 2) (beBytes 2 as.length) (as.length : ℤ) := by
    have hi := @reads_int 2 (as.length : ℤ) (by norm_num; omega) (by norm_num; omega)
    have hb : beInt 2 (as.length : ℤ) = beBytes 2 as.length := by
      unfold beInt
      congr 1
      rw [Int.emod_eq_of_lt (by omega) (by norm_num; omega), Int.toNat_natCast]
    rwa [hb] at hi
  unfold read_counted
  refine hcount.bind ?_
  rw [if_neg (by omega), Int.toNat_natCast]
  exact reads_times_map h

theorem reads_row_description {fields : List FieldDesc} (hcount : fields.length < 2 ^ 15)
    (hok : ∀ f ∈ fields, f.Ok)
    (hlen : (fields.map fun f => (Datum.utf8 f.name).length + 19).sum + 6 < 2 ^ 32) :
    Reads BackendMessage.read (row_description [] fields) (.RowDescription (fields.map FieldDesc.wire)) := by
  have hbody : fields.foldl put_field (beBytes 2 fields.length) =
      beBytes 2 fields.length ++ fields.flatMap (put_field []) :=
    foldl_append _ _ put_field_eq _ _
  unfold row_description
  apply reads_put_msg
  · have hread := (reads_counted hcount fun f hf => reads_field (hok f hf)).whole
    rw [hbody]
    change ((read_counted read_field).whole _).map _ = _
    rw [hread]
    rfl
  · rw [hbody, length_append, length_beBytes, List.length_flatMap]
    simp only [length_put_field]
    omega

/-- A count that is a multiple of `2^16` is written as 0, and the fields are left over. -/
theorem read_row_description_wrapped {fields : List FieldDesc} (hne : fields ≠ [])
    (hmod : fields.length % 2 ^ 16 = 0) :
    read_body 0x54 (fields.foldl put_field (beBytes 2 fields.length)) = none := by
  rw [foldl_append _ _ put_field_eq]
  change ((read_counted read_field).whole _).map _ = none
  have hcount : (int 2) (beBytes 2 fields.length ++ fields.flatMap (put_field [])) =
      some (0, fields.flatMap (put_field [])) := by
    unfold int
    rw [reads_take (length_beBytes 2 fields.length), Option.map_some, ofBe_beBytes]
    norm_num at hmod ⊢
    rw [hmod]
    rfl
  have hread : read_counted read_field (beBytes 2 fields.length ++ fields.flatMap (put_field [])) =
      some ([], fields.flatMap (put_field [])) := by
    rw [read_counted, bind_apply, hcount]
    rfl
  obtain ⟨f, fs, rfl⟩ := List.exists_cons_of_ne_nil hne
  obtain ⟨b, bs, hb⟩ := List.exists_cons_of_ne_nil
    (List.ne_nil_of_length_pos (l := put_field [] f) (by rw [length_put_field]; omega))
  unfold ByteReader.whole
  rw [hread, List.flatMap_cons, hb]
  rfl

/-! ### Data rows -/

/-- What is read for a value. -/
theorem put_value_eq (body : List UInt8) (v : Option (List UInt8)) :
    put_value body v = body ++ put_value [] v := by
  cases v with
  | none => rfl
  | some bytes => simp only [put_value, nil_append, append_assoc]

theorem reads_value {v : Option (List UInt8)} (h : ∀ bytes, v = some bytes → bytes.length < 2 ^ 31) :
    Reads read_value (put_value [] v) v := by
  unfold read_value
  cases v with
  | none =>
    have hnull := @reads_int 4 (-1) (by norm_num) (by norm_num)
    have hread := hnull.bind (f := fun len => if len = -1 then pure none
      else if len < 0 then ByteReader.fail
      else ByteReader.take len.toNat >>= fun bytes => pure (some bytes))
      (by rw [if_pos rfl]; exact reads_pure none)
    rwa [List.append_nil] at hread
  | some bytes =>
    have hb := h bytes rfl
    have hlen : Reads (int 4) (beBytes 4 bytes.length) (bytes.length : ℤ) := by
      have hi := @reads_int 4 (bytes.length : ℤ) (by norm_num; omega) (by norm_num; omega)
      have hbe : beInt 4 (bytes.length : ℤ) = beBytes 4 bytes.length := by
        unfold beInt
        congr 1
        rw [Int.emod_eq_of_lt (by omega) (by norm_num; omega), Int.toNat_natCast]
      rwa [hbe] at hi
    rw [put_value, nil_append]
    refine hlen.bind ?_
    rw [if_neg (by omega), if_neg (by omega), Int.toNat_natCast]
    exact (reads_take rfl).bind_pure

theorem reads_data_row {values : List (Option (List UInt8))} (hcount : values.length < 2 ^ 15)
    (hval : ∀ bytes, some bytes ∈ values → bytes.length < 2 ^ 31)
    (hlen : (values.map fun v => (put_value [] v).length).sum + 6 < 2 ^ 32) :
    Reads BackendMessage.read (data_row [] values) (.DataRow values) := by
  have hbody : values.foldl put_value (beBytes 2 values.length) =
      beBytes 2 values.length ++ values.flatMap (put_value []) :=
    foldl_append _ _ put_value_eq _ _
  unfold data_row
  apply reads_put_msg
  · have hread := (@reads_counted _ _ read_value (put_value []) id values hcount fun v hv =>
      reads_value fun bytes heq => hval bytes (by rw [← heq]; exact hv)).whole
    rw [List.map_id] at hread
    rw [hbody]
    change ((read_counted read_value).whole _).map _ = _
    rw [hread]
    rfl
  · rw [hbody, length_append, length_beBytes, List.length_flatMap]
    omega

/-! ### The other messages -/

theorem reads_command_complete {tag : String} (hnul : NulFree tag)
    (hlen : (Datum.utf8 tag).length + 5 < 2 ^ 32) :
    Reads BackendMessage.read (command_complete [] tag) (.CommandComplete (Datum.utf8 tag)) := by
  unfold command_complete
  apply reads_put_msg
  · change (cstring.whole ([] ++ Datum.utf8 tag ++ [0])).map _ = _
    rw [nil_append, (reads_cstring hnul.bytes).whole]
    rfl
  · simp only [put_cstring, nil_append, length_append, List.length_singleton]
    omega

theorem reads_ready_for_query (status : UInt8) :
    Reads BackendMessage.read (ready_for_query [] status) (.ReadyForQuery status) := by
  apply reads_put_msg
  · change ((unsigned 1).whole [status]).map (fun s => ReadyForQuery (UInt8.ofNat s)) = _
    rw [(reads_byte status).whole]
    simp
  · simp

theorem reads_empty_query_response :
    Reads BackendMessage.read (empty_query_response []) .EmptyQueryResponse :=
  reads_put_msg rfl (by simp)

/-- The fields of an error, as a client reads them. -/
def error_fields (severity sqlstate message : String) : List (UInt8 × List UInt8) :=
  [(0x53, Datum.utf8 severity), (0x56, Datum.utf8 severity), (0x43, Datum.utf8 sqlstate),
    (0x4D, Datum.utf8 message)]

def put_error_field (f : UInt8 × List UInt8) : List UInt8 := f.1 :: (f.2 ++ [0])

theorem reads_error_fields {fields : List (UInt8 × List UInt8)}
    (h : ∀ f ∈ fields, f.1 ≠ 0 ∧ (0 : UInt8) ∉ f.2) {fuel : ℕ} (hfuel : fields.length < fuel) :
    Reads (read_error_fields fuel) (fields.flatMap put_error_field ++ [0]) fields := by
  obtain ⟨n, rfl⟩ : ∃ n, fuel = n + 1 := ⟨fuel - 1, by omega⟩
  rw [read_error_fields]
  induction fields generalizing n with
  | nil =>
    have hend := (reads_byte 0).bind (f := fun code => if code = 0 then pure [] else do
      let text ← cstring
      let rest ← read_error_fields n
      pure ((UInt8.ofNat code, text) :: rest)) (by rw [if_pos (by rfl)]; exact reads_pure [])
    exact hend
  | cons f fields ih =>
    obtain ⟨hcode, htext⟩ := h f (.head _)
    obtain ⟨k, rfl⟩ : ∃ k, n = k + 1 := ⟨n - 1, by rw [length_cons] at hfuel; omega⟩
    have htail := ih (fun g hg => h g (.tail _ hg)) k
      (by rw [length_cons] at hfuel; omega)
    have hbytes : (f :: fields).flatMap put_error_field ++ [0] =
        [f.1] ++ ((f.2 ++ [0]) ++ (fields.flatMap put_error_field ++ [0])) := by
      simp [put_error_field]
    rw [hbytes]
    refine (reads_byte f.1).bind ?_
    rw [if_neg fun heq => hcode (by rw [← UInt8.toNat_inj, heq]; rfl), read_error_fields]
    refine (reads_cstring htext).bind ?_
    have hlast := htail.bind_pure (f := fun rest => (UInt8.ofNat f.1.toNat, f.2) :: rest)
    rw [UInt8.ofNat_toNat] at hlast ⊢
    exact hlast

theorem reads_error_response {severity sqlstate message : String} (hsev : NulFree severity)
    (hstate : NulFree sqlstate) (hmsg : NulFree message)
    (hlen : 2 * (Datum.utf8 severity).length + (Datum.utf8 sqlstate).length +
      (Datum.utf8 message).length + 13 < 2 ^ 32) :
    Reads BackendMessage.read (error_response [] severity sqlstate message)
      (.ErrorResponse (error_fields severity sqlstate message)) := by
  have hfields : ∀ f ∈ error_fields severity sqlstate message, f.1 ≠ 0 ∧ (0 : UInt8) ∉ f.2 := by
    intro f hf
    simp only [error_fields, List.mem_cons, List.not_mem_nil, or_false] at hf
    rcases hf with rfl | rfl | rfl | rfl
    · exact ⟨by simp, hsev.bytes⟩
    · exact ⟨by simp, hsev.bytes⟩
    · exact ⟨by simp, hstate.bytes⟩
    · exact ⟨by simp, hmsg.bytes⟩
  have hbody : error_response [] severity sqlstate message = put_msg [] 0x45
      ((error_fields severity sqlstate message).flatMap put_error_field ++ [0]) := by
    simp [error_response, error_fields, put_cstring, put_error_field]
  have hsize : ((error_fields severity sqlstate message).flatMap
      put_error_field ++ [0]).length = 2 * (Datum.utf8 severity).length +
      (Datum.utf8 sqlstate).length + (Datum.utf8 message).length + 9 := by
    simp only [error_fields, put_error_field, List.flatMap_cons, List.flatMap_nil, length_append,
      length_cons, List.length_nil]
    omega
  rw [hbody]
  apply reads_put_msg
  · change ((read_error_fields _).whole _).map ErrorResponse = _
    have hfuel : (error_fields severity sqlstate message).length <
        ((error_fields severity sqlstate message).flatMap put_error_field ++ [0]).length := by
      rw [hsize]
      simp only [error_fields, length_cons, List.length_nil]
      omega
    rw [(reads_error_fields hfields hfuel).whole]
    rfl
  · rw [hsize]
    omega

end Ams
