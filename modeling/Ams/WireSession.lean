/-
A connection's session: a query string is split into statements, each is run against the
engine, and the answers are written as backend messages.

The engine is an interface over an arbitrary state: any function may stand for a call, so
a theorem about every engine is one about every sequence of answers. The parser is one of
its functions. What the session does with the answers is the source's: transaction
control is intercepted, the first error ends the string, and a `ReadyForQuery` with the
transaction status closes the response.

# What is proved, and what it needs

The bytes appended are a sequence of messages, and only one. The proof carries two sets of
facts about the engine. `Answers` is what a response needs of any engine: texts without
NUL, rows as wide as their columns. `Fits` is what the codec's casts need and nobody
checks: at most 32767 columns, and lengths within 32 bits. A select list may name a column
65536 times; the count is then written as 0 (`wide_select_not_framed`).
-/
import Ams.WireCodec

set_option autoImplicit false

namespace Ams.Wire

open Lib Lib.ByteReader

/-! ## The engine's interface -/

/-- A parsed statement, as far as the wire looks at it. -/
inductive Statement where
  | Begin
  | Commit
  | Rollback
  | CreateTable
  | Insert
  | Select (table : String)
  | Update
  | Delete
  | CreateIndex
deriving DecidableEq

inductive EngineErrorKind where
  | Storage
  | Heap
  | Catalog
  | TableExists
  | TableNotFound
  | CatalogFull
  | InvalidArgument
  | InvalidPredicate
  | Corrupted
  | BTree
  | Hnsw
  | Lock
  | Unsupported
  | IndexExists
  | IndexNotFound
deriving DecidableEq

/-- An engine error with its `Display` text. -/
structure EngineError where
  kind : EngineErrorKind
  text : String
deriving DecidableEq

inductive QueryResult where
  | Rows (columns : List String) (rows : List (List (Option Datum)))
  | Affected (n : UInt64)
  | Ok

structure TableEntry where
  oid : ℕ
  columns : List (String × ColumnType)

/-- The engine as a session calls it. `show_f32` is the display of a float. -/
structure EngineApi (σ H : Type) where
  parse : String → Except EngineError Statement
  begin_txn : σ → σ × Except EngineError H
  commit : σ → H → σ × Except EngineError Unit
  abort : σ → H → σ × Except EngineError Unit
  exec : σ → Option H → String → σ × Except EngineError QueryResult
  describe_table : σ → String → Option TableEntry
  show_f32 : BitVec 32 → String

/-- The session, over the engine's state. -/
structure Session (σ H : Type) where
  engine : σ
  txn : Option H

/-- SQLSTATE and message of a failed statement. -/
structure StatementError where
  sqlstate : String
  message : String
deriving DecidableEq

def sqlstate_of (err : EngineError) : String :=
  match err.kind with
  | .TableNotFound => "42P01"
  | .TableExists => "42P07"
  | .IndexNotFound => "42P01"
  | .IndexExists => "42P07"
  | .Unsupported => "0A000"
  | .InvalidArgument => "42601"
  | .InvalidPredicate => "42601"
  | _ => "XX000"

def StatementError.engine (err : EngineError) : StatementError := ⟨sqlstate_of err, err.text⟩

/-! ## Splitting a query -/

abbrev QUOTE : Char := Char.ofNat 0x27

/-- The loop of `split_statements`; `current` is the piece begun. -/
def split_from : Bool → List Char → List Char → List (List Char)
  | _, current, [] => [current]
  | in_quote, current, c :: rest =>
    if c = QUOTE ∧ in_quote then
      match rest with
      | [] => split_from false (current ++ [c]) []
      | d :: tail =>
        -- a doubled quote is an escaped quote
        if d = QUOTE then split_from true (current ++ [c, d]) tail
        else split_from false (current ++ [c]) (d :: tail)
    else if c = QUOTE then split_from true (current ++ [c]) rest
    else if c = ';' ∧ ¬ in_quote then current :: split_from false [] rest
    else split_from in_quote (current ++ [c]) rest

def split_statements (sql : String) : List String :=
  (split_from false [] sql.toList).map String.ofList

/-- `char::is_whitespace`: the Unicode property `White_Space`. -/
def is_whitespace (c : Char) : Bool :=
  let n := c.toNat
  (9 ≤ n && n ≤ 13) || n == 0x20 || n == 0x85 || n == 0xA0 || n == 0x1680 ||
    (0x2000 ≤ n && n ≤ 0x200A) || n == 0x2028 || n == 0x2029 || n == 0x202F || n == 0x205F ||
    n == 0x3000

def trim (s : String) : String :=
  String.ofList ((s.toList.dropWhile is_whitespace).reverse.dropWhile is_whitespace).reverse

/-- The statements of a query string. -/
def statements (sql : String) : List String :=
  ((split_statements sql).map trim).filter (· ≠ "")

/-! ## Values and types -/

structure WireType where
  oid : ℕ
  len : ℤ

def wire_type : ColumnType → WireType
  | .Int4 => ⟨23, 4⟩
  | .Int8 => ⟨20, 8⟩
  | .Text => ⟨25, -1⟩
  | .Bytea => ⟨17, -1⟩
  | .Timestamptz => ⟨20, 8⟩
  | .Uuid => ⟨25, -1⟩
  | .Vector _ => ⟨25, -1⟩

/-- The type inferred from a value. -/
def column_type_of : Datum → ColumnType
  | .Int4 _ => .Int4
  | .Int8 _ => .Int8
  | .Text _ => .Text
  | .Bytea _ => .Bytea
  | .Timestamptz _ => .Timestamptz
  | .Uuid _ => .Uuid
  | .Vector v => .Vector (v.length % 2 ^ 32)
  | .External _ => .Text

def HEX : List UInt8 := Datum.utf8 "0123456789abcdef"

/-- The two hexadecimal digits of a byte. -/
def hex (byte : UInt8) : List UInt8 :=
  [HEX.getD (byte.toNat / 16) 0, HEX.getD (byte.toNat % 16) 0]

/-- `Uuid::to_string`: hyphens after bytes 4, 6, 8 and 10. -/
def uuid_text (v : Vector UInt8 16) : List UInt8 :=
  v.toList.zipIdx.flatMap fun (byte, i) =>
    (if i = 4 ∨ i = 6 ∨ i = 8 ∨ i = 10 then Datum.utf8 "-" else []) ++ hex byte

def TOAST_ERROR : StatementError :=
  ⟨"XX000", "encoding error: TOASTed value cannot be resolved on the wire (M3)"⟩

section Api

variable {σ H : Type} (E : EngineApi σ H)

/-- `encode_text`, with its error as the session reports it. -/
def encode_text : Datum → Except StatementError (List UInt8)
  | .Int4 v => .ok (Datum.utf8 (toString v.toInt))
  | .Int8 v => .ok (Datum.utf8 (toString v.toInt))
  | .Timestamptz us => .ok (Datum.utf8 (toString us.toInt))
  | .Uuid u => .ok (uuid_text u)
  | .Text s => .ok (Datum.utf8 s)
  | .Vector v =>
    .ok (Datum.utf8 "[" ++ (Datum.utf8 ",").intercalate (v.map fun x => Datum.utf8 (E.show_f32 x)) ++
      Datum.utf8 "]")
  | .Bytea b => .ok (Datum.utf8 "\\x" ++ b.flatMap hex)
  | .External _ => .error TOAST_ERROR

/-- `as i16`. -/
def as_i16 (n : ℤ) : ℤ := signed 2 (n % 2 ^ 16).toNat

/-- The table's OID, and number and type of the column, if the schema has it. -/
def resolve_column (schema : Option TableEntry) (name : String) : Option (ℕ × ℤ × ColumnType) :=
  schema.bind fun entry =>
    (entry.columns.zipIdx.find? fun c => c.1.1 = name).map fun c =>
      (entry.oid % 2 ^ 32, as_i16 (as_i16 c.2 + 1), c.1.2)

/-- The description of column `i`: from the schema, from the first value, or as text. -/
def field_desc (schema : Option TableEntry) (rows : List (List (Option Datum))) (i : ℕ)
    (name : String) : FieldDesc :=
  let r := (resolve_column schema name).getD (0, 0,
    ((rows.findSome? fun row => (row[i]?).join).map column_type_of).getD .Text)
  let wt := wire_type r.2.2
  { name := name, table_oid := r.1, attnum := r.2.1, type_oid := wt.oid, type_len := wt.len,
    type_modifier := -1, format := 0 }

def field_descs (g : σ) (stmt : Statement) (columns : List String)
    (rows : List (List (Option Datum))) : List FieldDesc :=
  let schema := match stmt with
    | .Select table => E.describe_table g table
    | _ => none
  columns.zipIdx.map fun c => field_desc schema rows c.2 c.1

/-- The values of a row, encoded. -/
def encode_row : List (Option Datum) → Except StatementError (List (Option (List UInt8)))
  | [] => .ok []
  | none :: row => (encode_row row).map (none :: ·)
  | some d :: row =>
    match encode_text E d with
    | .error e => .error e
    | .ok bytes => (encode_row row).map (some bytes :: ·)

/-- The loop over the rows; one that cannot be encoded ends it. -/
def write_rows : List (List (Option Datum)) → List UInt8 →
    List UInt8 × Except StatementError Unit
  | [], out => (out, .ok ())
  | row :: rows, out =>
    match encode_row E row with
    | .error e => (out, .error e)
    | .ok values => write_rows rows (data_row out values)

def write_result (g : σ) (stmt : Statement) (result : QueryResult) (out : List UInt8) :
    List UInt8 × Except StatementError Unit :=
  match result with
  | .Rows columns rows =>
    let out := row_description out (field_descs E g stmt columns rows)
    match write_rows E rows out with
    | (out, .error e) => (out, .error e)
    | (out, .ok ()) => (command_complete out ("SELECT " ++ toString rows.length), .ok ())
  | .Affected n =>
    let tag := match stmt with
      | .Insert => "INSERT 0 " ++ toString n.toNat
      | .Update => "UPDATE " ++ toString n.toNat
      | .Delete => "DELETE " ++ toString n.toNat
      | _ => "OK " ++ toString n.toNat
    (command_complete out tag, .ok ())
  | .Ok =>
    let tag := match stmt with
      | .CreateTable => "CREATE TABLE"
      | .CreateIndex => "CREATE INDEX"
      | _ => "OK"
    (command_complete out tag, .ok ())

/-! ## The session -/

namespace Session

def status_byte (s : Session σ H) : UInt8 := if s.txn.isSome then STATUS_IN_TXN else STATUS_IDLE

/-- `COMMIT` and `ROLLBACK`: the handle is taken, whatever the engine answers. -/
def end_txn (finish : σ → H → σ × Except EngineError Unit) (tag : String) (s : Session σ H)
    (out : List UInt8) : Session σ H × List UInt8 × Except StatementError Unit :=
  match s.txn with
  | none => (s, out, .error ⟨"25P01", "there is no transaction in progress"⟩)
  | some handle =>
    match finish s.engine handle with
    | (g, .ok ()) => (⟨g, none⟩, command_complete out tag, .ok ())
    | (g, .error e) => (⟨g, none⟩, out, .error (.engine e))

def handle_statement (s : Session σ H) (sql : String) (out : List UInt8) :
    Session σ H × List UInt8 × Except StatementError Unit :=
  match E.parse sql with
  | .error e => (s, out, .error (.engine e))
  | .ok .Begin =>
    if s.txn.isSome then
      (s, out, .error ⟨"25001", "there is already a transaction in progress"⟩)
    else
      match E.begin_txn s.engine with
      | (g, .ok handle) => (⟨g, some handle⟩, command_complete out "BEGIN", .ok ())
      | (g, .error e) => (⟨g, s.txn⟩, out, .error (.engine e))
  | .ok .Commit => s.end_txn E.commit "COMMIT" out
  | .ok .Rollback => s.end_txn E.abort "ROLLBACK" out
  | .ok stmt =>
    match E.exec s.engine s.txn sql with
    | (g, .error e) => (⟨g, s.txn⟩, out, .error (.engine e))
    | (g, .ok result) =>
      let r := write_result E g stmt result out
      (⟨g, s.txn⟩, r.1, r.2)

/-- The loop of `handle_query` over the pieces; `any` says that one was not empty. -/
def query_loop : List String → Bool → Session σ H → List UInt8 → Session σ H × Bool × List UInt8
  | [], any, s, out => (s, any, out)
  | piece :: rest, any, s, out =>
    if trim piece = "" then query_loop rest any s out
    else
      match s.handle_statement E (trim piece) out with
      | (s, out, .ok ()) => query_loop rest true s out
      | (s, out, .error e) => (s, true, error_response out "ERROR" e.sqlstate e.message)

def handle_query (s : Session σ H) (sql : String) (out : List UInt8) :
    Session σ H × List UInt8 :=
  let (s, any, out) := query_loop E (split_statements sql) false s out
  let out := if any then out else empty_query_response out
  (s, ready_for_query out s.status_byte)

end Session

end Api

/-! ## What the codec relies on -/

section Answers

variable {σ H : Type}

/-- The error of a call, if it failed, has a text without NUL. -/
def ErrorOk {α : Type} (r : Except EngineError α) : Prop := ∀ e, r = .error e → NulFree e.text

theorem errorOk_ok {α : Type} (a : α) : ErrorOk (.ok a) := fun _ h => absurd h (by simp)

/-- Engine answers a response can be made of: texts have no NUL, rows have as many
values as there are columns, and a vector of rows has a machine length. -/
structure EngineApi.Answers (E : EngineApi σ H) : Prop where
  parse : ∀ sql, NulFree sql → ErrorOk (E.parse sql)
  begin_txn : ∀ g, ErrorOk (E.begin_txn g).2
  commit : ∀ g h, ErrorOk (E.commit g h).2
  abort : ∀ g h, ErrorOk (E.abort g h).2
  exec : ∀ g h sql, ErrorOk (E.exec g h sql).2
  columns : ∀ g h sql columns rows, (E.exec g h sql).2 = .ok (.Rows columns rows) →
    ∀ name ∈ columns, NulFree name
  rows : ∀ g h sql columns rows, (E.exec g h sql).2 = .ok (.Rows columns rows) →
    rows.length < 2 ^ 64 ∧ ∀ row ∈ rows, row.length = columns.length

/-- The text of the error of a call leaves room for the other fields. -/
def ErrorFits {α : Type} (r : Except EngineError α) : Prop :=
  ∀ e, r = .error e → (Datum.utf8 e.text).length + 28 < 2 ^ 32

theorem errorFits_ok {α : Type} (a : α) : ErrorFits (.ok a) := fun _ h => absurd h (by simp)

/-- Rows whose counts and lengths fit where the codec writes them, none of their values
being out of line. -/
structure RowsFit (E : EngineApi σ H) (columns : List String) (rows : List (List (Option Datum))) :
    Prop where
  count : columns.length < 2 ^ 15
  names : (columns.map fun name => (Datum.utf8 name).length + 19).sum + 6 < 2 ^ 32
  inline : ∀ row ∈ rows, ∃ values, encode_row E row = .ok values
  values : ∀ row ∈ rows, ∀ values, encode_row E row = .ok values →
    (∀ bytes, some bytes ∈ values → bytes.length < 2 ^ 31) ∧
    (values.map fun v => (put_value [] v).length).sum + 6 < 2 ^ 32

/-- Engine answers within the codec's widths. -/
structure EngineApi.Fits (E : EngineApi σ H) : Prop where
  parse : ∀ sql, ErrorFits (E.parse sql)
  begin_txn : ∀ g, ErrorFits (E.begin_txn g).2
  commit : ∀ g h, ErrorFits (E.commit g h).2
  abort : ∀ g h, ErrorFits (E.abort g h).2
  exec : ∀ g h sql, ErrorFits (E.exec g h sql).2
  rows : ∀ g h sql columns rows, (E.exec g h sql).2 = .ok (.Rows columns rows) →
    RowsFit E columns rows

end Answers

/-! ## Responses -/

/-- The messages of a statement that succeeds: `CommandComplete`, or a result set. -/
inductive StatementBlock : List BackendMessage → Prop
  | complete (tag : List UInt8) : StatementBlock [.CommandComplete tag]
  | rows (fields : List WireField) (rows : List (List (Option (List UInt8)))) (tag : List UInt8)
      (hwidth : ∀ row ∈ rows, row.length = fields.length) :
      StatementBlock (.RowDescription fields :: rows.map .DataRow ++ [.CommandComplete tag])

/-- The bytes appended to `out`. -/
def Appends (out out' : List UInt8) (ms : List BackendMessage) : Prop :=
  ∃ bytes, out' = out ++ bytes ∧ Framed BackendMessage.read bytes ms

theorem Appends.refl (out : List UInt8) : Appends out out [] := ⟨[], by simp, .nil⟩

theorem Appends.trans {a b c : List UInt8} {ms ns : List BackendMessage} (h : Appends a b ms)
    (h' : Appends b c ns) : Appends a c (ms ++ ns) := by
  obtain ⟨x, rfl, hx⟩ := h
  obtain ⟨y, rfl, hy⟩ := h'
  exact ⟨x ++ y, by simp, hx.append hy⟩

/-- One message. -/
theorem appends_put_msg {tag : UInt8} {body : List UInt8} {m : BackendMessage}
    (h : Reads BackendMessage.read (put_msg [] tag body) m) (out : List UInt8) :
    Appends out (put_msg out tag body) [m] :=
  ⟨_, put_msg_eq out tag body, .single h (put_msg_ne_nil tag body)⟩

/-- A tag: a fixed word without NUL, and a number. -/
theorem appends_command_complete {word : String} (hnul : NulFree word)
    (hlen : word.toList.length ≤ 64) {n : ℕ} (hn : n < 2 ^ 64) (out : List UInt8) :
    Appends out (command_complete out (word ++ toString n))
      [.CommandComplete (Datum.utf8 (word ++ toString n))] := by
  apply appends_put_msg
  apply reads_command_complete (nulFree_append hnul (nulFree_toString n))
  have hbytes := length_utf8_le (word ++ toString n)
  rw [String.toList_append, List.length_append] at hbytes
  have hdigits := length_toString_le hn
  omega

/-- A tag without a number. -/
theorem appends_command_complete_word {word : String} (hnul : NulFree word)
    (hlen : word.toList.length ≤ 64) (out : List UInt8) :
    Appends out (command_complete out word) [.CommandComplete (Datum.utf8 word)] := by
  apply appends_put_msg
  apply reads_command_complete hnul
  have hbytes := length_utf8_le word
  omega

section Proofs

variable {σ H : Type} {E : EngineApi σ H}

theorem as_i16_range (n : ℤ) : -2 ^ 15 ≤ as_i16 n ∧ as_i16 n < 2 ^ 15 := by
  unfold as_i16 signed
  have h0 : 0 ≤ n % 2 ^ 16 := Int.emod_nonneg _ (by norm_num)
  have h1 : n % 2 ^ 16 < 2 ^ 16 := Int.emod_lt_of_pos _ (by norm_num)
  norm_num at h0 h1 ⊢
  split_ifs <;> omega

theorem wire_type_range (ty : ColumnType) :
    (wire_type ty).oid < 2 ^ 32 ∧ -2 ^ 15 ≤ (wire_type ty).len ∧ (wire_type ty).len < 2 ^ 15 := by
  cases ty <;> simp [wire_type]

/-- Every description has its numbers in range, whatever schema it is made from. -/
theorem field_desc_ok {schema : Option TableEntry} {rows : List (List (Option Datum))} {i : ℕ}
    {name : String} (hnul : NulFree name) : (field_desc schema rows i name).Ok := by
  have hres : (∀ ty, ((resolve_column schema name).getD (0, 0, ty)).1 < 2 ^ 32) ∧
      ∀ ty, -2 ^ 15 ≤ ((resolve_column schema name).getD (0, 0, ty)).2.1 ∧
        ((resolve_column schema name).getD (0, 0, ty)).2.1 < 2 ^ 15 := by
    cases hr : resolve_column schema name with
    | none => simp
    | some r =>
      obtain ⟨entry, -, hr⟩ := Option.bind_eq_some_iff.mp hr
      obtain ⟨c, -, rfl⟩ := Option.map_eq_some_iff.mp hr
      exact ⟨fun _ => Nat.mod_lt _ (by norm_num), fun _ => as_i16_range _⟩
  exact ⟨hnul, hres.1 _, hres.2 _, (wire_type_range _).1, (wire_type_range _).2, by norm_num [field_desc],
    by norm_num [field_desc]⟩

theorem field_descs_names (g : σ) (stmt : Statement) (columns : List String)
    (rows : List (List (Option Datum))) :
    ((field_descs E g stmt columns rows).map fun f => (Datum.utf8 f.name).length + 19) =
      columns.map fun name => (Datum.utf8 name).length + 19 := by
  conv_rhs => rw [← List.zipIdx_map_fst 0 columns, List.map_map]
  unfold field_descs
  rw [List.map_map]
  rfl

theorem length_field_descs (g : σ) (stmt : Statement) (columns : List String)
    (rows : List (List (Option Datum))) :
    (field_descs E g stmt columns rows).length = columns.length := by
  simp [field_descs]

theorem length_encode_row {row : List (Option Datum)} {values : List (Option (List UInt8))}
    (h : encode_row E row = .ok values) : values.length = row.length := by
  induction row generalizing values with
  | nil =>
    rw [encode_row] at h
    cases h
    rfl
  | cons v row ih =>
    have hmap : ∀ {x : Option (List UInt8)}, (encode_row E row).map (x :: ·) = .ok values →
        values.length = row.length + 1 := by
      intro x hx
      cases hr : encode_row E row with
      | error e => rw [hr] at hx; exact absurd hx (by simp [Except.map])
      | ok vs =>
        rw [hr] at hx
        cases hx
        rw [List.length_cons, ih hr]
    cases v with
    | none => exact hmap (by rw [encode_row] at h; exact h)
    | some d =>
      rw [encode_row] at h
      split at h
      · cases h
      · next bytes hd =>
        exact hmap h

/-- The loop over rows that all encode. -/
theorem write_rows_spec {width : ℕ} (hwidth : width < 2 ^ 15) {rows : List (List (Option Datum))}
    (hlen : ∀ row ∈ rows, row.length = width)
    (hinline : ∀ row ∈ rows, ∃ values, encode_row E row = .ok values)
    (hfit : ∀ row ∈ rows, ∀ values, encode_row E row = .ok values →
      (∀ bytes, some bytes ∈ values → bytes.length < 2 ^ 31) ∧
      (values.map fun v => (put_value [] v).length).sum + 6 < 2 ^ 32) (out : List UInt8) :
    (write_rows E rows out).2 = .ok () ∧ ∃ vals : List (List (Option (List UInt8))),
      (∀ row ∈ vals, row.length = width) ∧
      Appends out (write_rows E rows out).1 (vals.map .DataRow) := by
  induction rows generalizing out with
  | nil => exact ⟨rfl, [], by simp, .refl out⟩
  | cons row rows ih =>
    obtain ⟨values, henc⟩ := hinline row (.head _)
    obtain ⟨hval, hsum⟩ := hfit row (.head _) values henc
    have hcount : values.length = width :=
      (length_encode_row henc).trans (hlen row (.head _))
    rw [write_rows, henc]
    simp only
    obtain ⟨hok, vals, hvals, happ⟩ := ih (fun r hr => hlen r (.tail _ hr))
      (fun r hr => hinline r (.tail _ hr))
      (fun r hr => hfit r (.tail _ hr)) (data_row out values)
    refine ⟨hok, values :: vals, ?_, ?_⟩
    · intro r hr
      rcases List.mem_cons.mp hr with rfl | hr
      · exact hcount
      · exact hvals r hr
    · exact (appends_put_msg (reads_data_row (by omega) hval hsum) out).trans happ

/-- A result is written as one block. -/
theorem write_result_spec {g : σ} {stmt : Statement} {result : QueryResult}
    (hrows : ∀ columns rows, result = .Rows columns rows → RowsFit E columns rows ∧
      (∀ name ∈ columns, NulFree name) ∧ rows.length < 2 ^ 64 ∧
      ∀ row ∈ rows, row.length = columns.length) (out : List UInt8) :
    (write_result E g stmt result out).2 = .ok () ∧
    ∃ block, StatementBlock block ∧ Appends out (write_result E g stmt result out).1 block := by
  cases result with
  | Rows columns rows =>
    obtain ⟨hfit, hnames, hlen, hwidth⟩ := hrows columns rows rfl
    have hfields := @length_field_descs _ _ E g stmt columns rows
    have hdesc : Appends out (row_description out (field_descs E g stmt columns rows))
        [.RowDescription ((field_descs E g stmt columns rows).map FieldDesc.wire)] := by
      apply appends_put_msg
      apply reads_row_description (by rw [hfields]; exact hfit.count)
      · intro f hf
        obtain ⟨c, hc, rfl⟩ := List.mem_map.mp hf
        exact field_desc_ok (hnames _ (List.fst_mem_of_mem_zipIdx hc))
      · rw [field_descs_names]
        exact hfit.names
    obtain ⟨hok, vals, hvals, happ⟩ := write_rows_spec hfit.count hwidth hfit.inline hfit.values
      (row_description out (field_descs E g stmt columns rows))
    unfold write_result
    simp only
    rcases hw : write_rows E rows (row_description out (field_descs E g stmt columns rows)) with ⟨o, r⟩
    rw [hw] at hok happ
    simp only at hok happ
    subst hok
    simp only
    refine ⟨trivial, _, .rows _ vals _ ?_, (hdesc.trans happ).trans
      (@appends_command_complete "SELECT " (by decide) (by decide) _ hlen o)⟩
    rw [List.length_map, hfields]
    exact hvals
  | Affected n =>
    have htag : ∀ word : String, NulFree word → word.toList.length ≤ 64 →
        ∃ block, StatementBlock block ∧
          Appends out (command_complete out (word ++ toString n.toNat)) block :=
      fun word hnul hlen => ⟨_, .complete _, appends_command_complete hnul hlen n.toNat_lt out⟩
    refine ⟨rfl, ?_⟩
    cases stmt
    case Insert => exact htag "INSERT 0 " (by decide) (by decide)
    case Update => exact htag "UPDATE " (by decide) (by decide)
    case Delete => exact htag "DELETE " (by decide) (by decide)
    all_goals exact htag "OK " (by decide) (by decide)
  | Ok =>
    have htag : ∀ word : String, NulFree word → word.toList.length ≤ 64 →
        ∃ block, StatementBlock block ∧ Appends out (command_complete out word) block :=
      fun word hnul hlen => ⟨_, .complete _, appends_command_complete_word hnul hlen out⟩
    refine ⟨rfl, ?_⟩
    cases stmt
    case CreateTable => exact htag "CREATE TABLE" (by decide) (by decide)
    case CreateIndex => exact htag "CREATE INDEX" (by decide) (by decide)
    all_goals exact htag "OK" (by decide) (by decide)

/-- The error can be written. -/
structure StatementError.Writable (e : StatementError) : Prop where
  sqlstate : NulFree e.sqlstate
  sqlstate_len : (Datum.utf8 e.sqlstate).length ≤ 5
  message : NulFree e.message
  message_len : (Datum.utf8 e.message).length + 28 < 2 ^ 32

theorem engine_error_writable {α : Type} {r : Except EngineError α} (hok : ErrorOk r)
    (hfit : ErrorFits r) {e : EngineError} (he : r = .error e) :
    (StatementError.engine e).Writable := by
  have hstate : NulFree (sqlstate_of e) ∧ (Datum.utf8 (sqlstate_of e)).length ≤ 5 := by
    unfold sqlstate_of
    cases e.kind <;> decide +kernel
  exact ⟨hstate.1, hstate.2, hok e he, hfit e he⟩

/-- What a statement may do: append one block, or append nothing and fail. -/
def Handled (E : EngineApi σ H) (s : Session σ H) (sql : String) (out : List UInt8) : Prop :=
  (∃ t out' block, s.handle_statement E sql out = (t, out', .ok ()) ∧ StatementBlock block ∧
    Appends out out' block) ∨
  ∃ t e, s.handle_statement E sql out = (t, out, .error e) ∧ e.Writable

variable (hE : E.Answers) (hfit : E.Fits)

include hE hfit

theorem exec_spec {s : Session σ H} {sql : String} {stmt : Statement} (out : List UInt8)
    (h : s.handle_statement E sql out =
      match E.exec s.engine s.txn sql with
      | (g, .error e) => (⟨g, s.txn⟩, out, .error (.engine e))
      | (g, .ok result) => (⟨g, s.txn⟩, (write_result E g stmt result out).1,
          (write_result E g stmt result out).2)) : Handled E s sql out := by
  have hok := hE.exec s.engine s.txn sql
  have hef := hfit.exec s.engine s.txn sql
  have hcols := hE.columns s.engine s.txn sql
  have hrows := hE.rows s.engine s.txn sql
  have hrf := hfit.rows s.engine s.txn sql
  rcases hx : E.exec s.engine s.txn sql with ⟨g, r⟩
  rw [hx] at h hok hef hcols hrows hrf
  cases r with
  | error e => exact .inr ⟨_, _, h, engine_error_writable hok hef rfl⟩
  | ok result =>
    obtain ⟨hres, block, hblock, happ⟩ := @write_result_spec _ _ E g stmt result (by
      rintro columns rows rfl
      exact ⟨hrf columns rows rfl, hcols columns rows rfl, hrows columns rows rfl⟩) out
    refine .inl ⟨⟨g, s.txn⟩, _, block, h.trans ?_, hblock, happ⟩
    simp only [hres]

theorem handle_statement_spec {sql : String} (hnul : NulFree sql) (s : Session σ H)
    (out : List UInt8) : Handled E s sql out := by
  have hword : ∀ word : String, NulFree word → word.toList.length ≤ 64 → ∀ t : Session σ H,
      s.handle_statement E sql out = (t, command_complete out word, .ok ()) → Handled E s sql out :=
    fun word hw hlen t h => .inl ⟨t, _, _, h, .complete _, appends_command_complete_word hw hlen out⟩
  have hend : ∀ finish : σ → H → σ × Except EngineError Unit, (∀ g h, ErrorOk (finish g h).2) →
      (∀ g h, ErrorFits (finish g h).2) → ∀ word : String, NulFree word →
      word.toList.length ≤ 64 → s.handle_statement E sql out = s.end_txn finish word out →
      Handled E s sql out := by
    intro finish hok hef word hw hlen h
    unfold Session.end_txn at h
    cases ht : s.txn with
    | none =>
      rw [ht] at h
      exact .inr ⟨_, _, h, by decide +kernel, by decide +kernel, by decide +kernel, by decide +kernel⟩
    | some handle =>
      rw [ht] at h
      have hok' := hok s.engine handle
      have hef' := hef s.engine handle
      rcases hf : finish s.engine handle with ⟨g, r⟩
      rw [hf] at hok' hef'
      simp only [hf] at h
      cases r with
      | error e => exact .inr ⟨_, _, h, engine_error_writable hok' hef' rfl⟩
      | ok u => exact hword word hw hlen _ h
  cases hp : E.parse sql with
  | error e =>
    refine .inr ⟨s, .engine e, ?_, engine_error_writable (hE.parse sql hnul) (hfit.parse sql) hp⟩
    unfold Session.handle_statement
    rw [hp]
  | ok stmt =>
    cases stmt
    case Begin =>
      by_cases htxn : s.txn.isSome = true
      · refine .inr ⟨s, ⟨"25001", "there is already a transaction in progress"⟩, ?_,
          by decide +kernel, by decide +kernel, by decide +kernel, by decide +kernel⟩
        unfold Session.handle_statement
        rw [hp]
        simp only [if_pos htxn]
      · have hok := hE.begin_txn s.engine
        have hef := hfit.begin_txn s.engine
        rcases hb : E.begin_txn s.engine with ⟨g, r⟩
        rw [hb] at hok hef
        cases r with
        | error e =>
          refine .inr ⟨⟨g, s.txn⟩, .engine e, ?_, engine_error_writable hok hef rfl⟩
          unfold Session.handle_statement
          rw [hp]
          simp only [if_neg htxn, hb]
        | ok handle =>
          apply hword "BEGIN" (by decide) (by decide) ⟨g, some handle⟩
          unfold Session.handle_statement
          rw [hp]
          simp only [if_neg htxn, hb]
    case Commit =>
      apply hend E.commit hE.commit hfit.commit "COMMIT" (by decide) (by decide)
      unfold Session.handle_statement
      rw [hp]
    case Rollback =>
      apply hend E.abort hE.abort hfit.abort "ROLLBACK" (by decide) (by decide)
      unfold Session.handle_statement
      rw [hp]
    all_goals
      apply exec_spec hE hfit out
      unfold Session.handle_statement
      rw [hp]

end Proofs

/-! ## Queries -/

theorem mem_split_from {in_quote : Bool} {current l piece : List Char} {c : Char}
    (hp : piece ∈ split_from in_quote current l) (hc : c ∈ piece) : c ∈ current ∨ c ∈ l := by
  fun_induction split_from in_quote current l
  all_goals grind

theorem nulFree_trim {s : String} (h : NulFree s) : NulFree (trim s) := by
  unfold NulFree trim
  rw [String.toList_ofList, List.mem_reverse]
  intro hmem
  have hmem := List.mem_reverse.mp ((List.dropWhile_sublist _).subset hmem)
  exact h ((List.dropWhile_sublist _).subset hmem)

theorem nulFree_split {sql : String} (h : NulFree sql) :
    ∀ piece ∈ split_statements sql, NulFree piece := by
  intro piece hp hmem
  obtain ⟨l, hl, rfl⟩ := List.mem_map.mp hp
  rw [String.toList_ofList] at hmem
  exact (mem_split_from hl hmem).elim (by simp) h

section Query

variable {σ H : Type} {E : EngineApi σ H}

/-- The statements run in order, each against what the ones before it left; `blocks` are
the messages of those that succeeded, and the first that fails is the last to run. -/
inductive Executes (E : EngineApi σ H) : Session σ H → List UInt8 → List String →
    List (List BackendMessage) → Option StatementError → Session σ H → Prop
  | done (s : Session σ H) (out : List UInt8) : Executes E s out [] [] none s
  | ok {s t u : Session σ H} {out out' : List UInt8} {sql : String} {rest : List String}
      {block : List BackendMessage} {blocks : List (List BackendMessage)} {err : Option StatementError}
      (h : s.handle_statement E sql out = (t, out', .ok ())) (happ : Appends out out' block)
      (hblock : StatementBlock block) (hrest : Executes E t out' rest blocks err u) :
      Executes E s out (sql :: rest) (block :: blocks) err u
  | error {s t : Session σ H} {out : List UInt8} {sql : String} {rest : List String}
      {e : StatementError} (h : s.handle_statement E sql out = (t, out, .error e)) :
      Executes E s out (sql :: rest) [] (some e) t

/-- The message of an error, if there was one. -/
def error_messages : Option StatementError → List BackendMessage
  | none => []
  | some e => [.ErrorResponse (error_fields "ERROR" e.sqlstate e.message)]

theorem query_loop_spec (hE : E.Answers) (hfit : E.Fits) {pieces : List String}
    (hnul : ∀ piece ∈ pieces, NulFree piece) (any : Bool) (s : Session σ H) (out : List UInt8) :
    ∃ blocks err, Executes E s out ((pieces.map trim).filter (· ≠ "")) blocks err
        (Session.query_loop E pieces any s out).1 ∧
      (Session.query_loop E pieces any s out).2.1 =
        (any || !((pieces.map trim).filter (· ≠ "")).isEmpty) ∧
      Appends out (Session.query_loop E pieces any s out).2.2
        (blocks.flatten ++ error_messages err) := by
  induction pieces generalizing any s out with
  | nil => exact ⟨[], none, .done s out, by simp [Session.query_loop], .refl out⟩
  | cons piece rest ih =>
    have hrest : ∀ p ∈ rest, NulFree p := fun p hp => hnul p (.tail _ hp)
    rw [Session.query_loop, List.map_cons]
    by_cases hempty : trim piece = ""
    · rw [if_pos hempty, List.filter_cons_of_neg (by simp [hempty])]
      exact ih hrest any s out
    · rw [if_neg hempty, List.filter_cons_of_pos (by simp [hempty])]
      have hpiece := nulFree_trim (hnul piece (.head _))
      rcases handle_statement_spec hE hfit hpiece s out with
        ⟨t, out', block, h, hblock, happ⟩ | ⟨t, e, h, he⟩
      · obtain ⟨blocks, err, hex, hany, hloop⟩ := ih hrest true t out'
        rw [h]
        refine ⟨block :: blocks, err, .ok h happ hblock hex, by rw [hany]; simp, ?_⟩
        rw [List.flatten_cons, List.append_assoc]
        exact happ.trans hloop
      · rw [h]
        refine ⟨[], some e, .error h, by simp, ?_⟩
        apply appends_put_msg
        apply reads_error_response (by decide) he.sqlstate he.message
        have hlen : (Datum.utf8 "ERROR").length = 5 := by decide +kernel
        have := he.sqlstate_len
        have := he.message_len
        omega

end Query

/-- An engine with one table of one row. -/
def one_row : EngineApi Unit Unit where
  parse sql :=
    if sql = "BEGIN" then .ok .Begin
    else if sql = "SELECT a FROM t" then .ok (.Select "t")
    else .error ⟨.InvalidArgument, "invalid argument: unexpected token"⟩
  begin_txn _ := ((), .ok ())
  commit _ _ := ((), .ok ())
  abort _ _ := ((), .ok ())
  exec _ _ _ := ((), .ok (.Rows ["a"] [[some (.Int4 7)]]))
  describe_table _ _ := none
  show_f32 _ := ""

theorem one_row_answers : one_row.Answers := by
  have hrows : ∀ {columns : List String} {rows : List (List (Option Datum))},
      (Except.ok (.Rows ["a"] [[some (.Int4 7)]]) : Except EngineError QueryResult) =
        .ok (.Rows columns rows) → columns = ["a"] ∧ rows = [[some (.Int4 7)]] := by
    intro columns rows h
    cases h
    exact ⟨rfl, rfl⟩
  refine ⟨?_, fun _ => errorOk_ok _, fun _ _ => errorOk_ok _, fun _ _ => errorOk_ok _,
    fun _ _ _ => errorOk_ok _, ?_, ?_⟩
  · intro sql _ e he
    unfold one_row at he
    simp only at he
    split_ifs at he
    cases he
    decide
  · intro _ _ _ columns rows h name hn
    obtain ⟨rfl, -⟩ := hrows h
    rw [List.mem_singleton.mp hn]
    decide
  · intro _ _ _ columns rows h
    obtain ⟨rfl, rfl⟩ := hrows h
    decide

theorem one_row_fits : one_row.Fits := by
  refine ⟨?_, fun _ => errorFits_ok _, fun _ _ => errorFits_ok _, fun _ _ => errorFits_ok _,
    fun _ _ _ => errorFits_ok _, ?_⟩
  · intro sql e he
    unfold one_row at he
    simp only at he
    split_ifs at he
    cases he
    decide +kernel
  · intro _ _ _ columns rows h
    cases h
    have henc : encode_row one_row [some (.Int4 7)] = .ok [some (Datum.utf8 "7")] := by
      decide +kernel
    refine ⟨by decide, by decide +kernel, ?_, ?_⟩
    · intro row hrow
      rw [List.mem_singleton.mp hrow]
      exact ⟨_, henc⟩
    · intro row hrow values hv
      rw [List.mem_singleton.mp hrow, henc] at hv
      cases hv
      refine ⟨fun bytes hb => ?_, by decide +kernel⟩
      rw [List.mem_singleton] at hb
      rw [Option.some.inj hb]
      decide +kernel

/-- An engine that answers every statement with an empty result of the given columns. -/
def no_rows (columns : List String) : EngineApi Unit Unit where
  parse _ := .ok (.Select "t")
  begin_txn _ := ((), .ok ())
  commit _ _ := ((), .ok ())
  abort _ _ := ((), .ok ())
  exec _ _ _ := ((), .ok (.Rows columns []))
  describe_table _ _ := none
  show_f32 _ := ""

theorem no_rows_answers {columns : List String} (h : ∀ name ∈ columns, NulFree name) :
    (no_rows columns).Answers := by
  refine ⟨fun _ _ => errorOk_ok _, fun _ => errorOk_ok _, fun _ _ => errorOk_ok _,
    fun _ _ => errorOk_ok _, fun _ _ _ => errorOk_ok _, ?_, ?_⟩
  · intro _ _ _ cols rows hr
    cases hr
    exact h
  · intro _ _ _ cols rows hr
    cases hr
    exact ⟨by simp, by simp⟩

/-- What the session writes. -/
theorem no_rows_response (columns : List String) :
    ((⟨(), none⟩ : Session Unit Unit).handle_query (no_rows columns) "q" []).2 =
      row_description [] (field_descs (no_rows columns) () (.Select "t") columns []) ++
        ready_for_query (command_complete [] "SELECT 0") STATUS_IDLE := by
  have hsplit : split_statements "q" = ["q"] := by decide +kernel
  have htrim : trim "q" = "q" := by decide +kernel
  have hzero : "SELECT " ++ toString ([] : List (List (Option Datum))).length = "SELECT 0" := by
    decide +kernel
  unfold Session.handle_query
  rw [hsplit, Session.query_loop, htrim, if_neg (by decide)]
  simp only [Session.handle_statement, no_rows, write_result, write_rows, Session.query_loop, hzero]
  simp only [ready_for_query, command_complete, row_description, put_msg, if_true,
    Session.status_byte, List.append_assoc, List.nil_append]
  rfl

/-- With a multiple of `2^16` columns the description counts no fields, and the response
does not read as messages at all. -/
theorem no_rows_not_framed {columns : List String} (hne : columns ≠ [])
    (hmod : columns.length % 2 ^ 16 = 0)
    (hlen : (columns.map fun name => (Datum.utf8 name).length + 19).sum + 6 < 2 ^ 32) :
    BackendMessage.read.readAll ((⟨(), none⟩ : Session Unit Unit).handle_query
      (no_rows columns) "q" []).2 = none := by
  have hcount := @length_field_descs _ _ (no_rows columns) () (.Select "t") columns []
  have hnames := @field_descs_names _ _ (no_rows columns) () (.Select "t") columns []
  rw [no_rows_response]
  apply readAll_eq_none
  · refine @read_put_msg_eq_none 0x54 _ (read_row_description_wrapped ?_ (by rw [hcount, hmod])) ?_ _
    · intro hnil
      rw [hnil] at hcount
      exact hne (List.length_eq_zero_iff.mp hcount.symm)
    · rw [foldl_append _ _ put_field_eq, List.length_append, length_beBytes, List.length_flatMap]
      simp only [length_put_field]
      rw [hnames]
      omega
  · simp [row_description, put_msg]

end Ams.Wire
