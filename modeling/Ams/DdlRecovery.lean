/-
DDL across crashes: `create_table` and `drop_table`, the catalog rows they write, and what
`Engine::open` makes of the rows that survive.

The catalog is read back raw. `Catalog::open` decodes every row on the first page of each
system table, whether or not the transaction that wrote it committed, and `build_registry`
folds them: the last `pg_class` row of an OID wins, and a table is there if it has a
`pg_rust_relpages` row. So a call that a crash cuts short is half done for the next session,
and the order of its records decides what that means. `create_table` writes its
`pg_rust_relpages` row last; `drop_table` writes its marker before it frees a page.

# The model

A call is the list of records it appends, one at a time, so that a crash can fall between
any two (`PendingCall`). A crash keeps a cut of the log at or past what is synced, and the
next session's catalog, page chains and free pages are all read off that cut. The page
allocator is any that hands out pages that are not allocated; catalog rows that do not fit
make the call fail at that row. A log that cannot be written ends the session.

# The argument

`Described` says what a cut of the log is worth: the tables that have their last row, each
with the rows it should have, and for those not dropped the pages of its chain, allocated
and in no other chain. Every record of a call keeps it. It is stated of every cut a crash
could leave, and it is what makes `open_engine` succeed.
-/
import Ams.TupleCodec
import Ams.Lib.Chain
import Ams.Lib.Run

set_option autoImplicit false

namespace Ams.Ddl

open Lib
open List (append_assoc append_nil filter_append filter_nil foldl_append map_append map_map
  mem_append mem_append_left mem_cons mem_filter mem_map mem_singleton nodup_singleton
  reverseRecOn)
open Function (update update_self update_of_ne)

/-! ## Column types in the catalog -/

abbrev FIRST_USER : Oid := 16384

abbrev MAX_SANE_OID : Oid := 2 ^ 48

abbrev VECTOR_OID : Oid := 9877

structure ColumnDef where
  name : String
  col_type : ColumnType
deriving DecidableEq

/-- `as i32` and the product of two `i32`, which keep the low bits. -/
def i32 (v : ℤ) : ℤ := Int.bmod v (2 ^ 32)

/-- `type_oid_of`: the type's OID and `pg_attribute.len`. -/
def type_oid_of : ColumnType → Oid × ℤ
  | .Int4 => (23, 4)
  | .Int8 => (20, 8)
  | .Text => (25, -1)
  | .Bytea => (17, -1)
  | .Timestamptz => (1184, 8)
  | .Uuid => (2950, 16)
  | .Vector dim => (VECTOR_OID, i32 (i32 dim * 4))

def builtin_type : Oid → Option ColumnType
  | 23 => some .Int4
  | 20 => some .Int8
  | 25 => some .Text
  | 17 => some .Bytea
  | 1184 => some .Timestamptz
  | 2950 => some .Uuid
  | _ => none

def column_type_of_attr (type_oid : Oid) (len : ℤ) : Option ColumnType :=
  if type_oid = VECTOR_OID then
    if len ≤ 0 ∨ len % 4 ≠ 0 then none
    else if 1 ≤ (len / 4).toNat ∧ (len / 4).toNat ≤ MAX_VECTOR_DIM then
      some (.Vector (len / 4).toNat)
    else none
  else builtin_type type_oid

/-- A type `ColumnType::vector` would build, or no vector. `create_table` does not check
it. -/
def ValidType : ColumnType → Prop
  | .Vector dim => 1 ≤ dim ∧ dim ≤ MAX_VECTOR_DIM
  | _ => True

instance : DecidablePred ValidType := fun t => by
  unfold ValidType
  split <;> infer_instance

theorem column_type_of_type_oid {t : ColumnType} (h : ValidType t) :
    column_type_of_attr (type_oid_of t).1 (type_oid_of t).2 = some t := by
  cases t with
  | Vector dim =>
    obtain ⟨h1, h2⟩ := h
    have hdim : i32 dim = dim := by
      unfold i32
      rw [Int.bmod_eq_of_le] <;> norm_num at * ; omega
    have hlen : i32 (i32 dim * 4) = dim * 4 := by
      rw [hdim]
      unfold i32
      rw [Int.bmod_eq_of_le] <;> norm_num at * <;> omega
    have hdiv : ((dim : ℤ) * 4 / 4).toNat = dim := by
      rw [Int.mul_ediv_cancel _ (by norm_num)]
      exact Int.toNat_natCast dim
    have htype : type_oid_of (.Vector dim) = (VECTOR_OID, (dim : ℤ) * 4) := by
      rw [type_oid_of, hlen]
    rw [htype, column_type_of_attr, if_pos rfl, if_neg (by simp only; omega)]
    simp only
    rw [hdiv, if_pos ⟨h1, h2⟩]
  | _ => rfl

/-! ## Catalog rows -/

structure TableEntry where
  oid : Oid
  first_page : PageId
  columns : List ColumnDef
deriving DecidableEq

/-- `relkind`: 'r' and 'd'. -/
inductive RelKind where
  | table
  | dropped
deriving DecidableEq

structure RelationRow where
  oid : Oid
  name : String
  kind : RelKind
  natts : ℕ
deriving DecidableEq

structure AttributeRow where
  rel : Oid
  name : String
  type_oid : Oid
  len : ℤ
  num : ℕ
deriving DecidableEq

/-- The last page and the page count of the row are not read. -/
structure RelpagesRow where
  rel_oid : Oid
  first_page : PageId
deriving DecidableEq

/-- A record of the log. `PageInit` is the image of a fresh heap page, which has no next
page; `PageLink` the image of a page with its next page set. -/
inductive DdlRecord where
  | PageAlloc (p : PageId)
  | PageFree (p : PageId)
  | PageInit (p : PageId)
  | PageLink (p q : PageId)
  | PgClass (row : RelationRow)
  | PgAttribute (row : AttributeRow)
  | PgRelpages (row : RelpagesRow)
  | TxnCommit
  | other
deriving DecidableEq

/-! ## What a log holds -/

/-- The rows on a catalog's first page, in slot order: no slot is ever reused. -/
def relations (log : List DdlRecord) : List RelationRow :=
  log.filterMap fun r => match r with
    | .PgClass row => some row
    | _ => none

def attributes (log : List DdlRecord) : List AttributeRow :=
  log.filterMap fun r => match r with
    | .PgAttribute row => some row
    | _ => none

def relpages (log : List DdlRecord) : List RelpagesRow :=
  log.filterMap fun r => match r with
    | .PgRelpages row => some row
    | _ => none

/-- One record's effect on which pages are allocated. -/
def live_record (live : PageId → Bool) : DdlRecord → PageId → Bool
  | .PageAlloc p => update live p true
  | .PageFree p => update live p false
  | _ => live

/-- The page is allocated. -/
def page_live (log : List DdlRecord) : PageId → Bool := log.foldl live_record fun _ => false

def next_record (next : PageId → Option PageId) : DdlRecord → PageId → Option PageId
  | .PageInit p => update next p none
  | .PageLink p q => update next p (some q)
  | _ => next

/-- The next-page pointers. -/
def page_next (log : List DdlRecord) : PageId → Option PageId := log.foldl next_record fun _ => none

/-- `walk_chain`; `none` is the error for a cycle, which the walk meets before it has made
more hops than there are records. -/
def walk_chain (log : List DdlRecord) (first_page : PageId) : Option (List PageId) :=
  trail (page_next log) (log.length + 1) first_page

/-! ## Opening -/

inductive OpenError where
  | unknown_type (table : String)
  | duplicate_table (table : String)
  | oid_ceiling (oid : Oid)
deriving DecidableEq

/-- The last row of each OID, unless it is a drop. -/
def live_rows (rows : List RelationRow) : List RelationRow :=
  rows.foldl (fun live row => match row.kind with
    | .dropped => live.filter (·.oid ≠ row.oid)
    | .table => live.filter (·.oid ≠ row.oid) ++ [row]) []

def attributes_of (log : List DdlRecord) (oid : Oid) : List AttributeRow :=
  ((attributes log).filter (·.rel = oid)).insertionSort fun a b => a.num ≤ b.num

def relpages_of (log : List DdlRecord) (oid : Oid) : Option RelpagesRow :=
  (relpages log).find? (·.rel_oid = oid)

def column_of (attr : AttributeRow) : Option ColumnDef :=
  (column_type_of_attr attr.type_oid attr.len).map fun t => ⟨attr.name, t⟩

/-- One live row of the loop in `build_registry`. -/
def register (log : List DdlRecord) (registry : List (String × TableEntry)) (row : RelationRow) :
    Except OpenError (List (String × TableEntry)) :=
  if row.oid < FIRST_USER then .ok registry
  else
    match relpages_of log row.oid with
    | none => .ok registry
    | some pages =>
      match (attributes_of log row.oid).mapM column_of with
      | none => .error (.unknown_type row.name)
      | some columns =>
        if registry.any (·.1 = row.name) then .error (.duplicate_table row.name)
        else .ok (registry ++ [(row.name, ⟨row.oid, pages.first_page, columns⟩)])

def build_registry (log : List DdlRecord) : Except OpenError (List (String × TableEntry)) :=
  (live_rows (relations log)).foldlM (register log) []

/-- Where the OID allocator starts. -/
def start_oid (sb_next_oid : Oid) (log : List DdlRecord) : Oid :=
  let in_use := (relations log).map (·.oid) ++ (relpages log).map (·.rel_oid)
  in_use.foldl (fun start oid => max start (oid + 1)) (max sb_next_oid FIRST_USER)

/-- `Engine::open`, as far as the catalog decides it: the registry and the next OID. -/
def open_engine (sb_next_oid : Oid) (log : List DdlRecord) :
    Except OpenError (List (String × TableEntry) × Oid) :=
  match (relpages log).find? (MAX_SANE_OID < ·.rel_oid) with
  | some row => .error (.oid_ceiling row.rel_oid)
  | none => (build_registry log).map fun registry => (registry, start_oid sb_next_oid log)

/-! ## The calls -/

def class_row (name : String) (e : TableEntry) : RelationRow :=
  ⟨e.oid, name, .table, e.columns.length⟩

def drop_row (name : String) (e : TableEntry) : RelationRow :=
  ⟨e.oid, name, .dropped, e.columns.length⟩

def attribute_row (oid : Oid) (c : ColumnDef × ℕ) : AttributeRow :=
  ⟨oid, c.1.name, (type_oid_of c.1.col_type).1, (type_oid_of c.1.col_type).2, c.2 + 1⟩

def attribute_rows (e : TableEntry) : List AttributeRow :=
  e.columns.zipIdx.map (attribute_row e.oid)

def relpages_row (e : TableEntry) : RelpagesRow := ⟨e.oid, e.first_page⟩

/-- The records of `create_table_inner` before the one that counts. -/
def create_prelude (name : String) (e : TableEntry) : List DdlRecord :=
  [.PageAlloc e.first_page, .PageInit e.first_page, .PgClass (class_row name e)] ++
    (attribute_rows e).map .PgAttribute

def create_script (name : String) (e : TableEntry) : List DdlRecord :=
  create_prelude name e ++ [.PgRelpages (relpages_row e), .TxnCommit]

/-- The records of `drop_table_inner` over the pages of the chain, and the commit. -/
def drop_script (name : String) (e : TableEntry) (pages : List PageId) : List DdlRecord :=
  .PgClass (drop_row name e) :: (pages.map .PageFree ++ [.TxnCommit])

/-- `extend_chain` behind a tail. -/
def extend_script (tail page : PageId) : List DdlRecord :=
  [.PageAlloc page, .PageInit page, .PageLink tail page]

/-- What a call does when it has written its records. -/
inductive Finish where
  | create (name : String) (e : TableEntry)
  | drop (name : String) (e : TableEntry)
  | extend
  | failed

/-- A call under way, with the records it has not appended yet. -/
structure PendingCall where
  script : List DdlRecord
  finish : Finish

/-- `created` and `dropped` are what calls returned `Ok` for, and `drop_called` the OIDs of
tables `drop_table` was called for. -/
structure DdlSys where
  log : List DdlRecord
  synced : ℕ
  registry : List (String × TableEntry)
  next_oid : Oid
  sb_next_oid : Oid
  call : Option PendingCall
  created : List (String × TableEntry)
  drop_called : List Oid
  dropped : List Oid

inductive DdlOp where
  | create_table (name : String) (schema : List ColumnDef) (page : PageId)
  | drop_table (name : String)
  | extend_chain (name : String) (page : PageId)
  | insert_row
  | append_next
  | call_fails
  | call_returns
  | sync (upto : ℕ)
  | checkpoint
  | crash (kept : ℕ)

namespace DdlSys

def create : DdlSys := ⟨[], 0, [], FIRST_USER, FIRST_USER, none, [], [], []⟩

def step (s : DdlSys) : DdlOp → Option DdlSys
  | .create_table name schema page =>
    let e : TableEntry := ⟨s.next_oid, page, schema⟩
    if s.call.isNone ∧ name ≠ "" ∧ schema ≠ [] ∧ (∀ c ∈ s.registry, c.1 ≠ name) ∧
        page ≠ PageId.INVALID ∧ page_live s.log page = false then
      some { s with
        next_oid := s.next_oid + 1
        call := some ⟨create_script name e, .create name e⟩ }
    else none
  | .drop_table name =>
    match s.call, s.registry.find? (·.1 = name) with
    | none, some (_, e) =>
      -- `find_live_pg_class_row`
      if class_row name e ∈ relations s.log then
        match walk_chain s.log e.first_page with
        | some pages => some { s with
            drop_called := e.oid :: s.drop_called
            call := some ⟨drop_script name e pages, .drop name e⟩ }
        | none => some { s with
            drop_called := e.oid :: s.drop_called
            call := some ⟨[.PgClass (drop_row name e)], .failed⟩ }
      else none
    | _, _ => none
  | .extend_chain name page =>
    match s.call, s.registry.find? (·.1 = name) with
    | none, some (_, e) =>
      match (walk_chain s.log e.first_page).bind List.getLast? with
      | some tail =>
        if page ≠ PageId.INVALID ∧ page_live s.log page = false then
          some { s with call := some ⟨extend_script tail page, .extend⟩ }
        else none
      | none => none
    | _, _ => none
  | .insert_row => if s.call.isNone then some { s with log := s.log ++ [.other] } else none
  | .append_next =>
    match s.call with
    | some ⟨r :: script, finish⟩ => some { s with
        log := s.log ++ [r]
        call := some ⟨script, finish⟩ }
    | _ => none
  | .call_fails =>
    -- a catalog page without room for a row; a drop checks for it before it writes
    match s.call with
    | some ⟨_ :: _ :: _, .create _ _⟩ => some { s with call := none }
    | some ⟨_, .extend⟩ => some { s with call := none }
    | some ⟨[], .failed⟩ => some { s with call := none }
    | _ => none
  | .call_returns =>
    match s.call with
    | some ⟨[], .create name e⟩ =>
      -- `commit_txn` has flushed the commit record
      if s.log.length ≤ s.synced then
        some { s with
          registry := s.registry ++ [(name, e)]
          created := s.created ++ [(name, e)]
          call := none }
      else none
    | some ⟨[], .drop name e⟩ =>
      if s.log.length ≤ s.synced then
        some { s with
          registry := s.registry.filter (·.1 ≠ name)
          dropped := e.oid :: s.dropped
          call := none }
      else none
    | some ⟨[], .extend⟩ => some { s with call := none }
    | _ => none
  | .sync upto =>
    if s.synced ≤ upto ∧ upto ≤ s.log.length then some { s with synced := upto } else none
  | .checkpoint => some { s with sb_next_oid := s.next_oid }
  | .crash kept =>
    if s.synced ≤ kept ∧ kept ≤ s.log.length then
      match open_engine s.sb_next_oid (s.log.take kept) with
      | .ok (registry, next_oid) => some { s with
          log := s.log.take kept
          synced := kept
          registry := registry
          next_oid := next_oid
          call := none }
      | .error _ => none
    else none

end DdlSys

/-! ## Reading a longer log -/

section Append

variable (log : List DdlRecord) (r : DdlRecord)

theorem relations_append (more : List DdlRecord) :
    relations (log ++ more) = relations log ++ relations more := List.filterMap_append

theorem attributes_append (more : List DdlRecord) :
    attributes (log ++ more) = attributes log ++ attributes more := List.filterMap_append

theorem relpages_append (more : List DdlRecord) :
    relpages (log ++ more) = relpages log ++ relpages more := List.filterMap_append

theorem page_live_append : page_live (log ++ [r]) = live_record (page_live log) r := by
  unfold page_live
  rw [foldl_append, List.foldl_cons, List.foldl_nil]

theorem page_next_append : page_next (log ++ [r]) = next_record (page_next log) r := by
  unfold page_next
  rw [foldl_append, List.foldl_cons, List.foldl_nil]

end Append

theorem alloc_mem_of_live {p : PageId} (log : List DdlRecord) (h : page_live log p = true) :
    .PageAlloc p ∈ log := by
  induction log using reverseRecOn with
  | nil => exact absurd h (by simp [page_live])
  | append_singleton log r ih =>
    rw [page_live_append] at h
    by_cases hr : r = .PageAlloc p
    · rw [hr]
      simp
    · have hold : page_live log p = true := by
        cases r with
        | PageAlloc q =>
          have hne : p ≠ q := fun heq => hr (by rw [heq])
          rwa [live_record, update_of_ne hne] at h
        | PageFree q =>
          by_cases hq : p = q
          · rw [hq, live_record, update_self] at h
            simp at h
          · rwa [live_record, update_of_ne hq] at h
        | _ => exact h
      exact mem_append_left _ (ih hold)

/-! ## The tables of a log -/

/-- A table with the pages of its chain. -/
structure TableDesc where
  name : String
  entry : TableEntry
  pages : List PageId

namespace TableDesc

def key (t : TableDesc) : String × TableEntry := (t.name, t.entry)

/-- The table has not been dropped. -/
def Live (log : List DdlRecord) (t : TableDesc) : Prop := drop_row t.name t.entry ∉ relations log

end TableDesc

/-- The chain of a table: its pages in order, allocated, each once. -/
structure ChainOk (log : List DdlRecord) (t : TableDesc) : Prop where
  walk : ∃ fuel, trail (page_next log) fuel t.entry.first_page = some t.pages
  nodup : t.pages.Nodup
  live : ∀ p ∈ t.pages, page_live log p = true

theorem ChainOk.congr {log log' : List DdlRecord} {t : TableDesc} (h : ChainOk log t)
    (hpl : page_live log' = page_live log) (hpn : page_next log' = page_next log) :
    ChainOk log' t :=
  ⟨by rw [hpn]; exact h.walk, h.nodup, by rw [hpl]; exact h.live⟩

/-- The tables of a log are these: every table whose `pg_rust_relpages` row is in it has
all its rows, and those not dropped have names and pages of their own. -/
structure Described (log : List DdlRecord) (ts : List TableDesc) : Prop where
  relpages : relpages log = ts.map fun t => relpages_row t.entry
  nodup : (ts.map fun t => t.entry.oid).Nodup
  user : ∀ t ∈ ts, FIRST_USER ≤ t.entry.oid
  sane : ∀ t ∈ ts, t.entry.oid ≤ MAX_SANE_OID
  rows : ∀ t ∈ ts, (relations log).filter (·.oid = t.entry.oid) = [class_row t.name t.entry] ∨
    (relations log).filter (·.oid = t.entry.oid) =
      [class_row t.name t.entry, drop_row t.name t.entry]
  attrs : ∀ t ∈ ts, (attributes log).filter (·.rel = t.entry.oid) = attribute_rows t.entry
  valid : ∀ t ∈ ts, ∀ c ∈ t.entry.columns, ValidType c.col_type
  names : ∀ t ∈ ts, ∀ t' ∈ ts, t.Live log → t'.Live log → t.name = t'.name → t = t'
  chain : ∀ t ∈ ts, t.Live log → ChainOk log t
  disjoint : ∀ t ∈ ts, ∀ t' ∈ ts, t.Live log → t'.Live log → t ≠ t' → ∀ p ∈ t.pages, p ∉ t'.pages

theorem described_nil : Described [] [] where
  relpages := rfl
  nodup := List.nodup_nil
  user := by simp
  sane := by simp
  rows := by simp
  attrs := by simp
  valid := by simp
  names := by simp
  chain := by simp
  disjoint := by simp

namespace Described

variable {log : List DdlRecord} {ts : List TableDesc}

variable {t : TableDesc}

theorem eq_of_oid (h : Described log ts) {t' : TableDesc} (ht : t ∈ ts) (ht' : t' ∈ ts)
    (heq : t.entry.oid = t'.entry.oid) : t = t' :=
  List.inj_on_of_nodup_map h.nodup ht ht' heq

theorem live_rows_of (h : Described log ts) (ht : t ∈ ts) (hlive : t.Live log) :
    (relations log).filter (·.oid = t.entry.oid) = [class_row t.name t.entry] := by
  rcases h.rows t ht with hrow | hrow
  · exact hrow
  · refine absurd ?_ hlive
    have hmem : drop_row t.name t.entry ∈ (relations log).filter (·.oid = t.entry.oid) := by
      rw [hrow]
      simp
    exact List.mem_of_mem_filter hmem

/-- A record that says nothing of the tables: it writes no page of a live chain and no row
of theirs. -/
structure Foreign (log : List DdlRecord) (ts : List TableDesc) (r : DdlRecord) : Prop where
  relpages : Ddl.relpages [r] = []
  row : ∀ row, r = .PgClass row → ∀ t ∈ ts, row.oid ≠ t.entry.oid
  attr : ∀ row, r = .PgAttribute row → ∀ t ∈ ts, row.rel ≠ t.entry.oid
  live : ∀ t ∈ ts, t.Live log → ∀ p ∈ t.pages, live_record (page_live log) r p = page_live log p
  next : ∀ t ∈ ts, t.Live log → ∀ p ∈ t.pages, next_record (page_next log) r p = page_next log p

variable {r : DdlRecord}

theorem relations_filter_of_foreign (hr : Foreign log ts r) (ht : t ∈ ts) :
    (relations (log ++ [r])).filter (·.oid = t.entry.oid) =
      (relations log).filter (·.oid = t.entry.oid) := by
  rw [relations_append, filter_append]
  have hnil : (relations [r]).filter (·.oid = t.entry.oid) = [] := by
    cases r with
    | PgClass row =>
      have hne := hr.row row rfl t ht
      simp [relations, hne]
    | _ => rfl
  rw [hnil, append_nil]

theorem live_iff_of_foreign (hr : Foreign log ts r) (ht : t ∈ ts) :
    t.Live (log ++ [r]) ↔ t.Live log := by
  have hfilter := relations_filter_of_foreign hr ht
  have hmem : ∀ l : List DdlRecord, drop_row t.name t.entry ∈ relations l ↔
      drop_row t.name t.entry ∈ (relations l).filter (·.oid = t.entry.oid) := by
    intro l
    rw [mem_filter]
    exact ⟨fun hm => ⟨hm, decide_eq_true rfl⟩, And.left⟩
  unfold TableDesc.Live
  rw [hmem, hmem log, hfilter]

/-- A foreign record changes nothing. -/
theorem append_foreign (h : Described log ts) (hr : Foreign log ts r) :
    Described (log ++ [r]) ts := by
  have hlive : ∀ {t}, t ∈ ts → t.Live (log ++ [r]) → t.Live log := fun ht hl =>
    (live_iff_of_foreign hr ht).mp hl
  refine { h with
    relpages := ?_
    rows := fun t ht => ?_
    attrs := fun t ht => ?_
    names := fun t ht t' ht' hl hl' => h.names t ht t' ht' (hlive ht hl) (hlive ht' hl')
    chain := fun t ht hl => ?_
    disjoint := fun t ht t' ht' hl hl' => h.disjoint t ht t' ht' (hlive ht hl) (hlive ht' hl') }
  · rw [relpages_append, hr.relpages, append_nil]
    exact h.relpages
  · rw [relations_filter_of_foreign hr ht]
    exact h.rows t ht
  · rw [attributes_append, filter_append]
    have hnil : (attributes [r]).filter (·.rel = t.entry.oid) = [] := by
      cases r with
      | PgAttribute row =>
        have hne := hr.attr row rfl t ht
        simp [attributes, hne]
      | _ => rfl
    rw [hnil, append_nil]
    exact h.attrs t ht
  · have hold := h.chain t ht (hlive ht hl)
    obtain ⟨fuel, hwalk⟩ := hold.walk
    refine ⟨⟨fuel, trail_of_agree hwalk fun p hp => ?_⟩, hold.nodup, fun p hp => ?_⟩
    · rw [page_next_append]
      exact hr.next t ht (hlive ht hl) p hp
    · rw [page_live_append, hr.live t ht (hlive ht hl) p hp]
      exact hold.live p hp

/-- The page is in no live chain. -/
def Unowned (log : List DdlRecord) (ts : List TableDesc) (p : PageId) : Prop :=
  ∀ t ∈ ts, t.Live log → p ∉ t.pages

theorem unowned_of_not_live (h : Described log ts) {p : PageId} (hp : page_live log p = false) :
    Unowned log ts p := by
  intro t ht hl hmem
  rw [(h.chain t ht hl).live p hmem] at hp
  simp at hp

/-- Page records about a page in no live chain. -/
theorem foreign_page {p : PageId} (hp : Unowned log ts p)
    (hr : r = .PageAlloc p ∨ r = .PageFree p ∨ r = .PageInit p) : Foreign log ts r := by
  have hne : ∀ t ∈ ts, t.Live log → ∀ q ∈ t.pages, q ≠ p := by
    rintro t ht hl q hq rfl
    exact hp t ht hl hq
  rcases hr with rfl | rfl | rfl
  · exact ⟨rfl, by simp, by simp,
      fun t ht hl q hq => update_of_ne (hne t ht hl q hq) .., fun _ _ _ _ _ => rfl⟩
  · exact ⟨rfl, by simp, by simp,
      fun t ht hl q hq => update_of_ne (hne t ht hl q hq) .., fun _ _ _ _ _ => rfl⟩
  · exact ⟨rfl, by simp, by simp, fun _ _ _ _ _ => rfl,
      fun t ht hl q hq => update_of_ne (hne t ht hl q hq) ..⟩

theorem foreign_class {row : RelationRow} (hrow : ∀ t ∈ ts, row.oid ≠ t.entry.oid) :
    Foreign log ts (.PgClass row) :=
  ⟨rfl, fun row' heq => by rwa [← DdlRecord.PgClass.inj heq], by simp, fun _ _ _ _ _ => rfl,
    fun _ _ _ _ _ => rfl⟩

theorem foreign_attribute {row : AttributeRow} (hrow : ∀ t ∈ ts, row.rel ≠ t.entry.oid) :
    Foreign log ts (.PgAttribute row) :=
  ⟨rfl, by simp, fun row' heq => by rwa [← DdlRecord.PgAttribute.inj heq], fun _ _ _ _ _ => rfl,
    fun _ _ _ _ _ => rfl⟩

theorem foreign_commit : Foreign log ts .TxnCommit :=
  ⟨rfl, by simp, by simp, fun _ _ _ _ _ => rfl, fun _ _ _ _ _ => rfl⟩

theorem foreign_other : Foreign log ts .other :=
  ⟨rfl, by simp, by simp, fun _ _ _ _ _ => rfl, fun _ _ _ _ _ => rfl⟩

/-! ## A table is created -/

/-- The last row of a table. -/
theorem append_relpages (h : Described log ts) {name : String} {e : TableEntry}
    (hnew : ∀ t ∈ ts, e.oid ≠ t.entry.oid) (huser : FIRST_USER ≤ e.oid)
    (hsane : e.oid ≤ MAX_SANE_OID)
    (hrows : (relations log).filter (·.oid = e.oid) = [class_row name e])
    (hattrs : (attributes log).filter (·.rel = e.oid) = attribute_rows e)
    (hvalid : ∀ c ∈ e.columns, ValidType c.col_type)
    (hname : ∀ t ∈ ts, t.Live log → t.name ≠ name)
    (hlive : page_live log e.first_page = true) (hnext : page_next log e.first_page = none)
    (hown : Unowned log ts e.first_page) :
    Described (log ++ [.PgRelpages (relpages_row e)]) (ts ++ [⟨name, e, [e.first_page]⟩]) := by
  set r : DdlRecord := .PgRelpages (relpages_row e) with hr
  set t₀ : TableDesc := ⟨name, e, [e.first_page]⟩ with ht0
  have hrel : relations (log ++ [r]) = relations log := by
    rw [relations_append]
    exact append_nil _
  have hatt : attributes (log ++ [r]) = attributes log := by
    rw [attributes_append]
    exact append_nil _
  have hL : ∀ {t : TableDesc}, t.Live (log ++ [r]) ↔ t.Live log := by
    intro t
    unfold TableDesc.Live
    rw [hrel]
  have hpl : page_live (log ++ [r]) = page_live log := page_live_append log r
  have hpn : page_next (log ++ [r]) = page_next log := page_next_append log r
  have hmem : ∀ {t}, t ∈ ts ++ [t₀] → t ∈ ts ∨ t = t₀ := by
    intro t ht
    rcases mem_append.mp ht with hin | hin
    · exact .inl hin
    · exact .inr (mem_singleton.mp hin)
  -- the new table and the old ones, in every field
  refine {
    relpages := ?_
    nodup := ?_
    user := fun t ht => (hmem ht).elim (h.user t) fun heq => heq ▸ huser
    sane := fun t ht => (hmem ht).elim (h.sane t) fun heq => heq ▸ hsane
    rows := fun t ht => ?_
    attrs := fun t ht => ?_
    valid := fun t ht => (hmem ht).elim (h.valid t) fun heq => heq ▸ hvalid
    names := fun t ht t' ht' hl hl' heq => ?_
    chain := fun t ht hl => ?_
    disjoint := fun t ht t' ht' hl hl' hne p hp => ?_ }
  · rw [relpages_append, h.relpages, map_append]
    rfl
  · rw [map_append, List.nodup_append]
    refine ⟨h.nodup, nodup_singleton _, ?_⟩
    rintro o ho o' ho' rfl
    obtain ⟨t, ht, hto⟩ := mem_map.mp ho
    have ho'' : o = e.oid := by simpa using ho'
    exact hnew t ht (ho''.symm.trans hto.symm)
  · rw [hrel]
    rcases hmem ht with hin | rfl
    · exact h.rows t hin
    · exact .inl hrows
  · rw [hatt]
    rcases hmem ht with hin | rfl
    · exact h.attrs t hin
    · exact hattrs
  · rw [hL] at hl hl'
    rcases hmem ht with hin | rfl
    · rcases hmem ht' with hin' | rfl
      · exact h.names t hin t' hin' hl hl' heq
      · exact absurd heq (hname t hin hl)
    · rcases hmem ht' with hin' | rfl
      · exact absurd heq.symm (hname t' hin' hl')
      · rfl
  · rw [hL] at hl
    rcases hmem ht with hin | rfl
    · exact (h.chain t hin hl).congr hpl hpn
    · refine ⟨⟨1, ?_⟩, nodup_singleton _, fun p hp => ?_⟩
      · rw [hpn, trail, hnext]
      · rw [hpl, mem_singleton.mp hp]
        exact hlive
  · rw [hL] at hl hl'
    rcases hmem ht with hin | rfl
    · rcases hmem ht' with hin' | rfl
      · exact h.disjoint t hin t' hin' hl hl' hne p hp
      · rintro hp'
        rw [mem_singleton.mp hp'] at hp
        exact hown t hin hl hp
    · rcases hmem ht' with hin' | rfl
      · rw [mem_singleton.mp hp]
        exact hown t' hin' hl'
      · exact absurd rfl hne

/-! ## A table is dropped -/

/-- The marker of a live table. -/
theorem append_drop (h : Described log ts) (ht : t ∈ ts) (hl : t.Live log) :
    Described (log ++ [.PgClass (drop_row t.name t.entry)]) ts ∧
      ¬ t.Live (log ++ [.PgClass (drop_row t.name t.entry)]) ∧
      ∀ t' ∈ ts, t' ≠ t →
        (t'.Live (log ++ [.PgClass (drop_row t.name t.entry)]) ↔ t'.Live log) := by
  set r : DdlRecord := .PgClass (drop_row t.name t.entry) with hr
  have hrel : relations (log ++ [r]) = relations log ++ [drop_row t.name t.entry] := by
    rw [relations_append]
    rfl
  have hdead : ¬ t.Live (log ++ [r]) := by
    intro hlive
    apply hlive
    rw [hrel]
    simp
  have hother : ∀ t' ∈ ts, t' ≠ t → (t'.Live (log ++ [r]) ↔ t'.Live log) := by
    intro t' ht' hne
    unfold TableDesc.Live
    rw [hrel, mem_append, mem_singleton, not_or]
    refine and_iff_left_of_imp fun _ heq => hne (h.eq_of_oid ht' ht ?_)
    exact congrArg RelationRow.oid heq
  have hlive : ∀ {t'}, t' ∈ ts → t'.Live (log ++ [r]) → t' ≠ t ∧ t'.Live log := by
    intro t' ht' hl'
    have hne : t' ≠ t := by
      rintro rfl
      exact hdead hl'
    exact ⟨hne, (hother t' ht' hne).mp hl'⟩
  refine ⟨{ h with
    relpages := ?_
    rows := fun t' ht' => ?_
    attrs := fun t' ht' => ?_
    names := fun a ha b hb hla hlb => h.names a ha b hb (hlive ha hla).2 (hlive hb hlb).2
    chain := fun a ha hla => (h.chain a ha (hlive ha hla).2).congr (page_live_append log r)
      (page_next_append log r)
    disjoint := fun a ha b hb hla hlb => h.disjoint a ha b hb (hlive ha hla).2 (hlive hb hlb).2 },
    hdead, hother⟩
  · rw [relpages_append]
    exact (append_nil _).trans h.relpages
  · rw [hrel, filter_append]
    by_cases hne : t' = t
    · subst hne
      right
      rw [h.live_rows_of ht hl]
      have hoid : (drop_row t'.name t'.entry).oid = t'.entry.oid := rfl
      simp [hoid]
    · have hoid : (drop_row t.name t.entry).oid ≠ t'.entry.oid := fun heq =>
        hne (h.eq_of_oid ht' ht heq.symm)
      rw [List.filter_cons_of_neg (by simpa using hoid), filter_nil, append_nil]
      exact h.rows t' ht'
  · rw [attributes_append]
    exact (congrArg _ (append_nil _)).trans (h.attrs t' ht')

/-! ## A chain grows -/

/-- A page behind the last one of the table with the given OID. -/
def extended (oid : Oid) (q : PageId) (t : TableDesc) : TableDesc :=
  if t.entry.oid = oid then { t with pages := t.pages ++ [q] } else t

theorem extended_key (oid : Oid) (q : PageId) (t : TableDesc) : (extended oid q t).key = t.key := by
  unfold extended
  split_ifs <;> rfl

theorem extended_name (oid : Oid) (q : PageId) (t : TableDesc) :
    (extended oid q t).name = t.name := congrArg Prod.fst (extended_key oid q t)

theorem extended_entry (oid : Oid) (q : PageId) (t : TableDesc) :
    (extended oid q t).entry = t.entry := congrArg Prod.snd (extended_key oid q t)

theorem append_link (h : Described log ts) (ht : t ∈ ts) (hl : t.Live log) (hne : t.pages ≠ [])
    {q : PageId} (hlive : page_live log q = true) (hnext : page_next log q = none)
    (hown : Unowned log ts q) :
    Described (log ++ [.PageLink (t.pages.getLast hne) q]) (ts.map (extended t.entry.oid q)) := by
  set r : DdlRecord := .PageLink (t.pages.getLast hne) q with hr
  have hrel : relations (log ++ [r]) = relations log := by
    rw [relations_append]
    exact append_nil _
  have hatt : attributes (log ++ [r]) = attributes log := by
    rw [attributes_append]
    exact append_nil _
  have hL : ∀ {u : TableDesc}, (extended t.entry.oid q u).Live (log ++ [r]) ↔ u.Live log := by
    intro u
    unfold TableDesc.Live
    rw [hrel, extended_name, extended_entry]
  have hpl : page_live (log ++ [r]) = page_live log := page_live_append log r
  have hpn : page_next (log ++ [r]) =
      update (page_next log) (t.pages.getLast hne) (some q) := page_next_append log r
  have hself : extended t.entry.oid q t = { t with pages := t.pages ++ [q] } := if_pos rfl
  have hother : ∀ {u}, u ∈ ts → u ≠ t → extended t.entry.oid q u = u := fun hu hut =>
    if_neg fun heq => hut (h.eq_of_oid hu ht heq)
  -- a chain other than the one that grows does not have its last page, nor the new one
  have hapart : ∀ {u}, u ∈ ts → u.Live log → u ≠ t → ∀ p ∈ u.pages, p ∉ t.pages ++ [q] := by
    intro u hu hlu hut p hp
    rw [mem_append, mem_singleton]
    rintro (hmem | rfl)
    · exact h.disjoint u hu t ht hlu hl hut p hp hmem
    · exact hown u hu hlu hp
  refine {
    relpages := ?_
    nodup := ?_
    user := List.forall_mem_map.mpr fun u hu => ?_
    sane := List.forall_mem_map.mpr fun u hu => ?_
    rows := List.forall_mem_map.mpr fun u hu => ?_
    attrs := List.forall_mem_map.mpr fun u hu => ?_
    valid := List.forall_mem_map.mpr fun u hu => ?_
    names := List.forall_mem_map.mpr fun u hu => List.forall_mem_map.mpr fun v hv hlu hlv heq => ?_
    chain := List.forall_mem_map.mpr fun u hu hlu => ?_
    disjoint := List.forall_mem_map.mpr fun u hu => List.forall_mem_map.mpr
      fun v hv hlu hlv hneq p hp hp' => ?_ }
  · rw [relpages_append, map_map]
    refine (append_nil _).trans (h.relpages.trans (List.map_congr_left fun u _ => ?_))
    rw [Function.comp_apply, extended_entry]
  · rw [map_map]
    have hmap : (ts.map ((fun t => t.entry.oid) ∘ extended t.entry.oid q)) =
        ts.map fun t => t.entry.oid :=
      List.map_congr_left fun u _ => by rw [Function.comp_apply, extended_entry]
    rw [hmap]
    exact h.nodup
  · rw [extended_entry]
    exact h.user u hu
  · rw [extended_entry]
    exact h.sane u hu
  · rw [hrel, extended_entry, extended_name]
    exact h.rows u hu
  · rw [hatt, extended_entry]
    exact h.attrs u hu
  · rw [extended_entry]
    exact h.valid u hu
  · rw [extended_name, extended_name] at heq
    rw [h.names u hu v hv (hL.mp hlu) (hL.mp hlv) heq]
  · rw [hL] at hlu
    have hold := h.chain u hu hlu
    obtain ⟨fuel, hwalk⟩ := hold.walk
    by_cases hut : u = t
    · subst hut
      have hq : q ∉ u.pages := hown u hu hlu
      rw [hself]
      refine ⟨⟨fuel + 1, ?_⟩, ?_, fun p hp => ?_⟩
      · rw [hpn]
        exact trail_link hwalk hold.nodup hne hq hnext
      · rw [List.nodup_append]
        refine ⟨hold.nodup, nodup_singleton _, ?_⟩
        rintro a ha b hb rfl
        rw [mem_singleton.mp hb] at ha
        exact hq ha
      · rw [hpl]
        rcases mem_append.mp hp with hin | hin
        · exact hold.live p hin
        · rw [mem_singleton.mp hin]
          exact hlive
    · rw [hother hu hut]
      refine ⟨⟨fuel, trail_of_agree hwalk fun p hp => ?_⟩, hold.nodup, by rw [hpl]; exact hold.live⟩
      have hlast : p ≠ t.pages.getLast hne := by
        rintro rfl
        exact hapart hu hlu hut _ hp (mem_append_left _ (List.getLast_mem hne))
      rw [hpn, update_of_ne hlast]
  · rw [hL] at hlu hlv
    have huv : u ≠ v := by
      rintro rfl
      exact hneq rfl
    by_cases hut : u = t
    · subst hut
      rw [hself] at hp
      rw [hother hv huv.symm] at hp'
      exact hapart hv hlv huv.symm p hp' hp
    · rw [hother hu hut] at hp
      by_cases hvt : v = t
      · subst hvt
        rw [hself] at hp'
        exact hapart hu hlu hut p hp hp'
      · rw [hother hv hvt] at hp'
        exact h.disjoint u hu v hv hlu hlv huv p hp hp'

/-- The walk has fuel enough. -/
theorem walk_chain_eq (h : Described log ts) (ht : t ∈ ts) (hl : t.Live log) :
    walk_chain log t.entry.first_page = some t.pages := by
  have hold := h.chain t ht hl
  obtain ⟨fuel, hwalk⟩ := hold.walk
  have hsub : t.pages.map DdlRecord.PageAlloc ⊆ log := by
    rintro r hr
    obtain ⟨p, hp, rfl⟩ := mem_map.mp hr
    exact alloc_mem_of_live log (hold.live p hp)
  have hnodup : (t.pages.map DdlRecord.PageAlloc).Nodup :=
    hold.nodup.map fun _ _ heq => DdlRecord.PageAlloc.inj heq
  have hlen := (List.subperm_of_subset hnodup hsub).length_le
  rw [List.length_map] at hlen
  exact trail_mono (trail_length hwalk) (hlen.trans (Nat.le_succ _))

end Described

/-! ## Opening succeeds -/

theorem live_rows_concat (rows : List RelationRow) (r : RelationRow) :
    live_rows (rows ++ [r]) = match r.kind with
      | .dropped => (live_rows rows).filter (·.oid ≠ r.oid)
      | .table => (live_rows rows).filter (·.oid ≠ r.oid) ++ [r] := by
  unfold live_rows
  rw [foldl_append]
  rfl

/-- The fold keeps the last row of an OID if it is not a drop. -/
theorem mem_live_rows {row : RelationRow} (rows : List RelationRow) :
    row ∈ live_rows rows ↔
      row.kind = .table ∧ (rows.filter (·.oid = row.oid)).getLast? = some row := by
  induction rows using reverseRecOn with
  | nil => simp [live_rows]
  | append_singleton rows r ih =>
    rw [live_rows_concat, filter_append]
    by_cases hoid : r.oid = row.oid
    · -- the row of the new OID is the new one, or none
      rw [List.filter_cons_of_pos (by simpa using hoid), filter_nil, List.getLast?_concat,
        Option.some.injEq]
      cases hk : r.kind with
      | dropped =>
        simp only [mem_filter, hoid]
        constructor
        · rintro ⟨-, hne⟩
          simp at hne
        · rintro ⟨hkind, rfl⟩
          rw [hk] at hkind
          simp at hkind
      | table =>
        simp only [mem_append, mem_filter, hoid, mem_singleton]
        constructor
        · rintro (⟨-, hne⟩ | rfl)
          · simp at hne
          · exact ⟨hk, rfl⟩
        · rintro ⟨-, rfl⟩
          exact .inr rfl
    · rw [List.filter_cons_of_neg (by simpa using hoid), filter_nil, append_nil, ← ih]
      have hne : row ≠ r := by
        rintro rfl
        exact hoid rfl
      have hoid' : row.oid ≠ r.oid := fun heq => hoid heq.symm
      cases hk : r.kind <;> simp [mem_filter, hne, hoid']

theorem live_rows_pairwise (rows : List RelationRow) :
    (live_rows rows).Pairwise fun a b => a.oid ≠ b.oid := by
  induction rows using reverseRecOn with
  | nil => exact List.Pairwise.nil
  | append_singleton rows r ih =>
    have hkeep := ih.filter (fun row => decide (row.oid ≠ r.oid))
    rw [live_rows_concat]
    cases r.kind with
    | dropped => exact hkeep
    | table =>
      refine List.pairwise_append.mpr ⟨hkeep, List.pairwise_singleton _ _, ?_⟩
      rintro a ha b hb
      rw [mem_singleton.mp hb]
      exact of_decide_eq_true (mem_filter.mp ha).2

/-- The attribute rows of a table give its columns back, in order. -/
theorem columns_of_attribute_rows {oid : Oid} {columns : List ColumnDef} (n : ℕ)
    (hvalid : ∀ c ∈ columns, ValidType c.col_type) :
    ((columns.zipIdx n).map (attribute_row oid)).mapM column_of = some columns := by
  induction columns generalizing n with
  | nil => rfl
  | cons c columns ih =>
    have hc : column_of (attribute_row oid (c, n)) = some c := by
      unfold column_of attribute_row
      simp only
      rw [column_type_of_type_oid (hvalid c (.head _))]
      rfl
    rw [List.zipIdx_cons, List.map_cons, List.mapM_cons, hc,
      ih (n + 1) fun d hd => hvalid d (.tail _ hd)]
    rfl

theorem attribute_rows_sorted (oid : Oid) (columns : List ColumnDef) (n : ℕ) :
    ((columns.zipIdx n).map (attribute_row oid)).Pairwise fun a b => a.num ≤ b.num := by
  induction columns generalizing n with
  | nil => exact List.Pairwise.nil
  | cons c columns ih =>
    rw [List.zipIdx_cons, List.map_cons, List.pairwise_cons]
    refine ⟨?_, ih (n + 1)⟩
    rintro a ha
    obtain ⟨⟨d, i⟩, hd, rfl⟩ := mem_map.mp ha
    have hle := List.le_snd_of_mem_zipIdx hd
    change n + 1 ≤ i + 1
    simp only at hle
    omega

namespace Described

variable {log : List DdlRecord} {ts : List TableDesc}

/-- A live row with a chain is that of a table, and it is registered as that table. -/
theorem register_eq (h : Described log ts) {row : RelationRow}
    (hrow : row ∈ live_rows (relations log)) (registry : List (String × TableEntry)) :
    ((∀ t ∈ ts, t.entry.oid ≠ row.oid) ∧ register log registry row = .ok registry) ∨
    ∃ t ∈ ts, t.entry.oid = row.oid ∧ t.Live log ∧ t.name = row.name ∧
      register log registry row =
        if registry.any (·.1 = t.name) then .error (.duplicate_table row.name)
        else .ok (registry ++ [t.key]) := by
  obtain ⟨hkind, hlast⟩ := (mem_live_rows _).mp hrow
  by_cases hex : ∃ t ∈ ts, t.entry.oid = row.oid
  · obtain ⟨t, ht, hoid⟩ := hex
    right
    have hpages : relpages_of log row.oid = some (relpages_row t.entry) := by
      unfold relpages_of
      rw [h.relpages, List.find?_map]
      have hfind : ts.find? ((fun r => decide (r.rel_oid = row.oid)) ∘
          fun t => relpages_row t.entry) = some t := by
        rcases hf : ts.find? ((fun r => decide (r.rel_oid = row.oid)) ∘
          fun t => relpages_row t.entry) with _ | u
        · have hnone := List.find?_eq_none.mp hf t ht
          simp [relpages_row, hoid] at hnone
        · have hu := List.find?_some hf
          have huo : u.entry.oid = row.oid := by simpa [relpages_row] using hu
          rw [hf, h.eq_of_oid (List.mem_of_find?_eq_some hf) ht (huo.trans hoid.symm)]
      rw [hfind]
      rfl
    -- the last row of the OID is not a drop, so it is the only one
    have hrows : (relations log).filter (·.oid = t.entry.oid) = [class_row t.name t.entry] := by
      rcases h.rows t ht with hr | hr
      · exact hr
      · rw [← hoid, hr] at hlast
        have heq : drop_row t.name t.entry = row := by simpa using hlast
        rw [← heq] at hkind
        exact absurd hkind (by simp [drop_row])
    have hrow' : row = class_row t.name t.entry := by
      rw [← hoid, hrows] at hlast
      simpa using hlast.symm
    have hlive : t.Live log := by
      intro hmem
      have hin : drop_row t.name t.entry ∈ (relations log).filter (·.oid = t.entry.oid) :=
        mem_filter.mpr ⟨hmem, decide_eq_true rfl⟩
      rw [hrows] at hin
      exact absurd (mem_singleton.mp hin) (by simp [drop_row, class_row])
    have hattrs : (attributes_of log row.oid).mapM column_of = some t.entry.columns := by
      unfold attributes_of
      rw [← hoid, h.attrs t ht]
      have hsorted : (attribute_rows t.entry).insertionSort (fun a b => a.num ≤ b.num) =
          attribute_rows t.entry := (attribute_rows_sorted _ _ 0).insertionSort_eq
      rw [hsorted]
      exact columns_of_attribute_rows 0 (h.valid t ht)
    refine ⟨t, ht, hoid, hlive, by rw [hrow']; rfl, ?_⟩
    have huser : ¬ row.oid < FIRST_USER := by
      rw [← hoid]
      exact not_lt.mpr (h.user t ht)
    unfold register
    rw [if_neg huser, hpages]
    simp only
    rw [hattrs]
    simp only
    have hname : row.name = t.name := by
      rw [hrow']
      rfl
    have hentry : (⟨row.oid, (relpages_row t.entry).first_page, t.entry.columns⟩ : TableEntry) =
        t.entry := by
      rw [← hoid]
      rfl
    rw [hentry, hname]
    rfl
  · left
    have hall : ∀ t ∈ ts, t.entry.oid ≠ row.oid := fun t ht heq => hex ⟨t, ht, heq⟩
    refine ⟨hall, ?_⟩
    have hpages : relpages_of log row.oid = none := by
      unfold relpages_of
      rw [h.relpages, List.find?_eq_none]
      rintro r hr
      obtain ⟨t, ht, rfl⟩ := mem_map.mp hr
      simp [relpages_row, hall t ht]
    unfold register
    rw [hpages]
    simp

/-- The loop of `build_registry`. The registry so far has tables whose rows are done. -/
theorem foldlM_register (h : Described log ts) :
    ∀ (rows : List RelationRow) (registry : List (String × TableEntry)),
      (∀ row ∈ rows, row ∈ live_rows (relations log)) →
      rows.Pairwise (fun a b => a.oid ≠ b.oid) →
      (∀ c ∈ registry, ∃ t ∈ ts, t.key = c ∧ t.Live log ∧ ∀ row ∈ rows, row.oid ≠ t.entry.oid) →
      ∃ result, rows.foldlM (register log) registry = .ok result ∧
        ∀ c, c ∈ result ↔ c ∈ registry ∨
          ∃ t ∈ ts, t.key = c ∧ t.Live log ∧ ∃ row ∈ rows, row.oid = t.entry.oid := by
  intro rows
  induction rows with
  | nil =>
    intro registry _ _ _
    exact ⟨registry, rfl, fun c => by simp⟩
  | cons row rows ih =>
    intro registry hrows hpair hreg
    obtain ⟨hhead, htail⟩ := List.pairwise_cons.mp hpair
    rcases h.register_eq (hrows row (.head _)) registry with ⟨hall, heq⟩ | hreg'
    · -- no chain: a table that was never finished
      obtain ⟨result, hres, hmem⟩ := ih registry (fun r hr => hrows r (.tail _ hr))
        htail (fun c hc => by
          obtain ⟨t, ht, hk, hl, hd⟩ := hreg c hc
          exact ⟨t, ht, hk, hl, fun r hr => hd r (.tail _ hr)⟩)
      refine ⟨result, ?_, fun c => (hmem c).trans (or_congr_right ?_)⟩
      · rw [List.foldlM_cons, heq]
        exact hres
      · refine exists_congr fun t => and_congr_right fun ht => and_congr_right fun _ =>
          and_congr_right fun _ => ?_
        constructor
        · rintro ⟨r, hr, hro⟩
          exact ⟨r, List.mem_cons_of_mem _ hr, hro⟩
        · rintro ⟨r, hr, hro⟩
          rcases mem_cons.mp hr with rfl | hr
          · exact absurd hro.symm (hall t ht)
          · exact ⟨r, hr, hro⟩
    · obtain ⟨t, ht, hoid, hl, hname, heq⟩ := hreg'
      have hfresh : ¬ registry.any (·.1 = t.name) = true := by
        intro hany
        obtain ⟨c, hc, hcn⟩ := List.any_eq_true.mp hany
        obtain ⟨u, hu, hk, hlu, hd⟩ := hreg c hc
        have hun : u.name = t.name := by
          have hfst : u.name = c.1 := congrArg Prod.fst hk
          rw [hfst]
          exact of_decide_eq_true hcn
        have hut := h.names u hu t ht hlu hl hun
        exact hd row (.head _) (by rw [hut, hoid])
      rw [if_neg hfresh] at heq
      obtain ⟨result, hres, hmem⟩ := ih (registry ++ [t.key])
        (fun r hr => hrows r (.tail _ hr)) htail (fun c hc => by
          rcases mem_append.mp hc with hin | hin
          · obtain ⟨u, hu, hk, hlu, hd⟩ := hreg c hin
            exact ⟨u, hu, hk, hlu, fun r hr => hd r (.tail _ hr)⟩
          · refine ⟨t, ht, (mem_singleton.mp hin).symm, hl, fun r hr heq' => ?_⟩
            exact hhead r hr (hoid.symm.trans heq'.symm))
      refine ⟨result, ?_, fun c => (hmem c).trans ?_⟩
      · rw [List.foldlM_cons, heq]
        exact hres
      · rw [mem_append, mem_singleton, or_assoc]
        refine or_congr_right ?_
        constructor
        · rintro (rfl | ⟨u, hu, hk, hlu, r, hr, hro⟩)
          · exact ⟨t, ht, rfl, hl, row, (.head _), hoid.symm⟩
          · exact ⟨u, hu, hk, hlu, r, List.mem_cons_of_mem _ hr, hro⟩
        · rintro ⟨u, hu, hk, hlu, r, hr, hro⟩
          rcases mem_cons.mp hr with rfl | hr
          · left
            rw [← hk, h.eq_of_oid hu ht (hro.symm.trans hoid.symm)]
          · exact .inr ⟨u, hu, hk, hlu, r, hr, hro⟩

theorem le_start_oid_fold (oids : List Oid) (start : Oid) :
    start ≤ oids.foldl (fun start oid => max start (oid + 1)) start ∧
      ∀ o ∈ oids, o < oids.foldl (fun start oid => max start (oid + 1)) start := by
  induction oids generalizing start with
  | nil => exact ⟨le_rfl, by simp⟩
  | cons o oids ih =>
    obtain ⟨hle, hlt⟩ := ih (max start (o + 1))
    refine ⟨(le_max_left _ _).trans hle, fun o' ho' => ?_⟩
    rcases mem_cons.mp ho' with rfl | hmem
    · exact Nat.lt_of_lt_of_le (Nat.lt_succ_self _) ((le_max_right _ _).trans hle)
    · exact hlt o' hmem

/-- **A described log opens.** The registry has the tables that were not dropped, and the
next OID is above every one in the catalog. -/
theorem open_engine_ok (h : Described log ts) (sb_next_oid : Oid) :
    ∃ registry, open_engine sb_next_oid log = .ok (registry, start_oid sb_next_oid log) ∧
      ∀ c, c ∈ registry ↔ ∃ t ∈ ts, t.key = c ∧ t.Live log := by
  obtain ⟨registry, hreg, hmem⟩ := h.foldlM_register (live_rows (relations log)) []
    (fun _ hr => hr) (live_rows_pairwise _) (by simp)
  refine ⟨registry, ?_, fun c => (hmem c).trans ?_⟩
  · have hsane : (Ddl.relpages log).find? (fun r => decide (MAX_SANE_OID < r.rel_oid)) = none := by
      rw [h.relpages, List.find?_eq_none]
      rintro r hr
      obtain ⟨t, ht, rfl⟩ := mem_map.mp hr
      intro hd
      exact absurd (of_decide_eq_true hd) (not_lt.mpr (h.sane t ht))
    unfold open_engine build_registry
    rw [hsane, hreg]
    rfl
  · constructor
    · rintro (hnil | ⟨t, ht, hk, hl, -⟩)
      · simp at hnil
      · exact ⟨t, ht, hk, hl⟩
    · rintro ⟨t, ht, hk, hl⟩
      refine .inr ⟨t, ht, hk, hl, class_row t.name t.entry, ?_, rfl⟩
      rw [mem_live_rows]
      refine ⟨rfl, ?_⟩
      have hrows := h.live_rows_of ht hl
      change ((relations log).filter (·.oid = t.entry.oid)).getLast? = _
      rw [hrows]
      rfl

theorem lt_start_oid (h : Described log ts) (sb_next_oid : Oid) {t : TableDesc} (ht : t ∈ ts) :
    t.entry.oid < start_oid sb_next_oid log := by
  refine (le_start_oid_fold _ _).2 _ (List.mem_append_right _ ?_)
  rw [h.relpages, map_map]
  exact mem_map.mpr ⟨t, ht, rfl⟩

end Described

/-! ## The invariant -/

/-- What the calls have promised, in a cut of the log. -/
structure Hist (s : DdlSys) (log : List DdlRecord) (ts : List TableDesc) : Prop where
  created : ∀ c ∈ s.created, ∃ t ∈ ts, t.key = c ∧ (c.2.oid ∉ s.drop_called → t.Live log)
  registered : ∀ c ∈ s.registry, ∃ t ∈ ts, t.key = c
  called : ∀ o ∈ s.drop_called, ∃ t ∈ ts, t.entry.oid = o
  dropped : ∀ o ∈ s.dropped, ∃ t ∈ ts, t.entry.oid = o ∧ ¬ t.Live log

theorem live_of_append {log more : List DdlRecord} {t : TableDesc} (h : t.Live (log ++ more)) :
    t.Live log := by
  intro hm
  apply h
  rw [relations_append]
  exact mem_append_left _ hm

theorem live_key {log : List DdlRecord} {t t' : TableDesc} (h : t.key = t'.key) :
    t.Live log ↔ t'.Live log := by
  have hn : t.name = t'.name := congrArg Prod.fst h
  have he : t.entry = t'.entry := congrArg Prod.snd h
  unfold TableDesc.Live
  rw [hn, he]

variable {ts : List TableDesc}

/-- More records, which keep the tables and drop none that was not asked to be. -/
theorem Hist.append {s : DdlSys} {log more : List DdlRecord} {ts' : List TableDesc}
    (h : Hist s log ts) (hkeys : ∀ t ∈ ts, ∃ t' ∈ ts', t'.key = t.key)
    (hdrops : ∀ t ∈ ts, drop_row t.name t.entry ∈ relations more → t.entry.oid ∈ s.drop_called) :
    Hist s (log ++ more) ts' where
  created c hc := by
    obtain ⟨t, ht, hk, hl⟩ := h.created c hc
    obtain ⟨t', ht', hk'⟩ := hkeys t ht
    refine ⟨t', ht', hk'.trans hk, fun hno => (live_key hk').mpr fun hm => ?_⟩
    rw [relations_append] at hm
    rcases mem_append.mp hm with hin | hin
    · exact hl hno hin
    · apply hno
      have hoid := hdrops t ht hin
      have heq : t.entry = c.2 := congrArg Prod.snd hk
      rwa [← heq]
  registered c hc := by
    obtain ⟨t, ht, hk⟩ := h.registered c hc
    obtain ⟨t', ht', hk'⟩ := hkeys t ht
    exact ⟨t', ht', hk'.trans hk⟩
  called o ho := by
    obtain ⟨t, ht, hoid⟩ := h.called o ho
    obtain ⟨t', ht', hk'⟩ := hkeys t ht
    have heq : t'.entry = t.entry := congrArg Prod.snd hk'
    exact ⟨t', ht', by rw [heq]; exact hoid⟩
  dropped o ho := by
    obtain ⟨t, ht, hoid, hdead⟩ := h.dropped o ho
    obtain ⟨t', ht', hk'⟩ := hkeys t ht
    have heq : t'.entry = t.entry := congrArg Prod.snd hk'
    refine ⟨t', ht', by rw [heq]; exact hoid, fun hl => hdead ?_⟩
    exact live_of_append ((live_key hk').mp hl)

/-- What a call knew of the log when it began, and the records it set out to append. -/
def CallPre (s : DdlSys) (base : List DdlRecord) (ts : List TableDesc) (full : List DdlRecord) :
    Finish → Prop
  | .create name e => full = create_script name e ∧
      (∀ row ∈ relations base, row.oid ≠ e.oid) ∧ (∀ row ∈ attributes base, row.rel ≠ e.oid) ∧
      (∀ t ∈ ts, t.entry.oid ≠ e.oid) ∧ FIRST_USER ≤ e.oid ∧ e.oid ≤ MAX_SANE_OID ∧
      (∀ c ∈ e.columns, ValidType c.col_type) ∧ (∀ t ∈ ts, t.Live base → t.name ≠ name) ∧
      page_live base e.first_page = false ∧ e.oid < s.next_oid
  | .drop name e => ∃ t ∈ ts, t.key = (name, e) ∧ t.Live base ∧
      full = drop_script name e t.pages ∧ e.oid ∈ s.drop_called
  | .extend => ∃ t ∈ ts, t.Live base ∧ ∃ (hne : t.pages ≠ []) (q : PageId),
      page_live base q = false ∧ full = extend_script (t.pages.getLast hne) q
  | .failed => False

/-- A list of foreign records. -/
theorem Described.append_foreigns {base : List DdlRecord} (h : Described base ts)
    (done : List DdlRecord) (hall : ∀ r ∈ done, ∀ pre, Described.Foreign (base ++ pre) ts r) :
    Described (base ++ done) ts := by
  induction done using reverseRecOn with
  | nil => rwa [append_nil]
  | append_singleton done r ih =>
    rw [← append_assoc]
    exact (ih fun r' hr' => hall r' (mem_append_left _ hr')).append_foreign
      (hall r (by simp) done)

theorem Described.Unowned.more {base : List DdlRecord} {p : PageId}
    (h : Described.Unowned base ts p) (more : List DdlRecord) :
    Described.Unowned (base ++ more) ts p := fun t ht hl => h t ht (live_of_append hl)

section Create

variable {base : List DdlRecord} {ts : List TableDesc} {name : String} {e : TableEntry}

/-- What `create_table` writes before its last row says nothing of other tables. -/
theorem create_prelude_foreign (h : Described base ts) (hnew : ∀ t ∈ ts, t.entry.oid ≠ e.oid)
    (hfree : page_live base e.first_page = false) :
    ∀ r ∈ create_prelude name e, ∀ pre, Described.Foreign (base ++ pre) ts r := by
  intro r hr pre
  have hown := (h.unowned_of_not_live hfree).more pre
  rcases mem_append.mp hr with hin | hin
  · rcases mem_cons.mp hin with rfl | hin
    · exact Described.foreign_page hown (.inl rfl)
    rcases mem_cons.mp hin with rfl | hin
    · exact Described.foreign_page hown (.inr (.inr rfl))
    rw [mem_singleton.mp hin]
    exact Described.foreign_class fun t ht heq => hnew t ht heq.symm
  · obtain ⟨row, hrow, rfl⟩ := mem_map.mp hin
    obtain ⟨c, -, rfl⟩ := mem_map.mp hrow
    exact Described.foreign_attribute fun t ht heq => hnew t ht heq.symm

theorem relations_create_prelude : relations (create_prelude name e) = [class_row name e] := by
  unfold create_prelude
  rw [relations_append]
  simp [relations, List.filterMap_map]

theorem attributes_create_prelude : attributes (create_prelude name e) = attribute_rows e := by
  unfold create_prelude
  rw [attributes_append]
  simp [attributes, List.filterMap_map]

theorem page_after_create_prelude :
    page_live (base ++ create_prelude name e) e.first_page = true ∧
      page_next (base ++ create_prelude name e) e.first_page = none := by
  have hlive : ∀ (l : List AttributeRow) (f : PageId → Bool),
      (l.map DdlRecord.PgAttribute).foldl live_record f = f := by
    intro l f
    rw [List.foldl_map, List.foldl_fixed' fun _ => rfl]
  have hnext : ∀ (l : List AttributeRow) (f : PageId → Option PageId),
      (l.map DdlRecord.PgAttribute).foldl next_record f = f := by
    intro l f
    rw [List.foldl_map, List.foldl_fixed' fun _ => rfl]
  unfold page_live page_next create_prelude
  rw [← append_assoc, foldl_append, hlive, foldl_append, foldl_append, hnext,
    foldl_append]
  exact ⟨update_self .., update_self ..⟩

/-- The last row of `create_table` makes the table. -/
theorem create_described (h : Described base ts) (hrel : ∀ row ∈ relations base, row.oid ≠ e.oid)
    (hatt : ∀ row ∈ attributes base, row.rel ≠ e.oid) (hnew : ∀ t ∈ ts, t.entry.oid ≠ e.oid)
    (huser : FIRST_USER ≤ e.oid) (hsane : e.oid ≤ MAX_SANE_OID)
    (hvalid : ∀ c ∈ e.columns, ValidType c.col_type)
    (hname : ∀ t ∈ ts, t.Live base → t.name ≠ name)
    (hfree : page_live base e.first_page = false) :
    Described (base ++ create_prelude name e ++ [.PgRelpages (relpages_row e)])
      (ts ++ [⟨name, e, [e.first_page]⟩]) := by
  have hforeign := @create_prelude_foreign base ts name e h hnew hfree
  obtain ⟨hlive, hnext⟩ := @page_after_create_prelude base name e
  refine (h.append_foreigns _ hforeign).append_relpages (fun t ht heq => hnew t ht heq.symm)
    huser hsane ?_ ?_ hvalid (fun t ht hl => hname t ht (live_of_append hl)) hlive hnext
    ((h.unowned_of_not_live hfree).more _)
  · rw [relations_append, relations_create_prelude, filter_append,
      List.filter_eq_nil_iff.mpr (fun row hrow => by simpa using hrel row hrow), List.nil_append]
    exact List.filter_cons_of_pos (decide_eq_true rfl)
  · rw [attributes_append, attributes_create_prelude, filter_append,
      List.filter_eq_nil_iff.mpr (fun row hrow => by simpa using hatt row hrow), List.nil_append]
    refine List.filter_eq_self.mpr fun row hrow => ?_
    obtain ⟨c, -, rfl⟩ := mem_map.mp hrow
    exact decide_eq_true rfl

end Create

/-- What a cut in the middle of a call holds. -/
theorem CallPre.described {s : DdlSys} {base : List DdlRecord} {full done : List DdlRecord}
    {finish : Finish} (hpre : CallPre s base ts full finish) (h : Described base ts)
    (hdone : done <+: full) :
    ∃ ts', Described (base ++ done) ts' ∧ (∀ t ∈ ts, ∃ t' ∈ ts', t'.key = t.key) ∧
      (∀ t' ∈ ts', (∃ t ∈ ts, t.key = t'.key) ∨ ∃ name e, finish = .create name e ∧
        t'.key = (name, e) ∧ .PgRelpages (relpages_row e) ∈ done) ∧
      ∀ t ∈ ts, drop_row t.name t.entry ∈ relations done → finish = .drop t.name t.entry := by
  have hself : ∀ t ∈ ts, ∃ t' ∈ ts, t'.key = t.key := fun t ht => ⟨t, ht, rfl⟩
  have hsame : ∀ t' ∈ ts, (∃ t ∈ ts, t.key = t'.key) ∨ ∃ name e, finish = .create name e ∧
      t'.key = (name, e) ∧ .PgRelpages (relpages_row e) ∈ done := fun t ht => .inl ⟨t, ht, rfl⟩
  cases finish with
  | create name e =>
    obtain ⟨rfl, hrel, hatt, hnew, huser, hsane, hvalid, hname, hfree, -⟩ := hpre
    have hdrops : ∀ t ∈ ts, drop_row t.name t.entry ∈ relations done →
        Finish.create name e = .drop t.name t.entry := by
      intro t ht hm
      have hsub : relations done ⊆ relations (create_script name e) :=
        (hdone.sublist.filterMap _).subset
      have hin := hsub hm
      unfold create_script at hin
      rw [relations_append, relations_create_prelude] at hin
      rcases mem_append.mp hin with heq | heq
      · exact absurd (mem_singleton.mp heq) (by simp [drop_row, class_row])
      · exact absurd heq (by simp [relations])
    unfold create_script at hdone
    have hsplit : create_prelude name e ++ [.PgRelpages (relpages_row e), .TxnCommit] =
        create_prelude name e ++ [.PgRelpages (relpages_row e)] ++ [.TxnCommit] := by simp
    rw [hsplit] at hdone
    have hkeys : ∀ t ∈ ts, ∃ t' ∈ ts ++ [⟨name, e, [e.first_page]⟩], t'.key = t.key := fun t ht =>
      ⟨t, mem_append_left _ ht, rfl⟩
    have hmore : .PgRelpages (relpages_row e) ∈ done →
        ∀ t' ∈ ts ++ [⟨name, e, [e.first_page]⟩], (∃ t ∈ ts, t.key = t'.key) ∨
          ∃ name' e', Finish.create name e = .create name' e' ∧ t'.key = (name', e') ∧
            .PgRelpages (relpages_row e') ∈ done := by
      intro hin t' ht'
      rcases mem_append.mp ht' with hold | hnew'
      · exact .inl ⟨t', hold, rfl⟩
      · rw [mem_singleton.mp hnew']
        exact .inr ⟨name, e, rfl, rfl, hin⟩
    have hmade := create_described h hrel hatt hnew huser hsane hvalid hname hfree
    rcases List.prefix_concat_iff.mp hdone with rfl | hdone
    · refine ⟨_, ?_, hkeys, hmore (by simp), hdrops⟩
      have hcommit := hmade.append_foreign Described.foreign_commit
      rwa [append_assoc, append_assoc, ← append_assoc (create_prelude name e)] at hcommit
    · rcases List.prefix_concat_iff.mp hdone with rfl | hdone
      · refine ⟨_, ?_, hkeys, hmore (by simp), hdrops⟩
        rwa [append_assoc] at hmade
      · exact ⟨ts, h.append_foreigns _ fun r hr =>
          create_prelude_foreign h hnew hfree r (hdone.subset hr), hself, hsame, hdrops⟩
  | drop name e =>
    obtain ⟨t, ht, hk, hl, rfl, hcalled⟩ := hpre
    have hn : t.name = name := congrArg Prod.fst hk
    have he : t.entry = e := congrArg Prod.snd hk
    subst hn he
    have hdrops : ∀ u ∈ ts, drop_row u.name u.entry ∈ relations done →
        Finish.drop t.name t.entry = .drop u.name u.entry := by
      intro u hu hm
      have hsub : relations done ⊆ relations (drop_script t.name t.entry t.pages) :=
        (hdone.sublist.filterMap _).subset
      have hin := hsub hm
      have hrel : relations (drop_script t.name t.entry t.pages) = [drop_row t.name t.entry] := by
        simp [relations, drop_script, List.filterMap_map]
      rw [hrel] at hin
      have hoid : u.entry.oid = t.entry.oid :=
        congrArg RelationRow.oid (mem_singleton.mp hin)
      rw [h.eq_of_oid hu ht hoid]
    unfold drop_script at hdone
    rcases List.prefix_cons_iff.mp hdone with rfl | ⟨rest, rfl, hrest⟩
    · exact ⟨ts, by rwa [append_nil], hself, hsame, hdrops⟩
    · obtain ⟨hdes, hdead, hother⟩ := h.append_drop ht hl
      refine ⟨ts, ?_, hself, hsame, hdrops⟩
      have hall : ∀ r ∈ rest, ∀ pre, Described.Foreign
          (base ++ [.PgClass (drop_row t.name t.entry)] ++ pre) ts r := by
        intro r hr pre
        rcases mem_append.mp (hrest.subset hr) with hin | hin
        · obtain ⟨p, hp, rfl⟩ := mem_map.mp hin
          -- the pages of a dropped table are in no live chain
          refine Described.foreign_page ?_ (.inr (.inl rfl))
          intro u hu hlu hmem
          have hlu' := live_of_append hlu
          have hne : u ≠ t := by
            rintro rfl
            exact hdead hlu'
          exact h.disjoint t ht u hu hl ((hother u hu hne).mp hlu') hne.symm p hp hmem
        · rw [mem_singleton.mp hin]
          exact Described.foreign_commit
      have hres := hdes.append_foreigns rest hall
      rwa [append_assoc] at hres
  | extend =>
    obtain ⟨t, ht, hl, hne, q, hfree, rfl⟩ := hpre
    have hown := h.unowned_of_not_live hfree
    have hdrops : ∀ u ∈ ts, drop_row u.name u.entry ∈ relations done →
        Finish.extend = .drop u.name u.entry := by
      intro u hu hm
      have hsub : relations done ⊆ relations (extend_script (t.pages.getLast hne) q) :=
        (hdone.sublist.filterMap _).subset
      exact absurd (hsub hm) (by simp [relations, extend_script])
    have hfirst : ∀ r ∈ [DdlRecord.PageAlloc q, .PageInit q], ∀ pre,
        Described.Foreign (base ++ pre) ts r := by
      intro r hr pre
      rcases mem_cons.mp hr with rfl | hr
      · exact Described.foreign_page (hown.more pre) (.inl rfl)
      · rw [mem_singleton.mp hr]
        exact Described.foreign_page (hown.more pre) (.inr (.inr rfl))
    have hsplit : extend_script (t.pages.getLast hne) q =
        [.PageAlloc q, .PageInit q] ++ [.PageLink (t.pages.getLast hne) q] := rfl
    rw [hsplit] at hdone
    rcases List.prefix_concat_iff.mp hdone with rfl | hdone
    · have hmid := h.append_foreigns _ hfirst
      have hlive : t.Live (base ++ [.PageAlloc q, .PageInit q]) := by
        unfold TableDesc.Live
        rw [relations_append]
        intro hm
        exact hl ((mem_append.mp hm).resolve_right (by simp [relations]))
      have hpl : page_live (base ++ [.PageAlloc q, .PageInit q]) q = true := by
        unfold page_live
        rw [foldl_append]
        exact update_self ..
      have hpn : page_next (base ++ [.PageAlloc q, .PageInit q]) q = none := by
        unfold page_next
        rw [foldl_append]
        exact update_self ..
      have hres := hmid.append_link ht hlive hne hpl hpn (hown.more _)
      refine ⟨_, by rwa [append_assoc] at hres, fun u hu => ?_, fun u' hu' => ?_, hdrops⟩
      · exact ⟨_, mem_map.mpr ⟨u, hu, rfl⟩, Described.extended_key _ _ _⟩
      · obtain ⟨u, hu, rfl⟩ := mem_map.mp hu'
        exact .inl ⟨u, hu, (Described.extended_key _ _ _).symm⟩
    · exact ⟨ts, h.append_foreigns _ fun r hr => hfirst r (hdone.subset hr), hself, hsame, hdrops⟩
  | failed => exact hpre.elim

/-- An attribute row comes after a `pg_class` row of its table. -/
def Rooted (log : List DdlRecord) : Prop :=
  ∀ row ∈ attributes log, ∃ r ∈ relations log, r.oid = row.rel

namespace DdlSys

/-- The tables when the call under way began, or now if there is none. -/
structure CallOk (s : DdlSys) (base done : List DdlRecord) (ts : List TableDesc) : Prop where
  log : s.log = base ++ done
  described : Described base ts
  hist : Hist s base ts
  registry : ∀ c, c ∈ s.registry ↔ ∃ t ∈ ts, t.key = c ∧ t.Live base
  call : match s.call with
    | none => done = []
    | some c => CallPre s base ts (done ++ c.script) c.finish

structure Inv (s : DdlSys) : Prop where
  synced : s.synced ≤ s.log.length
  cuts : ∀ k, s.synced ≤ k → k ≤ s.log.length →
    ∃ ts, Described (s.log.take k) ts ∧ Hist s (s.log.take k) ts ∧ Rooted (s.log.take k)
  user : FIRST_USER ≤ s.next_oid
  rows : ∀ row ∈ relations s.log, row.oid < s.next_oid
  nodup : (s.created.map fun c => c.2.oid).Nodup
  call : ∃ base done ts, s.CallOk base done ts

theorem create_inv : create.Inv where
  synced := le_rfl
  cuts k _ hk := by
    have hzero : k = 0 := Nat.le_zero.mp hk
    subst hzero
    exact ⟨[], described_nil, ⟨by simp [create], by simp [create], by simp [create],
      by simp [create]⟩, by simp [Rooted, attributes, create]⟩
  user := le_rfl
  rows := by simp [relations, create]
  nodup := List.nodup_nil
  call := ⟨[], [], [], rfl, described_nil, ⟨by simp [create], by simp [create], by simp [create],
    by simp [create]⟩, by simp [create], rfl⟩

variable {s t : DdlSys}

/-- The whole log is a cut. -/
theorem Inv.whole (h : s.Inv) :
    ∃ ts, Described s.log ts ∧ Hist s s.log ts ∧ Rooted s.log := by
  have hcut := h.cuts s.log.length h.synced le_rfl
  rwa [List.take_length] at hcut

/-- A log with one more record has one more cut. -/
theorem cuts_append (h : s.Inv) {r : DdlRecord} (hlog : t.log = s.log ++ [r])
    (hsync : t.synced = s.synced) (hhist : ∀ {log ts}, Hist s log ts → Hist t log ts)
    (hnew : ∃ ts, Described t.log ts ∧ Hist t t.log ts ∧ Rooted t.log) :
    ∀ k, t.synced ≤ k → k ≤ t.log.length →
      ∃ ts, Described (t.log.take k) ts ∧ Hist t (t.log.take k) ts ∧ Rooted (t.log.take k) := by
  intro k hk hlen
  rcases Nat.lt_or_ge s.log.length k with hlt | hle
  · have hall : t.log.take k = t.log := by
      apply List.take_of_length_le
      rw [hlog, List.length_append, List.length_singleton]
      exact hlt
    rwa [hall]
  · rw [hsync] at hk
    obtain ⟨ts, hd, hh, hr⟩ := h.cuts k hk hle
    rw [hlog, List.take_append_of_le_length hle]
    exact ⟨ts, hd, hhist hh, hr⟩

theorem Rooted.append {log : List DdlRecord} (h : Rooted log) {r : DdlRecord}
    (hr : ∀ row, r = .PgAttribute row → ∃ c ∈ relations log, c.oid = row.rel) :
    Rooted (log ++ [r]) := by
  intro row hrow
  have hgrow : ∀ {x : Oid}, (∃ c ∈ relations log, c.oid = x) →
      ∃ c ∈ relations (log ++ [r]), c.oid = x := by
    rintro x ⟨c, hc, hx⟩
    refine ⟨c, ?_, hx⟩
    rw [relations_append]
    exact mem_append_left _ hc
  rw [attributes_append] at hrow
  rcases mem_append.mp hrow with hold | hnew
  · exact hgrow (h row hold)
  · cases r with
    | PgAttribute row' =>
      have heq : row = row' := by simpa [attributes] using hnew
      rw [heq]
      exact hgrow (hr row' rfl)
    | _ => exact absurd hnew (by simp [attributes])

/-- With no call under way the log is the base. -/
theorem Inv.idle (h : s.Inv) (hcall : s.call = none) :
    ∃ ts, Described s.log ts ∧ Hist s s.log ts ∧
      ∀ c, c ∈ s.registry ↔ ∃ t ∈ ts, t.key = c ∧ t.Live s.log := by
  obtain ⟨base, done, ts, hok⟩ := h.call
  have hdone := hok.call
  rw [hcall] at hdone
  have hlog : s.log = base := by rw [hok.log, hdone, append_nil]
  rw [hlog]
  exact ⟨ts, hok.described, hok.hist, hok.registry⟩

variable {ts : List TableDesc}

theorem CallOk.of_idle (hcall : s.call = none) (hd : Described s.log ts) (hh : Hist s s.log ts)
    (hreg : ∀ c, c ∈ s.registry ↔ ∃ t ∈ ts, t.key = c ∧ t.Live s.log) : s.CallOk s.log [] ts :=
  ⟨(append_nil _).symm, hd, hh, hreg, by rw [hcall]⟩

/-! ## Calls begin -/

variable {name : String}

theorem Inv.create_table (h : s.Inv) {schema : List ColumnDef} {page : PageId}
    (hvalid : ∀ c ∈ schema, ValidType c.col_type) (hsane : s.next_oid ≤ MAX_SANE_OID)
    (hst : s.step (.create_table name schema page) = some t) :
    Inv t := by
  obtain ⟨hguard, rfl⟩ := guarded hst
  obtain ⟨hcall, -, -, hname, -, hfree⟩ := hguard
  obtain ⟨ts, hd, hh, hreg⟩ := h.idle (Option.isNone_iff_eq_none.mp hcall)
  obtain ⟨-, -, -, hroot⟩ := h.whole
  have hoid : ∀ u ∈ ts, u.entry.oid ≠ s.next_oid := by
    intro u hu
    have hmem : class_row u.name u.entry ∈ (relations s.log).filter (·.oid = u.entry.oid) := by
      rcases hd.rows u hu with hr | hr <;> rw [hr] <;> simp
    exact (h.rows _ (List.mem_of_mem_filter hmem)).ne
  refine {
    synced := h.synced
    cuts := fun k hk hlen => ?_
    user := h.user.trans (Nat.le_succ _)
    rows := fun row hrow => Nat.lt_succ_of_lt (h.rows row hrow)
    nodup := h.nodup
    call := ⟨s.log, [], ts, (append_nil _).symm, hd, { hh with }, hreg, rfl,
      fun row hrow => (h.rows row hrow).ne, fun row hrow => ?_, hoid, h.user, hsane, hvalid,
      fun u hu hl heq => ?_, hfree, Nat.lt_succ_self _⟩ }
  · obtain ⟨ts', hd', hh', hr'⟩ := h.cuts k hk hlen
    exact ⟨ts', hd', { hh' with }, hr'⟩
  · obtain ⟨r, hr, hro⟩ := hroot row hrow
    rw [← hro]
    exact (h.rows r hr).ne
  · exact hname u.key ((hreg _).mpr ⟨u, hu, rfl, hl⟩) heq

variable {e : TableEntry}

/-- What `drop_table` finds under a name. -/
theorem find_registry {registry : List (String × TableEntry)} {n : String}
    (h : registry.find? (·.1 = name) = some (n, e)) : n = name ∧ (n, e) ∈ registry := by
  have hname := List.find?_some h
  exact ⟨by simpa using hname, List.mem_of_find?_eq_some h⟩

theorem Hist.call_drop {log : List DdlRecord} (h : Hist s log ts) {c : String × TableEntry}
    (hc : c ∈ s.registry) (call : Option PendingCall) :
    Hist { s with drop_called := c.2.oid :: s.drop_called, call := call } log ts where
  created c' hc' := by
    obtain ⟨t, ht, hk, hl⟩ := h.created c' hc'
    exact ⟨t, ht, hk, fun hno => hl fun hm => hno (.tail _ hm)⟩
  registered := h.registered
  called o ho := by
    rcases mem_cons.mp ho with rfl | hin
    · obtain ⟨t, ht, hk⟩ := h.registered c hc
      exact ⟨t, ht, by rw [← hk]; rfl⟩
    · exact h.called o hin
  dropped := h.dropped

theorem Inv.drop_table (h : s.Inv) (hst : s.step (.drop_table name) = some t) : Inv t := by
  unfold step at hst
  simp only at hst
  split at hst
  · rename_i n e hcall hfind
    obtain ⟨rfl, hin⟩ := find_registry hfind
    obtain ⟨ts, hd, hh, hreg⟩ := h.idle hcall
    obtain ⟨u, hu, hk, hl⟩ := (hreg _).mp hin
    have he : u.entry = e := congrArg Prod.snd hk
    have hwalk := hd.walk_chain_eq hu hl
    rw [he] at hwalk
    split_ifs at hst
    rw [hwalk] at hst
    cases hst
    refine {
      synced := h.synced
      cuts := fun k hk hlen => ?_
      user := h.user
      rows := h.rows
      nodup := h.nodup
      call := ⟨s.log, [], ts, (append_nil _).symm, hd, Hist.call_drop hh hin _, hreg,
        u, hu, hk, hl, rfl, (.head _)⟩ }
    obtain ⟨ts', hd', hh', hr'⟩ := h.cuts k hk hlen
    exact ⟨ts', hd', Hist.call_drop hh' hin _, hr'⟩
  · simp at hst

theorem Inv.extend_chain (h : s.Inv) {page : PageId}
    (hst : s.step (.extend_chain name page) = some t) : Inv t := by
  unfold step at hst
  simp only at hst
  split at hst
  · rename_i n e hcall hfind
    obtain ⟨rfl, hin⟩ := find_registry hfind
    obtain ⟨ts, hd, hh, hreg⟩ := h.idle hcall
    obtain ⟨u, hu, hk, hl⟩ := (hreg _).mp hin
    have he : u.entry = e := congrArg Prod.snd hk
    have hwalk := hd.walk_chain_eq hu hl
    rw [he] at hwalk
    rw [hwalk, Option.bind_some] at hst
    split at hst
    · rename_i tail htail
      obtain ⟨hguard, rfl⟩ := guarded hst
      obtain ⟨hne, hlast⟩ : ∃ hne : u.pages ≠ [], u.pages.getLast hne = tail := by
        have hne : u.pages ≠ [] := by
          intro hnil
          rw [hnil] at htail
          simp at htail
        rw [List.getLast?_eq_some_getLast hne] at htail
        exact ⟨hne, Option.some.inj htail⟩
      refine {
        synced := h.synced
        cuts := fun k hk hlen => ?_
        user := h.user
        rows := h.rows
        nodup := h.nodup
        call := ⟨s.log, [], ts, (append_nil _).symm, hd, { hh with }, hreg,
          u, hu, hl, hne, page, hguard.2, by rw [hlast]; rfl⟩ }
      obtain ⟨ts', hd', hh', hr'⟩ := h.cuts k hk hlen
      exact ⟨ts', hd', { hh' with }, hr'⟩
    · simp at hst
  · simp at hst

/-! ## Calls go on and end -/

theorem Inv.insert_row (h : s.Inv) (hst : s.step .insert_row = some t) : Inv t := by
  obtain ⟨hcall, rfl⟩ := guarded hst
  have hnone := Option.isNone_iff_eq_none.mp hcall
  obtain ⟨ts, hd, hh, hreg⟩ := h.idle hnone
  obtain ⟨-, -, -, hroot⟩ := h.whole
  have hd' := hd.append_foreign Described.foreign_other
  have hh' : Hist s (s.log ++ [.other]) ts := hh.append (fun u hu => ⟨u, hu, rfl⟩)
    fun u _ hm => absurd hm (by simp [relations])
  have hr' : Rooted (s.log ++ [.other]) := Rooted.append hroot fun row heq => absurd heq (by simp)
  have hrel : relations (s.log ++ [.other]) = relations s.log := by
    rw [relations_append]
    exact append_nil _
  refine {
    synced := h.synced.trans (by simp)
    cuts := cuts_append h rfl rfl (fun hx => { hx with }) ⟨ts, hd', { hh' with }, hr'⟩
    user := h.user
    rows := fun row hrow => h.rows row (by rwa [← hrel])
    nodup := h.nodup
    call := ⟨_, _, ts, CallOk.of_idle hnone hd' { hh' with } fun c => (hreg c).trans ?_⟩ }
  refine exists_congr fun u => and_congr_right fun _ => and_congr_right fun _ => ?_
  unfold TableDesc.Live
  rw [hrel]

variable {base done : List DdlRecord}

/-- The table of an attribute row has its `pg_class` row before it in the script. -/
theorem attribute_after_class {row : AttributeRow} {rest : List DdlRecord}
    (h : done ++ .PgAttribute row :: rest = create_script name e) :
    row.rel = e.oid ∧ .PgClass (class_row name e) ∈ done := by
  have hmem : .PgAttribute row ∈ create_script name e := by
    rw [← h]
    simp
  constructor
  · unfold create_script create_prelude at hmem
    simp only [mem_append, mem_cons, mem_map, List.not_mem_nil, or_false, reduceCtorEq,
      false_or] at hmem
    obtain ⟨a, ha, heq⟩ := hmem
    obtain ⟨c, -, rfl⟩ := mem_map.mp ha
    rw [← DdlRecord.PgAttribute.inj heq]
    rfl
  · unfold create_script create_prelude at h
    -- it is not one of the first three records
    rcases done with _ | ⟨a, _ | ⟨b, _ | ⟨c, done⟩⟩⟩
    · simp at h
    · simp at h
    · simp at h
    · simp only [List.cons_append, List.cons.injEq] at h
      simp [h.2.2.1]

/-- A `pg_class` row that a call writes is of its own table. -/
theorem CallPre.class_oid {full : List DdlRecord} {finish : Finish}
    (hpre : CallPre s base ts full finish) (hd : Described base ts) {row : RelationRow}
    (hrow : .PgClass row ∈ full) :
    row.oid < s.next_oid ∨ ∃ r ∈ relations base, r.oid = row.oid := by
  cases finish with
  | create name e =>
    obtain ⟨rfl, -, -, -, -, -, -, -, -, hlt⟩ := hpre
    left
    unfold create_script create_prelude at hrow
    simp only [mem_append, mem_cons, mem_map, List.not_mem_nil, or_false,
      reduceCtorEq, false_or, and_false, exists_false] at hrow
    rw [DdlRecord.PgClass.inj hrow]
    exact hlt
  | drop name e =>
    obtain ⟨t, ht, hk, hl, rfl, -⟩ := hpre
    right
    unfold drop_script at hrow
    simp only [mem_append, mem_cons, mem_map, List.not_mem_nil, or_false,
      reduceCtorEq, and_false, exists_false] at hrow
    have hmem : class_row t.name t.entry ∈ (relations base).filter (·.oid = t.entry.oid) := by
      rw [hd.live_rows_of ht hl]
      simp
    refine ⟨_, List.mem_of_mem_filter hmem, ?_⟩
    rw [DdlRecord.PgClass.inj hrow]
    have he : t.entry = e := congrArg Prod.snd hk
    rw [← he]
    rfl
  | extend =>
    obtain ⟨t, ht, hl, hne, q, -, rfl⟩ := hpre
    exact absurd hrow (by simp [extend_script])
  | failed => exact hpre.elim

theorem Inv.append_next (h : s.Inv) (hst : s.step .append_next = some t) :
    Inv t := by
  unfold step at hst
  simp only at hst
  split at hst
  · rename_i r script finish hcall
    cases hst
    obtain ⟨base, done, ts, hok⟩ := h.call
    have hpre := hok.call
    rw [hcall] at hpre
    simp only at hpre
    have hassoc : done ++ r :: script = (done ++ [r]) ++ script := by simp
    have hlog : s.log ++ [r] = base ++ (done ++ [r]) := by rw [hok.log, append_assoc]
    have hprefix : done ++ [r] <+: done ++ r :: script := ⟨script, hassoc.symm⟩
    obtain ⟨ts', hd', hkeys, -, hdrops⟩ := hpre.described hok.described hprefix
    have hcalled : ∀ u ∈ ts, drop_row u.name u.entry ∈ relations (done ++ [r]) →
        u.entry.oid ∈ s.drop_called := by
      intro u hu hm
      rw [hdrops u hu hm] at hpre
      obtain ⟨-, -, -, -, -, hin⟩ := hpre
      exact hin
    have hh' := hok.hist.append hkeys hcalled
    obtain ⟨-, -, -, hroot⟩ := h.whole
    have hr' : Rooted (s.log ++ [r]) := by
      apply Rooted.append hroot
      rintro row rfl
      -- only a create writes attribute rows, and it has written its class row by then
      cases finish with
      | create name e =>
        obtain ⟨hrel, hmem⟩ := attribute_after_class hpre.1
        refine ⟨class_row name e, ?_, hrel.symm⟩
        rw [hok.log, relations_append]
        exact List.mem_append_right _ (List.mem_filterMap.mpr ⟨_, hmem, rfl⟩)
      | drop name e =>
        obtain ⟨u, -, -, -, hfull, -⟩ := hpre
        have hin : .PgAttribute row ∈ drop_script name e u.pages := by
          rw [← hfull]
          simp
        exact absurd hin (by simp [drop_script])
      | extend =>
        obtain ⟨u, -, -, hne, q, -, hfull⟩ := hpre
        have hin : .PgAttribute row ∈ extend_script (u.pages.getLast hne) q := by
          rw [← hfull]
          simp
        exact absurd hin (by simp [extend_script])
      | failed => exact hpre.elim
    have hrows : ∀ row ∈ relations (s.log ++ [r]), row.oid < s.next_oid := by
      intro row hrow
      rw [relations_append] at hrow
      rcases mem_append.mp hrow with hold | hnew
      · exact h.rows row hold
      · have hr : r = .PgClass row := by
          cases r <;> simp [relations] at hnew
          rw [hnew]
        have hin : .PgClass row ∈ done ++ r :: script := by
          rw [hr]
          simp
        rcases CallPre.class_oid hpre hok.described hin with hlt | ⟨c, hc, hco⟩
        · exact hlt
        · rw [← hco]
          refine h.rows c ?_
          rw [hok.log, relations_append]
          exact mem_append_left _ hc
    refine {
      synced := h.synced.trans (by simp)
      cuts := cuts_append h rfl rfl (fun hx => { hx with })
        ⟨ts', by rw [hlog]; exact hd', by rw [hlog]; exact { hh' with }, hr'⟩
      user := h.user
      rows := hrows
      nodup := h.nodup
      call := ⟨base, done ++ [r], ts, hlog, hok.described, { hok.hist with }, hok.registry, ?_⟩ }
    rw [hassoc] at hpre
    exact hpre
  · simp at hst

/-- A call ends. What it has written is the new base. -/
theorem Inv.end_call (h : s.Inv) (hlog : t.log = s.log) (hsync : t.synced = s.synced)
    (hoid : t.next_oid = s.next_oid) (hcall : t.call = none) (hd : Described s.log ts)
    (hh : Hist t s.log ts) (hreg : ∀ c, c ∈ t.registry ↔ ∃ u ∈ ts, u.key = c ∧ u.Live s.log)
    (hnodup : (t.created.map fun c => c.2.oid).Nodup)
    (hcuts : s.log.length ≤ s.synced ∨ ∀ {log ts}, Hist s log ts → Hist t log ts) : Inv t := by
  obtain ⟨-, -, -, hroot⟩ := h.whole
  refine {
    synced := by rw [hlog, hsync]; exact h.synced
    cuts := fun k hk hlen => ?_
    user := by rw [hoid]; exact h.user
    rows := by rw [hlog, hoid]; exact h.rows
    nodup := hnodup
    call := ⟨t.log, [], ts, CallOk.of_idle hcall (by rwa [hlog]) (by rwa [hlog]) (by rwa [hlog])⟩ }
  rw [hlog] at hlen ⊢
  rw [hsync] at hk
  rcases hcuts with hall | hhist
  · have heq : s.log.take k = s.log := List.take_of_length_le (hall.trans hk)
    rw [heq]
    exact ⟨ts, hd, hh, hroot⟩
  · obtain ⟨ts', hd', hh', hr'⟩ := h.cuts k hk hlen
    exact ⟨ts', hd', hhist hh', hr'⟩

/-- The tables after a call's records, against those before. -/
theorem live_append_iff {u : TableDesc} :
    u.Live (base ++ done) ↔ u.Live base ∧ drop_row u.name u.entry ∉ relations done := by
  unfold TableDesc.Live
  rw [relations_append, mem_append, not_or]

/-- A call that is no drop and has not made a table leaves the tables as they were. -/
theorem Inv.end_unchanged (h : s.Inv) {c : PendingCall} (hcall : s.call = some c)
    (hdrop : ∀ name e, c.finish ≠ .drop name e)
    (hmade : ∀ base done name e, s.log = base ++ done → c.finish = .create name e →
      done ++ c.script = create_script name e → .PgRelpages (relpages_row e) ∉ done) :
    Inv { s with call := none } := by
  obtain ⟨base, done, ts, hok⟩ := h.call
  have hpre := hok.call
  rw [hcall] at hpre
  simp only at hpre
  obtain ⟨ts', hd', hkeys, hback, hdrops⟩ := hpre.described hok.described ⟨_, rfl⟩
  have hno : ∀ u ∈ ts, drop_row u.name u.entry ∉ relations done := fun u hu hm =>
    hdrop _ _ (hdrops u hu hm)
  have hold : ∀ u' ∈ ts', ∃ u ∈ ts, u.key = u'.key := by
    intro u' hu'
    rcases hback u' hu' with hin | ⟨name, e, hfin, -, hrp⟩
    · exact hin
    · have hfull : done ++ c.script = create_script name e := by
        rw [hfin] at hpre
        exact hpre.1
      exact absurd hrp (hmade base done name e hok.log hfin hfull)
  have hh' := hok.hist.append hkeys fun u hu hm => absurd hm (hno u hu)
  rw [← hok.log] at hd' hh'
  refine h.end_call rfl rfl rfl rfl hd' { hh' with } (fun k => (hok.registry k).trans ?_) h.nodup
    (.inr fun hx => { hx with })
  rw [hok.log]
  constructor
  · rintro ⟨u, hu, hk, hl⟩
    obtain ⟨u', hu', hk'⟩ := hkeys u hu
    refine ⟨u', hu', hk'.trans hk, (live_key hk').mpr ?_⟩
    exact live_append_iff.mpr ⟨hl, hno u hu⟩
  · rintro ⟨u', hu', hk, hl⟩
    obtain ⟨u, hu, hk'⟩ := hold u' hu'
    exact ⟨u, hu, hk'.trans hk, (live_append_iff.mp ((live_key hk').mpr hl)).1⟩

/-- Before its last two records a create has not written its `pg_rust_relpages` row. -/
theorem relpages_last_but_one {rest : List DdlRecord} {a b : DdlRecord}
    (h : done ++ a :: b :: rest = create_script name e) :
    .PgRelpages (relpages_row e) ∉ done := by
  unfold create_script at h
  have hlen : done.length ≤ (create_prelude name e).length := by
    have hl := congrArg List.length h
    simp only [List.length_append, List.length_cons, List.length_nil] at hl
    omega
  have hpre : done <+: create_prelude name e := by
    have hfull : done <+: create_prelude name e ++ [.PgRelpages (relpages_row e), .TxnCommit] :=
      ⟨_, h⟩
    exact List.prefix_of_prefix_length_le hfull (List.prefix_append _ _) hlen
  intro hm
  have hin := hpre.subset hm
  unfold create_prelude at hin
  simp at hin

theorem Inv.call_fails (h : s.Inv) (hst : s.step .call_fails = some t) : Inv t := by
  unfold step at hst
  simp only at hst
  split at hst
  · rename_i a b rest name e hcall
    cases hst
    refine h.end_unchanged hcall (by simp) fun base done name' e' _ hfin hfull => ?_
    exact relpages_last_but_one hfull
  · rename_i script hcall
    cases hst
    exact h.end_unchanged hcall (by simp) (by simp)
  · rename_i hcall
    obtain ⟨base, done, ts, hok⟩ := h.call
    have hpre := hok.call
    rw [hcall] at hpre
    exact hpre.elim
  · simp at hst

theorem Inv.create_returns (h : s.Inv) (hcall : s.call = some ⟨[], .create name e⟩)
    (hsync : s.log.length ≤ s.synced) :
    Inv { s with
      registry := s.registry ++ [(name, e)]
      created := s.created ++ [(name, e)]
      call := none } := by
  obtain ⟨base, done, ts, hok⟩ := h.call
  have hpre := hok.call
  rw [hcall] at hpre
  simp only [append_nil] at hpre
  obtain ⟨ts', hd', hkeys, hback, hdrops⟩ :=
    @CallPre.described ts s base done done _ hpre hok.described List.prefix_rfl
  obtain ⟨hfull, hrel, -, hnew, -, -, -, -, -, -⟩ := hpre
  have hno : ∀ u ∈ ts, drop_row u.name u.entry ∉ relations done := fun u hu hm =>
    absurd (hdrops u hu hm) (by simp)
  -- the row in the log is that of a table, which can only be the new one
  obtain ⟨t₀, ht0, hk0⟩ : ∃ t₀ ∈ ts', t₀.key = (name, e) := by
    have hmem : relpages_row e ∈ relpages (base ++ done) := by
      rw [relpages_append, hfull]
      refine List.mem_append_right _ (List.mem_filterMap.mpr ⟨.PgRelpages (relpages_row e), ?_, rfl⟩)
      simp [create_script]
    rw [hd'.relpages] at hmem
    obtain ⟨u', hu', heq⟩ := mem_map.mp hmem
    have hoid : u'.entry.oid = e.oid := congrArg RelpagesRow.rel_oid heq
    rcases hback u' hu' with ⟨u, hu, hk⟩ | ⟨n, e', hfin, hk, -⟩
    · have heu : u.entry = u'.entry := congrArg Prod.snd hk
      exact absurd (by rw [heu]; exact hoid) (hnew u hu)
    · obtain ⟨rfl, rfl⟩ := Finish.create.inj hfin
      exact ⟨u', hu', hk⟩
  have hl0 : t₀.Live (base ++ done) := by
    have he : t₀.entry = e := congrArg Prod.snd hk0
    rw [live_append_iff]
    constructor
    · intro hm
      exact hrel _ hm (by rw [he]; rfl)
    · rw [hfull, create_script, relations_append, relations_create_prelude]
      simp [relations, drop_row, class_row]
  have hh' := hok.hist.append hkeys fun u hu hm => absurd hm (hno u hu)
  have hfresh : e.oid ∉ s.drop_called := by
    intro hm
    obtain ⟨u, hu, hoid⟩ := hok.hist.called _ hm
    exact hnew u hu hoid
  rw [← hok.log] at hd' hh' hl0
  refine h.end_call rfl rfl rfl rfl hd' ?_ (fun k => ?_) ?_ (.inl hsync)
  · exact {
      created := fun c hc => by
        rcases mem_append.mp hc with hold | hin
        · exact hh'.created c hold
        · rw [mem_singleton.mp hin]
          exact ⟨t₀, ht0, hk0, fun _ => hl0⟩
      registered := fun c hc => by
        rcases mem_append.mp hc with hold | hin
        · exact hh'.registered c hold
        · rw [mem_singleton.mp hin]
          exact ⟨t₀, ht0, hk0⟩
      called := hh'.called
      dropped := hh'.dropped }
  · rw [mem_append, mem_singleton, hok.registry, hok.log]
    rw [hok.log] at hl0
    constructor
    · rintro (⟨u, hu, hk, hl⟩ | rfl)
      · obtain ⟨u', hu', hk'⟩ := hkeys u hu
        refine ⟨u', hu', hk'.trans hk, (live_key hk').mpr ?_⟩
        exact live_append_iff.mpr ⟨hl, hno u hu⟩
      · exact ⟨t₀, ht0, hk0, hl0⟩
    · rintro ⟨u', hu', hk, hl⟩
      rcases hback u' hu' with ⟨u, hu, hk'⟩ | ⟨n, e', hfin, hk', -⟩
      · exact .inl ⟨u, hu, hk'.trans hk, (live_append_iff.mp ((live_key hk').mpr hl)).1⟩
      · obtain ⟨rfl, rfl⟩ := Finish.create.inj hfin
        exact .inr (hk.symm.trans hk')
  · rw [map_append, List.nodup_append]
    refine ⟨h.nodup, nodup_singleton _, ?_⟩
    rintro o ho o' ho' rfl
    obtain ⟨c, hc, rfl⟩ := mem_map.mp ho
    obtain ⟨u, hu, hk, -⟩ := hok.hist.created c hc
    have heq : c.2.oid = e.oid := by simpa using ho'
    refine hnew u hu ?_
    rw [← heq, ← hk]
    rfl

theorem Inv.drop_returns (h : s.Inv) (hcall : s.call = some ⟨[], .drop name e⟩)
    (hsync : s.log.length ≤ s.synced) :
    Inv { s with
      registry := s.registry.filter (·.1 ≠ name)
      dropped := e.oid :: s.dropped
      call := none } := by
  obtain ⟨base, done, ts, hok⟩ := h.call
  have hpre := hok.call
  rw [hcall] at hpre
  simp only [append_nil] at hpre
  obtain ⟨ts', hd', hkeys, hback, hdrops⟩ :=
    @CallPre.described ts s base done done _ hpre hok.described List.prefix_rfl
  obtain ⟨t, ht, hk, hl, hfull, hcalled⟩ := hpre
  have hn : t.name = name := congrArg Prod.fst hk
  have he : t.entry = e := congrArg Prod.snd hk
  subst hn he
  have hrow : drop_row t.name t.entry ∈ relations done := by
    rw [hfull]
    exact List.mem_filterMap.mpr ⟨_, (.head _), rfl⟩
  have hold : ∀ u' ∈ ts', ∃ u ∈ ts, u.key = u'.key := by
    intro u' hu'
    rcases hback u' hu' with hin | ⟨n, e', hfin, -⟩
    · exact hin
    · simp at hfin
  have hdropped : ∀ u ∈ ts, drop_row u.name u.entry ∈ relations done → u = t := by
    intro u hu hm
    obtain ⟨-, heq⟩ := Finish.drop.inj (hdrops u hu hm)
    exact hok.described.eq_of_oid hu ht (by rw [heq])
  have hh' := hok.hist.append hkeys fun u hu hm => by
    rw [hdropped u hu hm]
    exact hcalled
  rw [← hok.log] at hd' hh'
  refine h.end_call rfl rfl rfl rfl hd' ?_ (fun k => ?_) h.nodup (.inl hsync)
  · exact {
      created := hh'.created
      registered := fun c hc => hh'.registered c (List.mem_of_mem_filter hc)
      called := hh'.called
      dropped := fun o ho => by
        rcases mem_cons.mp ho with rfl | hin
        · obtain ⟨t', ht', hk'⟩ := hkeys t ht
          have heq : t'.entry = t.entry := congrArg Prod.snd hk'
          refine ⟨t', ht', by rw [heq], fun hl' => ?_⟩
          rw [hok.log] at hl'
          exact (live_append_iff.mp ((live_key hk').mp hl')).2 hrow
        · exact hh'.dropped o hin }
  · rw [mem_filter, hok.registry, hok.log]
    constructor
    · rintro ⟨⟨u, hu, hku, hlu⟩, hne⟩
      obtain ⟨u', hu', hk'⟩ := hkeys u hu
      refine ⟨u', hu', hk'.trans hku, (live_key hk').mpr ?_⟩
      refine live_append_iff.mpr ⟨hlu, fun hm => ?_⟩
      have hut := hdropped u hu hm
      have hname : k.1 = t.name := by
        rw [← hku, hut]
        rfl
      exact absurd hname (of_decide_eq_true hne)
    · rintro ⟨u', hu', hku, hlu⟩
      obtain ⟨u, hu, hk'⟩ := hold u' hu'
      obtain ⟨hlive, hno⟩ := live_append_iff.mp ((live_key hk').mpr hlu)
      refine ⟨⟨u, hu, hk'.trans hku, hlive⟩, decide_eq_true fun hname => hno ?_⟩
      -- two live tables of one name are the same
      have hut : u = t := by
        refine hok.described.names u hu t ht hlive hl ?_
        rw [← hname, ← hku, ← hk']
        rfl
      rw [hut]
      exact hrow

theorem Inv.call_returns (h : s.Inv) (hst : s.step .call_returns = some t) :
    Inv t := by
  unfold step at hst
  simp only at hst
  split at hst
  · rename_i name e hcall
    obtain ⟨hsync, rfl⟩ := guarded hst
    exact h.create_returns hcall hsync
  · rename_i name e hcall
    obtain ⟨hsync, rfl⟩ := guarded hst
    exact h.drop_returns hcall hsync
  · rename_i hcall
    cases hst
    exact h.end_unchanged hcall (by simp) (by simp)
  · simp at hst

/-! ## Crashes -/

/-- What a call knew is of the OID counter and of the drops called, not of the rest. -/
theorem CallPre.congr {full : List DdlRecord} {finish : Finish}
    (hpre : CallPre s base ts full finish) (hoid : t.next_oid = s.next_oid)
    (hdrops : t.drop_called = s.drop_called) : CallPre t base ts full finish := by
  unfold CallPre at hpre ⊢
  rwa [hoid, hdrops]

/-- The WAL writer and a checkpoint change nothing that a call under way reads. -/
theorem CallOk.congr (hok : CallOk s base done ts) (hlog : t.log = s.log) (hist : Hist t base ts)
    (hreg : t.registry = s.registry) (hcall : t.call = s.call) (hoid : t.next_oid = s.next_oid)
    (hdrops : t.drop_called = s.drop_called) : CallOk t base done ts where
  log := hlog.trans hok.log
  described := hok.described
  hist := hist
  registry c := by
    rw [hreg]
    exact hok.registry c
  call := by
    have hpre := hok.call
    rw [hcall]
    cases hc : s.call with
    | none =>
      rw [hc] at hpre
      exact hpre
    | some c =>
      rw [hc] at hpre
      exact CallPre.congr hpre hoid hdrops

theorem Inv.sync (h : s.Inv) {upto : ℕ} (hle : s.synced ≤ upto) (hlen : upto ≤ s.log.length) :
    Inv { s with synced := upto } := by
  obtain ⟨base, done, ts, hok⟩ := h.call
  refine { h with
    synced := hlen
    cuts := fun k hk hk' => ?_
    call := ⟨base, done, ts, hok.congr rfl { hok.hist with } rfl rfl rfl rfl⟩ }
  obtain ⟨ts', hd, hh, hr⟩ := h.cuts k (hle.trans hk) hk'
  exact ⟨ts', hd, { hh with }, hr⟩

theorem Inv.checkpoint (h : s.Inv) : Inv { s with sb_next_oid := s.next_oid } := by
  obtain ⟨base, done, ts, hok⟩ := h.call
  refine { h with
    cuts := fun k hk hk' => ?_
    call := ⟨base, done, ts, hok.congr rfl { hok.hist with } rfl rfl rfl rfl⟩ }
  obtain ⟨ts', hd, hh, hr⟩ := h.cuts k hk hk'
  exact ⟨ts', hd, { hh with }, hr⟩

theorem Inv.crash (h : s.Inv) {kept : ℕ} (hst : s.step (.crash kept) = some t) :
    Inv t := by
  unfold step at hst
  simp only at hst
  split_ifs at hst with hk
  obtain ⟨ts, hd, hh, hroot⟩ := h.cuts kept hk.1 hk.2
  obtain ⟨registry, hopen, hreg⟩ := hd.open_engine_ok s.sb_next_oid
  rw [hopen] at hst
  cases hst
  have hlen : (s.log.take kept).length = kept := by
    rw [List.length_take, min_eq_left hk.2]
  have hh' : Hist { s with
      log := s.log.take kept
      synced := kept
      registry := registry
      next_oid := start_oid s.sb_next_oid (s.log.take kept)
      call := none } (s.log.take kept) ts := {
    created := hh.created
    registered := fun c hc => by
      obtain ⟨u, hu, hk, -⟩ := (hreg c).mp hc
      exact ⟨u, hu, hk⟩
    called := hh.called
    dropped := hh.dropped }
  obtain ⟨hstart, hlt⟩ := Described.le_start_oid_fold
    ((relations (s.log.take kept)).map (·.oid) ++ (relpages (s.log.take kept)).map (·.rel_oid))
    (max s.sb_next_oid FIRST_USER)
  exact {
    synced := hlen.ge
    cuts := fun k hk' _ => by
      have heq : (s.log.take kept).take k = s.log.take kept :=
        List.take_of_length_le (hlen.le.trans hk')
      change ∃ ts, Described ((s.log.take kept).take k) ts ∧ Hist _ ((s.log.take kept).take k) ts ∧
        Rooted ((s.log.take kept).take k)
      rw [heq]
      exact ⟨ts, hd, hh', hroot⟩
    user := (le_max_right _ _).trans hstart
    rows := fun row hrow =>
      hlt _ (mem_append_left _ (mem_map.mpr ⟨row, hrow, rfl⟩))
    nodup := h.nodup
    call := ⟨_, [], ts, CallOk.of_idle rfl hd hh' hreg⟩ }

/-- What `create_table` should check and does not: the dimensions of vector columns. And
the OID is one that `Catalog::open` takes for sane. -/
def DdlSafe (s : DdlSys) : DdlOp → Prop
  | .create_table _ schema _ => (∀ c ∈ schema, ValidType c.col_type) ∧ s.next_oid ≤ MAX_SANE_OID
  | _ => True

instance (s : DdlSys) (op : DdlOp) : Decidable (s.DdlSafe op) := by
  unfold DdlSafe
  split <;> infer_instance

theorem Inv.step {op : DdlOp} (h : s.Inv) (hsafe : s.DdlSafe op) (hst : s.step op = some t) : Inv t := by
  cases op with
  | create_table name schema page => exact h.create_table hsafe.1 hsafe.2 hst
  | drop_table name => exact h.drop_table hst
  | extend_chain name page => exact h.extend_chain hst
  | insert_row => exact h.insert_row hst
  | append_next => exact h.append_next hst
  | call_fails => exact h.call_fails hst
  | call_returns => exact h.call_returns hst
  | sync upto =>
    obtain ⟨hle, rfl⟩ := guarded hst
    exact h.sync hle.1 hle.2
  | checkpoint =>
    cases hst
    exact h.checkpoint
  | crash kept => exact h.crash hst

end DdlSys

/-- **DDL survives crashes.** In every run whose `create_table` calls give their vector
columns a valid dimension: from any cut of the log a crash may leave, `Engine::open`
succeeds. The registry then has every table that was created and that `drop_table` was
never called for, with its OID, columns and first page, and no table whose drop returned;
the pages of its tables are allocated and in one chain only; the next OID is above every
one `create_table` returned, and it never returned one twice. -/
theorem ddl_survives_crash {ops : List DdlOp} {s : DdlSys}
    (hsafe : AllSteps DdlSys.step DdlSys.DdlSafe DdlSys.create ops)
    (hrun : run DdlSys.step DdlSys.create ops = some s) :
    (s.created.map fun c => c.2.oid).Nodup ∧
    ∀ kept, s.synced ≤ kept → kept ≤ s.log.length →
      ∃ registry next_oid, open_engine s.sb_next_oid (s.log.take kept) = .ok (registry, next_oid) ∧
        (∀ c ∈ s.created, c.2.oid ∉ s.drop_called → c ∈ registry) ∧
        (∀ o ∈ s.dropped, ∀ c ∈ registry, c.2.oid ≠ o) ∧
        (∀ c ∈ registry, ∃ pages, walk_chain (s.log.take kept) c.2.first_page = some pages ∧
          (∀ p ∈ pages, page_live (s.log.take kept) p = true) ∧
          ∀ c' ∈ registry, c' ≠ c → ∀ pages',
            walk_chain (s.log.take kept) c'.2.first_page = some pages' → ∀ p ∈ pages, p ∉ pages') ∧
        ∀ c ∈ s.created, c.2.oid < next_oid := by
  have hinv : s.Inv := run_invariant_of_allSteps DdlSys.DdlSafe DdlSys.Inv
    (fun _ _ _ h hs hst => h.step hs hst) DdlSys.create_inv hsafe hrun
  refine ⟨hinv.nodup, fun kept hk hlen => ?_⟩
  obtain ⟨ts, hd, hh, -⟩ := hinv.cuts kept hk hlen
  obtain ⟨registry, hopen, hreg⟩ := hd.open_engine_ok s.sb_next_oid
  refine ⟨registry, _, hopen, fun c hc hno => ?_, fun o ho c hc heq => ?_, fun c hc => ?_,
    fun c hc => ?_⟩
  · obtain ⟨t, ht, hkey, hl⟩ := hh.created c hc
    exact (hreg c).mpr ⟨t, ht, hkey, hl hno⟩
  · obtain ⟨t, ht, hoid, hdead⟩ := hh.dropped o ho
    obtain ⟨u, hu, hkey, hl⟩ := (hreg c).mp hc
    have hut : u = t := by
      refine hd.eq_of_oid hu ht ?_
      rw [hoid, ← heq, ← hkey]
      rfl
    exact hdead (hut ▸ hl)
  · obtain ⟨t, ht, hkey, hl⟩ := (hreg c).mp hc
    have he : t.entry = c.2 := congrArg Prod.snd hkey
    have hwalk := hd.walk_chain_eq ht hl
    rw [he] at hwalk
    refine ⟨t.pages, hwalk, (hd.chain t ht hl).live, fun c' hc' hne pages' hwalk' => ?_⟩
    obtain ⟨u, hu, hkey', hl'⟩ := (hreg c').mp hc'
    have he' : u.entry = c'.2 := congrArg Prod.snd hkey'
    have hwalk'' := hd.walk_chain_eq hu hl'
    rw [he', hwalk'] at hwalk''
    rw [Option.some.inj hwalk'']
    refine hd.disjoint t ht u hu hl hl' ?_
    rintro rfl
    exact hne (hkey'.symm.trans hkey)
  · obtain ⟨t, ht, hkey, -⟩ := hh.created c hc
    have hlt := hd.lt_start_oid s.sb_next_oid ht
    rw [← hkey]
    exact hlt

/-- A table is created; its chain is about to get a second page, which is allocated and not
yet linked; the whole log is kept. -/
theorem ddl_survives_crash_extending :
    ∃ s, run DdlSys.step DdlSys.create
        [.create_table "t" [⟨"a", .Int4⟩] 1, .append_next, .append_next, .append_next,
          .append_next, .append_next, .append_next, .sync 6, .call_returns, .extend_chain "t" 2,
          .append_next] = some s ∧
      s.created = [("t", ⟨FIRST_USER, 1, [⟨"a", .Int4⟩]⟩)] ∧
      ∃ registry next_oid, open_engine s.sb_next_oid (s.log.take 7) = .ok (registry, next_oid) ∧
        ("t", ⟨FIRST_USER, 1, [⟨"a", .Int4⟩]⟩) ∈ registry ∧ FIRST_USER < next_oid := by
  refine exists_of_map_eq (fun s => (s.synced, s.log.length, s.created, s.drop_called))
    (b := (6, 7, [("t", ⟨FIRST_USER, 1, [⟨"a", .Int4⟩]⟩)], [])) (by decide +kernel)
    fun s hrun hval => ?_
  obtain ⟨hsync, hrest⟩ := Prod.mk.inj hval
  obtain ⟨hlen, hrest⟩ := Prod.mk.inj hrest
  obtain ⟨hcreated, hcalled⟩ := Prod.mk.inj hrest
  have hmem : ("t", (⟨FIRST_USER, 1, [⟨"a", .Int4⟩]⟩ : TableEntry)) ∈ s.created := by
    rw [hcreated]
    exact List.mem_singleton_self _
  obtain ⟨-, hcuts⟩ := ddl_survives_crash (by decide +kernel) hrun
  obtain ⟨registry, next_oid, hopen, hin, -, -, hnext⟩ :=
    hcuts 7 (by rw [hsync]; decide) (by rw [hlen])
  exact ⟨hcreated, registry, next_oid, hopen, hin _ hmem (by rw [hcalled]; simp),
    hnext _ hmem⟩

/-- A table with a vector column of dimension 0 is created, and the call returns. No later
`Engine::open` succeeds: the type that `create_table` wrote is one the catalog rejects. -/
theorem vector_dimension_blocks_open :
    ∃ s, run DdlSys.step DdlSys.create
        [.create_table "t" [⟨"v", .Vector 0⟩] 1, .append_next, .append_next, .append_next,
          .append_next, .append_next, .append_next, .sync 6, .call_returns] = some s ∧
      s.created = [("t", ⟨FIRST_USER, 1, [⟨"v", .Vector 0⟩]⟩)] ∧ s.synced = s.log.length ∧
      open_engine s.sb_next_oid (s.log.take s.synced) = .error (.unknown_type "t") := by
  refine exists_of_map_eq (fun s => (s.created, decide (s.synced = s.log.length),
      decide (open_engine s.sb_next_oid (s.log.take s.synced) = .error (.unknown_type "t"))))
    (b := ([("t", ⟨FIRST_USER, 1, [⟨"v", .Vector 0⟩]⟩)], true, true)) (by decide +kernel)
    fun s _ hval => ?_
  obtain ⟨hcreated, hrest⟩ := Prod.mk.inj hval
  obtain ⟨hsync, hopen⟩ := Prod.mk.inj hrest
  exact ⟨hcreated, of_decide_eq_true hsync, of_decide_eq_true hopen⟩

end Ams.Ddl
