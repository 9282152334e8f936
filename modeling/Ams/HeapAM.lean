/-
The heap access method of `pg-am-heap/src/heap_am.rs`: insert, delete, update and
the compaction vacuum runs, each with the record it appends to the log.

A call decides, appends one record, and only then writes its pages, each of which
ends up carrying the record's LSN. The writes are kept as data here, a list of
actions per page, because two developments read them: redo has to repeat them, and
the row-version store has to know what they did. The `_cases` lemmas at the end say
what each call can come to, and are all that either of them uses.

Pages are given by their images. `relation_pages` is an argument of the calls that
look for room, and a call that finds none is not a step: it would first grow the
page chain. The verdict of the row-lock gate is an argument too; a call that the
gate turns away touches neither pages nor log.
-/
import Ams.HeapPage

set_option autoImplicit false

namespace Ams

open Ams.Lib SlottedPage

/-- The heap's log records. -/
inductive HeapRecord where
  | HeapInsert (page_id : PageId) (slot_id : ℕ) (tuple_bytes : List UInt8)
  | HeapUpdate (old_tid new_tid : Tid) (xmax_old : TxnId) (new_tuple_bytes : List UInt8)
  | HeapDelete (tid : Tid) (xmax : TxnId)
  | HeapHotUpdate (page_id : PageId) (old_slot new_slot : ℕ) (new_tuple_bytes : List UInt8)
      (xmax : TxnId)
  | HeapCleanup (page_id unlink_prev_page unlink_next_page : PageId) (dead_slots : List ℕ)
deriving DecidableEq, Repr

/-- The record of a HOT update. -/
def HeapRecord.is_hot : HeapRecord → Bool
  | .HeapHotUpdate _ _ _ _ _ => true
  | .HeapInsert _ _ _ => false
  | .HeapUpdate _ _ _ _ => false
  | .HeapDelete _ _ => false
  | .HeapCleanup _ _ _ _ => false

/-- A change to one page. -/
abbrev PageAction := Page → Except HeapError Page

/-- `init_if_fresh_with_special`, at the heap's special size. -/
abbrev init_if_fresh (page : Page) : Page := init_if_fresh_with_special page HEAP_SPECIAL_SIZE

/-- `PageId::INVALID` stands for the end of the chain. -/
def next_of (page_id : PageId) : Option PageId :=
  if page_id = PageId.INVALID then none else some page_id

/-! ## The calls -/

/-- What a call leaves: the pages, the record it appended, and what it returned. -/
structure Outcome where
  pages : PageId → Page
  record : Option HeapRecord
  result : Except HeapError (Option Tid)

/-- In-place changes of one page; the ones before an error stay. -/
def run_actions : List PageAction → Page → Page × Except HeapError Unit
  | [], page => (page, .ok ())
  | f :: rest, page =>
    match f page with
    | .error e => (page, .error e)
    | .ok page => run_actions rest page

/-- The writes of an operation after its record was appended at `lsn`, page by page,
each page stamped with the LSN when its changes are done. -/
def mutate (lsn : Lsn) : List (PageId × List PageAction) → (PageId → Page) →
    (PageId → Page) × Except HeapError Unit
  | [], pages => (pages, .ok ())
  | (page_id, actions) :: rest, pages =>
    match run_actions actions (pages page_id) with
    | (page, .error e) => (Function.update pages page_id page, .error e)
    | (page, .ok ()) => mutate lsn rest (Function.update pages page_id (stamp_pd_lsn page lsn))

/-- Append the record, then write. -/
def log_then_mutate (pages : PageId → Page) (lsn : Lsn) (record : HeapRecord)
    (writes : List (PageId × List PageAction)) (out_tid : Option Tid) : Outcome :=
  match mutate lsn writes pages with
  | (pages, .ok ()) => ⟨pages, some record, .ok out_tid⟩
  | (pages, .error e) => ⟨pages, some record, .error e⟩

namespace HeapAM

/-- The scan of `acquire_page_with_room`, over the relation's pages newest first.
Fresh pages it looks at are initialised. -/
def acquire_page_with_room (needed : ℕ) (exclude : PageId) :
    List PageId → (PageId → Page) → Option (PageId × (PageId → Page))
  | [], _ => none
  | page_id :: rest, pages =>
    if page_id = exclude then acquire_page_with_room needed exclude rest pages
    else
      let page := init_if_fresh (pages page_id)
      let pages := Function.update pages page_id page
      if needed ≤ free_space page then some (page_id, pages)
      else acquire_page_with_room needed exclude rest pages

def insert (pages : PageId → Page) (lsn : Lsn) (relation_pages : List PageId) (xid : TxnId)
    (tuple : List UInt8) : Option Outcome :=
  match validate_tuple_len tuple with
  | .error e => some ⟨pages, none, .error e⟩
  | .ok () =>
    match stamp_xmin tuple xid with
    | .error e => some ⟨pages, none, .error e⟩
    | .ok tuple =>
      match acquire_page_with_room (tuple.length + 4) PageId.INVALID relation_pages.reverse pages with
      | none => none
      | some (page_id, pages) =>
        let slot := choose_slot (pages page_id)
        some (log_then_mutate pages lsn (.HeapInsert page_id slot tuple)
          [(page_id, [fun page => add_tuple_at page slot tuple])] (some ⟨page_id, slot⟩))

def delete (pages : PageId → Page) (lsn : Lsn) (tid : Tid) (xmax : TxnId) (curcid : ℕ)
    (gate : TupleHeader → Except HeapError Unit) : Option Outcome :=
  match read_header (pages tid.page_id) tid with
  | .error e => some ⟨pages, none, .error e⟩
  | .ok header =>
    match gate header with
    | .error e => some ⟨pages, none, .error e⟩
    | .ok () =>
      some (log_then_mutate pages lsn (.HeapDelete tid xmax)
        [(tid.page_id, [fun page => stamp_deleted page tid xmax curcid false])] none)

/-- The three paths of an update: HOT and in place when the old page has room,
otherwise on another page. Between the two gate passes of the last nothing else
runs here, so their verdicts are the same. -/
def update (pages : PageId → Page) (lsn : Lsn) (relation_pages : List PageId) (old_tid : Tid)
    (xmax : TxnId) (curcid : ℕ) (new_tuple : List UInt8) (hot_eligible : Bool)
    (gate : TupleHeader → Except HeapError Unit) : Option Outcome :=
  match validate_tuple_len new_tuple with
  | .error e => some ⟨pages, none, .error e⟩
  | .ok () =>
    match stamp_xmin new_tuple xmax with
    | .error e => some ⟨pages, none, .error e⟩
    | .ok new_tuple =>
      let old_page := pages old_tid.page_id
      match read_header old_page old_tid with
      | .error e => some ⟨pages, none, .error e⟩
      | .ok header =>
        match gate header with
        | .error e => some ⟨pages, none, .error e⟩
        | .ok () =>
          if new_tuple.length + 4 ≤ free_space old_page then
            let new_slot := choose_slot old_page
            let new_tid : Tid := ⟨old_tid.page_id, new_slot⟩
            if hot_eligible then
              match stamp_hot_only new_tuple xmax with
              | .error e => some ⟨pages, none, .error e⟩
              | .ok hot_tuple =>
                some (log_then_mutate pages lsn
                  (.HeapHotUpdate old_tid.page_id old_tid.slot_id new_slot hot_tuple xmax)
                  [(old_tid.page_id,
                    [fun page => stamp_hot_update page old_tid xmax curcid new_tid,
                     fun page => add_tuple_at page new_slot hot_tuple])] (some new_tid))
            else
              some (log_then_mutate pages lsn (.HeapUpdate old_tid new_tid xmax new_tuple)
                [(old_tid.page_id,
                  [fun page => stamp_deleted page old_tid xmax curcid true,
                   fun page => add_tuple_at page new_slot new_tuple])] (some new_tid))
          else
            match acquire_page_with_room (new_tuple.length + 4) old_tid.page_id
              relation_pages.reverse pages with
            | none => none
            | some (page_id, pages) =>
              let new_slot := choose_slot (pages page_id)
              let new_tid : Tid := ⟨page_id, new_slot⟩
              some (log_then_mutate pages lsn (.HeapUpdate old_tid new_tid xmax new_tuple)
                [(old_tid.page_id, [fun page => stamp_deleted page old_tid xmax curcid true]),
                 (page_id, [fun page => add_tuple_at page new_slot new_tuple])] (some new_tid))

/-- `dead_slots.windows(2)` has no pair out of order. -/
def strictly_ascending : List ℕ → Bool
  | [] => true
  | [_] => true
  | a :: b :: rest => decide (a < b) && strictly_ascending (b :: rest)

/-- As many kills as a page has line pointers. -/
abbrev MAX_HEAP_CLEANUP_SLOTS : ℕ := 2036

/-- `WalRecord::heap_cleanup`, which checks the kill list's order and length. -/
def heap_cleanup (page_id : PageId) (dead_slots : List ℕ)
    (unlink_prev_page unlink_next_page : PageId) : Except HeapError HeapRecord :=
  let len := dead_slots.length
  if !strictly_ascending dead_slots then
    .error (.Storage "HeapCleanup dead_slots must be strictly ascending")
  else if len > MAX_HEAP_CLEANUP_SLOTS then
    .error (.Storage s!"HeapCleanup dead_slots length {len} exceeds maximum 2036")
  else .ok (.HeapCleanup page_id unlink_prev_page unlink_next_page dead_slots)

/-- The pages a cleanup writes: the compacted one and, if the page leaves the
chain, its predecessor. -/
def cleanup_writes (page_id unlink_prev_page unlink_next_page : PageId) (dead_slots : List ℕ) :
    List (PageId × List PageAction) :=
  (page_id, [fun page => compact page dead_slots]) ::
  if unlink_prev_page ≠ PageId.INVALID then
    [(unlink_prev_page, [fun page => set_next_page page (next_of unlink_next_page)])]
  else []

/-- `compact_page`. The record is appended before `compact` looks at the slots. A
page that is its own predecessor would be latched twice: not a step. -/
def compact_page (pages : PageId → Page) (lsn : Lsn) (page_id : PageId) (dead_slots : List ℕ)
    (unlink_prev_page unlink_next_page : PageId) : Option Outcome :=
  if unlink_prev_page ≠ PageId.INVALID ∧ unlink_prev_page = page_id then none
  else
    match heap_cleanup page_id dead_slots unlink_prev_page unlink_next_page with
    | .error e => some ⟨pages, none, .error e⟩
    | .ok record =>
      some (log_then_mutate pages lsn record
        (cleanup_writes page_id unlink_prev_page unlink_next_page dead_slots) none)

end HeapAM

/-! ## What the writes do -/

variable {lsn : Lsn} {writes : List (PageId × List PageAction)}

/-- Writes that all succeeded, page by page. -/
theorem mutate_ok {s t : PageId → Page} (hnd : (writes.map Prod.fst).Nodup)
    (h : mutate lsn writes s = (t, .ok ())) :
    (∀ w ∈ writes, ∃ page, run_actions w.2 (s w.1) = (page, .ok ()) ∧
      t w.1 = stamp_pd_lsn page lsn) ∧
    (∀ i, i ∉ writes.map Prod.fst → t i = s i) := by
  induction writes generalizing s with
  | nil =>
    obtain rfl : s = t := congrArg Prod.fst h
    exact ⟨fun w hw => absurd hw List.not_mem_nil, fun _ _ => rfl⟩
  | cons w rest ih =>
    obtain ⟨page_id, actions⟩ := w
    rw [List.map_cons] at hnd
    obtain ⟨hfresh, hnd'⟩ := List.nodup_cons.mp hnd
    change page_id ∉ rest.map Prod.fst at hfresh
    cases hrun : run_actions actions (s page_id) with
    | mk page r =>
      cases r with
      | error e => simp [mutate, hrun] at h
      | ok u =>
        simp only [mutate, hrun] at h
        obtain ⟨hdone, hkept⟩ := ih hnd' h
        refine ⟨fun w hw => ?_, fun i hi => ?_⟩
        · rcases List.mem_cons.mp hw with rfl | hw
          · refine ⟨page, hrun, ?_⟩
            rw [hkept page_id hfresh, Function.update_self]
          · have hne : w.1 ≠ page_id := by
              intro heq
              apply hfresh
              rw [← heq]
              exact List.mem_map_of_mem hw
            obtain ⟨page', hrun', ht⟩ := hdone w hw
            rw [Function.update_of_ne hne] at hrun'
            exact ⟨page', hrun', ht⟩
        · rw [List.map_cons, List.mem_cons, not_or] at hi
          rw [hkept i hi.2, Function.update_of_ne hi.1]

/-- Writes none of which can fail do not fail. -/
theorem mutate_succeeds {s : PageId → Page} (hnd : (writes.map Prod.fst).Nodup)
    (h : ∀ w ∈ writes, ∃ page, run_actions w.2 (s w.1) = (page, .ok ())) :
    ∃ t, mutate lsn writes s = (t, .ok ()) := by
  induction writes generalizing s with
  | nil => exact ⟨s, rfl⟩
  | cons w rest ih =>
    obtain ⟨page_id, actions⟩ := w
    rw [List.map_cons] at hnd
    obtain ⟨hfresh, hnd'⟩ := List.nodup_cons.mp hnd
    change page_id ∉ rest.map Prod.fst at hfresh
    obtain ⟨page, hrun⟩ := h _ (.head _)
    simp only [mutate, hrun]
    apply ih hnd'
    intro w hw
    have hne : w.1 ≠ page_id := by
      intro heq
      apply hfresh
      rw [← heq]
      exact List.mem_map_of_mem hw
    rw [Function.update_of_ne hne]
    exact h w (.tail _ hw)

/-- Writes none of which can fail, once logged. -/
theorem log_then_mutate_ok {s : PageId → Page} (hnd : (writes.map Prod.fst).Nodup)
    (h : ∀ w ∈ writes, ∃ page, run_actions w.2 (s w.1) = (page, .ok ())) (record : HeapRecord)
    (out_tid : Option Tid) :
    ∃ t, log_then_mutate s lsn record writes out_tid = ⟨t, some record, .ok out_tid⟩ ∧
      (∀ w ∈ writes, ∃ page, run_actions w.2 (s w.1) = (page, .ok ()) ∧
        t w.1 = stamp_pd_lsn page lsn) ∧
      (∀ i, i ∉ writes.map Prod.fst → t i = s i) := by
  obtain ⟨t, ht⟩ := @mutate_succeeds lsn writes s hnd h
  refine ⟨t, ?_, mutate_ok hnd ht⟩
  rw [log_then_mutate, ht]

theorem log_then_mutate_record (pages : PageId → Page) (lsn : Lsn) (record : HeapRecord)
    (writes : List (PageId × List PageAction)) (out_tid : Option Tid) :
    (log_then_mutate pages lsn record writes out_tid).record = some record := by
  unfold log_then_mutate
  split <;> rfl

/-- A logged call that returned has made all its writes. -/
theorem log_then_mutate_returns {pages : PageId → Page} {record : HeapRecord}
    {out_tid out : Option Tid}
    (h : (log_then_mutate pages lsn record writes out_tid).result = .ok out) :
    ∃ t, mutate lsn writes pages = (t, .ok ()) := by
  cases hm : mutate lsn writes pages with
  | mk t r =>
    cases r with
    | ok u => exact ⟨t, rfl⟩
    | error e => simp [log_then_mutate, hm] at h

theorem run_actions_one {f : PageAction} {p p' : Page} :
    run_actions [f] p = (p', .ok ()) ↔ f p = .ok p' := by
  rw [run_actions]
  cases hf : f p with
  | error e => simp
  | ok page => simp [run_actions]

theorem run_actions_two {f g : PageAction} {p p' : Page} :
    run_actions [f, g] p = (p', .ok ()) ↔ ∃ m, f p = .ok m ∧ g m = .ok p' := by
  rw [run_actions]
  cases hf : f p with
  | error e => simp
  | ok page => simp [run_actions_one]

namespace HeapAM

theorem validate_tuple_len_eq_ok {bytes : List UInt8} (h : validate_tuple_len bytes = .ok ()) :
    bytes.length ≤ 8140 := by
  unfold validate_tuple_len at h
  split_ifs at h with h1 h2
  exact not_lt.mp h2

theorem stamp_xmin_length {tuple out : List UInt8} {xid : TxnId}
    (h : stamp_xmin tuple xid = .ok out) : out.length = tuple.length ∧ 64 ≤ out.length := by
  unfold stamp_xmin at h
  split_ifs at h with hlen
  rw [← Except.ok.inj h, List.length_append, length_leBytes, List.length_drop]
  omega

theorem stamp_hot_only_length {tuple out : List UInt8} {xid : TxnId}
    (h : stamp_hot_only tuple xid = .ok out) : out.length = tuple.length := by
  unfold stamp_hot_only at h
  split_ifs at h with hlen
  rw [← Except.ok.inj h]
  simp only [List.length_append, List.length_take, List.length_drop, length_leBytes]
  omega

/-- The scan for room initialises at most the page it returns: a fresh page has
room for every tuple that was let in. -/
theorem acquire_page_with_room_spec {needed : ℕ} (hneeded : needed ≤ 8144) {exclude : PageId}
    {candidates : List PageId} {pages pages' : PageId → Page}
    (hok : ∀ i ∈ candidates, PageOk (pages i)) {page_id : PageId}
    (h : acquire_page_with_room needed exclude candidates pages = some (page_id, pages')) :
    page_id ∈ candidates ∧ page_id ≠ exclude ∧ pages' = Function.update pages page_id (init_if_fresh (pages page_id)) ∧
      needed ≤ free_space (init_if_fresh (pages page_id)) := by
  induction candidates with
  | nil => simp [acquire_page_with_room] at h
  | cons c rest ih =>
    have hrest : ∀ i ∈ rest, PageOk (pages i) := fun i hi => hok i (.tail _ hi)
    rw [acquire_page_with_room] at h
    by_cases hex : c = exclude
    · rw [if_pos hex] at h
      obtain ⟨hmem, hrel⟩ := ih hrest h
      exact ⟨List.mem_cons_of_mem _ hmem, hrel⟩
    · rw [if_neg hex] at h
      by_cases hroom : needed ≤ free_space (init_if_fresh (pages c))
      · simp only [hroom, if_true, Option.some.injEq, Prod.mk.injEq] at h
        obtain ⟨rfl, rfl⟩ := h
        exact ⟨List.mem_cons_self, hex, rfl, hroom⟩
      · -- no room, so the page was not fresh and is unchanged
        have hsame : init_if_fresh (pages c) = pages c := by
          rcases hok c (.head _) with hz | hwf
          · exfalso
            apply hroom
            rw [hz, init_if_fresh, init_zero_eq, free_space,
              @header_init_with_special HEAP_SPECIAL_SIZE Page.zero (by decide)]
            exact hneeded
          · exact hwf.init_eq
        rw [hsame] at hroom
        simp only [hsame, Function.update_eq_self] at h
        rw [if_neg hroom] at h
        obtain ⟨hmem, hrel⟩ := ih hrest h
        exact ⟨List.mem_cons_of_mem _ hmem, hrel⟩

theorem read_header_eq_ok {page : Page} {tid : Tid} {h : TupleHeader} :
    read_header page tid = .ok h ↔ Geometry page ∧ tid.slot_id < slot_count page ∧
      (raw_line_pointer page tid.slot_id).flags = .Normal ∧
      TupleHeader.read_from (page.slice (raw_line_pointer page tid.slot_id).off 64) = .ok h := by
  unfold read_header
  constructor
  · intro hok
    split at hok
    · cases hok
    · next lp hl =>
      obtain ⟨hg, hs, rfl⟩ := line_pointer_eq_ok.mp hl
      split_ifs at hok with hn
      exact ⟨hg, hs, not_not.mp hn, hok⟩
  · rintro ⟨hg, hs, hn, hr⟩
    rw [line_pointer_eq_ok.mpr ⟨hg, hs, rfl⟩]
    simp [hn, hr]

/-- A tuple whose header could be read is on an initialised page and can be
stamped. -/
theorem stampable {page : Page} (hok : PageOk page) {tid : Tid} {h : TupleHeader}
    (hread : read_header page tid = .ok h) (f : TupleHeader → TupleHeader) :
    HeapWf page ∧ ∃ page', stamp_header page tid f = .ok page' := by
  obtain ⟨hg, hs, hn, hr⟩ := read_header_eq_ok.mp hread
  refine ⟨?_, _, stamp_header_eq_ok.mpr ⟨hg, hs, hn, h, hr, rfl⟩⟩
  rcases hok with rfl | hwf
  · rw [slot_count_zero] at hs
    exact absurd hs (Nat.not_lt_zero _)
  · exact hwf

/-! ## What a call can come to -/

section Cases

variable {pages : PageId → Page} {lsn : Lsn} {o : Outcome} {relation_pages : List PageId}

theorem refused {e : HeapError} (ho : some ⟨pages, none, .error e⟩ = some o) :
    ∃ e, o = ⟨pages, none, .error e⟩ := ⟨e, (Option.some.inj ho).symm⟩

theorem insert_cases (hok : ∀ i ∈ relation_pages, PageOk (pages i)) {xid : TxnId}
    {tuple : List UInt8} (ho : insert pages lsn relation_pages xid tuple = some o) :
    (∃ e, o = ⟨pages, none, .error e⟩) ∨
    ∃ bytes page_id slot, stamp_xmin tuple xid = .ok bytes ∧ page_id ∈ relation_pages ∧
      slot = choose_slot (init_if_fresh (pages page_id)) ∧
      Fits (init_if_fresh (pages page_id)) slot bytes ∧
      o = log_then_mutate (Function.update pages page_id (init_if_fresh (pages page_id))) lsn
        (.HeapInsert page_id slot bytes) [(page_id, [fun page => add_tuple_at page slot bytes])]
        (some ⟨page_id, slot⟩) := by
  unfold insert at ho
  split at ho
  · exact .inl (refused ho)
  next hval =>
  split at ho
  · exact .inl (refused ho)
  next bytes hstamp =>
  split at ho
  · simp at ho
  next page_id pages' hacq =>
  obtain ⟨hlen, h64⟩ := stamp_xmin_length hstamp
  have hmax := validate_tuple_len_eq_ok hval
  have hok' : ∀ i ∈ relation_pages.reverse, PageOk (pages i) := fun i hi =>
    hok i (List.mem_reverse.mp hi)
  obtain ⟨hmem, -, rfl, hroom⟩ := acquire_page_with_room_spec (by omega) hok' hacq
  have hmem' := List.mem_reverse.mp hmem
  rw [Function.update_self] at ho
  exact .inr ⟨bytes, page_id, _, hstamp, hmem', rfl,
    (hok page_id hmem').init.choose_slot_fits (by omega) hroom, (Option.some.inj ho).symm⟩

theorem delete_cases {tid : Tid} {xmax : TxnId} {curcid : ℕ}
    {gate : TupleHeader → Except HeapError Unit}
    (ho : delete pages lsn tid xmax curcid gate = some o) :
    (∃ e, o = ⟨pages, none, .error e⟩) ∨
    ∃ header, read_header (pages tid.page_id) tid = .ok header ∧ gate header = .ok () ∧
      o = log_then_mutate pages lsn (.HeapDelete tid xmax)
        [(tid.page_id, [fun page => stamp_deleted page tid xmax curcid false])] none := by
  unfold delete at ho
  split at ho
  · exact .inl (refused ho)
  next header hread =>
  split at ho
  · exact .inl (refused ho)
  next hgate => exact .inr ⟨header, hread, hgate, (Option.some.inj ho).symm⟩

/-- The three paths of an update, after the gate. `bytes` is the new version. -/
inductive UpdatePath (pages : PageId → Page) (lsn : Lsn) (relation_pages : List PageId)
    (old_tid : Tid) (xmax : TxnId) (curcid : ℕ) (bytes : List UInt8) (o : Outcome) : Prop where
  | hot (hot_tuple : List UInt8) (hstamp : stamp_hot_only bytes xmax = .ok hot_tuple)
      (slot : ℕ) (hslot : slot = choose_slot (pages old_tid.page_id))
      (hfits : Fits (pages old_tid.page_id) slot hot_tuple)
      (ho : o = log_then_mutate pages lsn
        (.HeapHotUpdate old_tid.page_id old_tid.slot_id slot hot_tuple xmax)
        [(old_tid.page_id,
          [fun page => stamp_hot_update page old_tid xmax curcid ⟨old_tid.page_id, slot⟩,
           fun page => add_tuple_at page slot hot_tuple])] (some ⟨old_tid.page_id, slot⟩))
  | same_page (slot : ℕ) (hslot : slot = choose_slot (pages old_tid.page_id))
      (hfits : Fits (pages old_tid.page_id) slot bytes)
      (ho : o = log_then_mutate pages lsn
        (.HeapUpdate old_tid ⟨old_tid.page_id, slot⟩ xmax bytes)
        [(old_tid.page_id,
          [fun page => stamp_deleted page old_tid xmax curcid true,
           fun page => add_tuple_at page slot bytes])] (some ⟨old_tid.page_id, slot⟩))
  | cross_page (page_id : PageId) (hmem : page_id ∈ relation_pages)
      (hne : page_id ≠ old_tid.page_id) (slot : ℕ)
      (hslot : slot = choose_slot (init_if_fresh (pages page_id)))
      (hfits : Fits (init_if_fresh (pages page_id)) slot bytes)
      (ho : o = log_then_mutate
        (Function.update pages page_id (init_if_fresh (pages page_id))) lsn
        (.HeapUpdate old_tid ⟨page_id, slot⟩ xmax bytes)
        [(old_tid.page_id, [fun page => stamp_deleted page old_tid xmax curcid true]),
         (page_id, [fun page => add_tuple_at page slot bytes])] (some ⟨page_id, slot⟩))

theorem update_cases (hok : ∀ i ∈ relation_pages, PageOk (pages i)) {old_tid : Tid}
    (hold : PageOk (pages old_tid.page_id)) {xmax : TxnId} {curcid : ℕ} {new_tuple : List UInt8}
    {hot_eligible : Bool} {gate : TupleHeader → Except HeapError Unit}
    (ho : update pages lsn relation_pages old_tid xmax curcid new_tuple hot_eligible gate = some o) :
    (∃ e, o = ⟨pages, none, .error e⟩) ∨
    ∃ header bytes, read_header (pages old_tid.page_id) old_tid = .ok header ∧
      gate header = .ok () ∧ stamp_xmin new_tuple xmax = .ok bytes ∧
      UpdatePath pages lsn relation_pages old_tid xmax curcid bytes o := by
  unfold update at ho
  split at ho
  · exact .inl (refused ho)
  next hval =>
  split at ho
  · exact .inl (refused ho)
  next bytes hstamp =>
  obtain ⟨hlen, h64⟩ := stamp_xmin_length hstamp
  have hmax := validate_tuple_len_eq_ok hval
  simp only at ho
  split at ho
  · exact .inl (refused ho)
  next header hread =>
  split at ho
  · exact .inl (refused ho)
  next hgate =>
  have hwf := (stampable hold hread id).1
  split at ho
  · next hroom =>
    split at ho
    · split at ho
      · exact .inl (refused ho)
      next hot_tuple hhot =>
      have hhlen := stamp_hot_only_length hhot
      exact .inr ⟨header, bytes, hread, hgate, hstamp, .hot hot_tuple hhot _ rfl
        (hwf.choose_slot_fits (by omega) (by omega)) (Option.some.inj ho).symm⟩
    · exact .inr ⟨header, bytes, hread, hgate, hstamp, .same_page _ rfl
        (hwf.choose_slot_fits (by omega) hroom) (Option.some.inj ho).symm⟩
  · split at ho
    · simp at ho
    next page_id pages' hacq =>
    have hok' : ∀ i ∈ relation_pages.reverse, PageOk (pages i) := fun i hi =>
      hok i (List.mem_reverse.mp hi)
    obtain ⟨hmem, hne, rfl, hroom⟩ := acquire_page_with_room_spec (by omega) hok' hacq
    have hmem' := List.mem_reverse.mp hmem
    rw [Function.update_self] at ho
    exact .inr ⟨header, bytes, hread, hgate, hstamp, .cross_page page_id hmem' hne _ rfl
      ((hok page_id hmem').init.choose_slot_fits (by omega) hroom) (Option.some.inj ho).symm⟩

end Cases

end HeapAM

end Ams
