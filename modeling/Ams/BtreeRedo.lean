/-
B+Tree redo against the online path: the logged steps of `pg-am-btree/src/index.rs`
(`insert_into_page`, the removal of `delete`, the Prepare, Copy and Commit of a split)
and the handlers of `pg-am-btree/src/redo.rs` that replay them.

Four of the five records are changes page by page, guarded by the page's LSN. The
Copy is not. It carries no entries: replay takes them from the left page, which has
to be the very image the online path copied from, and that is what the record's
anchor checks. So the right page must never be on disk behind a left page that is
past the copy.

A Commit has a second peculiarity. Its record is appended, and its downlink
inserted, before the left page is latched again to clear the flags. Until then other
handles may insert into the left page and delete from it, with later records. The
online system below therefore appends and finishes a Commit in two steps. What saves
replay, which runs in log order, is that those operations and the clearing of the
flags commute: the online system is simulated by one whose Commits are atomic, and
recovery is proved for that one.
-/
import Ams.BtreePage
import Ams.Lib.Redo
import Ams.Lib.Run

set_option autoImplicit false

namespace Ams

open Ams.Lib SlottedPage BtreePage
open List (mem_cons mem_filter mem_map mem_map_of_mem mem_singleton nodup_cons not_mem_nil)
open Function (update update_self update_of_ne)

/-! ## Records and handlers -/

/-- The payloads of the five records. -/
inductive BtreeRecord where
  | BTreeInsert (page_id : PageId) (slot_id level flags : ℕ) (tuple_bytes : List UInt8)
  | BTreeDelete (page_id : PageId) (slot_id : ℕ)
  | BTreeSplitPrepare (left_page new_right_page : PageId) (level : ℕ) (left_old_next : PageId)
      (high_key_bytes : List UInt8)
  | BTreeSplitCopy (left_page right_page : PageId) (copy_start_slot : ℕ) (left_page_pre_lsn : Lsn)
  | BTreeSplitCommit (left_page right_page parent_page : PageId) (separator_key : List UInt8)
      (parent_insert_slot : ℕ)
deriving DecidableEq, Repr

/-- What replay does to one page. -/
abbrev BtreeAction := Page → Except BTreeError Page

def redo_insert (lsn : Lsn) (slot_id level flags : ℕ) (tuple_bytes : List UInt8) : BtreeAction :=
  fun page =>
    (insert_entry_at (BtreePage.init_if_fresh page level flags) slot_id tuple_bytes).map (stamp_pd_lsn · lsn)

def redo_delete (lsn : Lsn) (slot_id : ℕ) : BtreeAction :=
  fun page => (remove_entry_at page slot_id).map (stamp_pd_lsn · lsn)

def redo_prepare_right (lsn : Lsn) (left_page left_old_next : PageId) (level : ℕ) : BtreeAction :=
  fun page => .ok (stamp_pd_lsn (init_right_page page left_page left_old_next level) lsn)

/-- The recorded high key must be the last key of the left page, if it has one. -/
def check_high_key (page : Page) (left_page : PageId) (level : ℕ) (high_key : List UInt8) :
    Except BTreeError Unit :=
  let count := slot_count page
  if count > 0 then
    match tuple page (count - 1) with
    | .error e => .error (.Heap e)
    | .ok none =>
      .error (.Storage s!"split prepare redo: left page {left_page} last slot unreadable")
    | .ok (some bytes) =>
      match entry_key bytes level with
      | .error e => .error e
      | .ok key =>
        if key ≠ high_key then
          .error (.Storage
            s!"split prepare redo: left page {left_page} high key diverged from record")
        else .ok ()
  else .ok ()

def redo_prepare_left (lsn : Lsn) (left_page new_right_page : PageId) (level : ℕ)
    (high_key : List UInt8) : BtreeAction :=
  fun page =>
    let page := BtreePage.init_if_fresh page level (flags_for_level level)
    match check_high_key page left_page level high_key with
    | .error e => .error e
    | .ok () => (apply_prepare_left page new_right_page).map (stamp_pd_lsn · lsn)

def redo_commit_parent (lsn : Lsn) (parent_page right_page : PageId) (separator_key : List UInt8)
    (slot : ℕ) : BtreeAction :=
  fun page =>
    if (header page).pd_upper = 0 then
      .error (.Storage s!"split commit redo: parent page {parent_page} has no prior image")
    else
      (insert_entry_at page slot (encode_internal_entry separator_key right_page)).map
        (stamp_pd_lsn · lsn)

def redo_commit_left (lsn : Lsn) (left_page : PageId) : BtreeAction :=
  fun page =>
    if (header page).pd_upper = 0 then
      .error (.Storage s!"split commit redo: left page {left_page} has no prior image")
    else commit_left page lsn

/-- The Copy handler. `reload` is what `force_reload_from_disk` would find. -/
def BTreeSplitCopyHandler (reload : PageId → Page) (lsn : Lsn) (left_page right_page : PageId)
    (copy_start_slot : ℕ) (left_page_pre_lsn : Lsn) (pages : PageId → Page) :
    Except BTreeError (PageId → Page) :=
  let left_lsn := page_pd_lsn (pages left_page)
  let right_lsn := page_pd_lsn (pages right_page)
  if left_lsn ≠ left_page_pre_lsn then
    if left_lsn ≥ lsn then
      -- the left page is past the copy: its content is final
      if right_lsn ≥ lsn then .ok pages
      else
        let disk_lsn := page_pd_lsn (reload right_page)
        if disk_lsn ≥ lsn then .ok (update pages right_page (reload right_page))
        else
          .error (.Storage s!"split copy redo: left page {left_page} is past the copy (pd_lsn {left_lsn} >= {lsn}) and right page {right_page} lacks it even on disk (pd_lsn {disk_lsn}); the moved entries are lost")
    else if right_lsn ≥ lsn then
      -- only the rebuild of the left page is missing
      match apply_split_copy (pages left_page) (pages right_page) copy_start_slot false with
      | .error e => .error e
      | .ok (left, _) => .ok (update pages left_page (stamp_pd_lsn left lsn))
    else
      .error (.Storage s!"split copy redo: left page {left_page} is not the pre-copy image (pd_lsn {left_lsn} != anchor {left_page_pre_lsn}) and is not past the copy either (record lsn {lsn}); right page {right_page} lacks the copy (pd_lsn {right_lsn})")
  else
    let move_to_right := decide (right_lsn < lsn)
    match apply_split_copy (pages left_page) (pages right_page) copy_start_slot move_to_right with
    | .error e => .error e
    | .ok (left, right) =>
      let pages :=
        if move_to_right then update pages right_page (stamp_pd_lsn right lsn) else pages
      .ok (update pages left_page (stamp_pd_lsn left lsn))

/-- The page changes of the four records that have them. -/
def btree_changes (lsn : Lsn) : BtreeRecord → List (PageId × BtreeAction)
  | .BTreeInsert page_id slot_id level flags tuple_bytes =>
    [(page_id, redo_insert lsn slot_id level flags tuple_bytes)]
  | .BTreeDelete page_id slot_id => [(page_id, redo_delete lsn slot_id)]
  | .BTreeSplitPrepare left_page new_right_page level left_old_next high_key_bytes =>
    [(new_right_page, redo_prepare_right lsn left_page left_old_next level),
     (left_page, redo_prepare_left lsn left_page new_right_page level high_key_bytes)]
  | .BTreeSplitCopy .. => []
  | .BTreeSplitCommit left_page right_page parent_page separator_key parent_insert_slot =>
    [(parent_page, redo_commit_parent lsn parent_page right_page separator_key parent_insert_slot),
     (left_page, redo_commit_left lsn left_page)]

/-- `btree_redo_handlers`: a record as a record over all pages. -/
def btree_redo_handlers (reload : PageId → Page) (entry : Lsn × BtreeRecord) :
    PagesRecord PageId Page BTreeError :=
  match entry.2 with
  | .BTreeSplitCopy left_page right_page copy_start_slot left_page_pre_lsn =>
    ⟨entry.1, [left_page, right_page], [(left_page, right_page)],
      BTreeSplitCopyHandler reload entry.1 left_page right_page copy_start_slot left_page_pre_lsn⟩
  | record => (LogRecord.mk entry.1 (btree_changes entry.1 record)).toPages page_pd_lsn

/-- Replay the index's log, in order, over page images. -/
def btree_redo_log (reload : PageId → Page) (wal : List (Lsn × BtreeRecord))
    (pages : PageId → Page) : Except BTreeError (PageId → Page) :=
  replay_pages (wal.map (btree_redo_handlers reload)) pages

/-! ## The online path -/

/-- What a logged step writes and the record it appends. -/
structure BtreeEffect where
  writes : List (PageId × Page)
  record : BtreeRecord

/-- A logged step, with everything it is given. -/
inductive BtreeOp where
  | insert_into_page (page_id : PageId) (slot : ℕ) (entry : List UInt8)
  | delete (page_id : PageId) (slot : ℕ)
  | split_prepare (left right : PageId)
  | split_copy (left right : PageId) (copy_start_slot : ℕ)
  | split_commit (left right parent : PageId) (separator : List UInt8) (slot : ℕ)
deriving DecidableEq, Repr

/-- `insert_into_page`. -/
def insert_into_page (pages : PageId → Page) (lsn : Lsn) (page_id : PageId) (slot : ℕ)
    (entry : List UInt8) : Except BTreeError BtreeEffect := do
  let page := pages page_id
  let level ← BtreePage.level page
  let flags ← BtreePage.flags page
  let page ← insert_entry_at page slot entry
  return ⟨[(page_id, stamp_pd_lsn page lsn)], .BTreeInsert page_id slot level flags entry⟩

/-- The logged part of `delete`. -/
def delete_from_page (pages : PageId → Page) (lsn : Lsn) (page_id : PageId) (slot : ℕ) :
    Except BTreeError BtreeEffect := do
  let page ← remove_entry_at (pages page_id) slot
  return ⟨[(page_id, stamp_pd_lsn page lsn)], .BTreeDelete page_id slot⟩

/-- `split_prepare_on_guards`, after the split point has been chosen. -/
def split_prepare_on_guards (pages : PageId → Page) (lsn : Lsn) (left right : PageId) :
    Except BTreeError BtreeEffect := do
  let page := pages left
  let level ← BtreePage.level page
  let flags ← BtreePage.flags page
  if flags &&& BTREE_FLAG_SPLIT_INCOMPLETE ≠ 0 then
    throw (.Unsupported s!"page {left} is SPLIT_INCOMPLETE; a second split would orphan its uncommitted right twin (finishing incomplete splits is M2c work)")
  let old_next ← BtreePage.next page
  let count := slot_count page
  if count < 2 then throw (.Corrupted s!"cannot split page {left} with {count} entries")
  let last ← entry_bytes page (count - 1)
  let high_key ← entry_key last level
  let page ← apply_prepare_left page right
  return ⟨[(right, stamp_pd_lsn (init_right_page (pages right) left old_next level) lsn),
    (left, stamp_pd_lsn page lsn)], .BTreeSplitPrepare left right level old_next high_key⟩

/-- `split_copy_on_guards`; the anchor is whatever LSN the left page has now. -/
def split_copy_on_guards (pages : PageId → Page) (lsn : Lsn) (left right : PageId)
    (copy_start_slot : ℕ) : Except BTreeError BtreeEffect := do
  let pre_lsn := page_pd_lsn (pages left)
  let (left_page, right_page) ← apply_split_copy (pages left) (pages right) copy_start_slot true
  return ⟨[(left, stamp_pd_lsn left_page lsn), (right, stamp_pd_lsn right_page lsn)],
    .BTreeSplitCopy left right copy_start_slot pre_lsn⟩

/-- The append of a Commit and the insertion of its downlink. The left page is the one
Prepare and Copy have accepted. -/
def split_commit_parent (pages : PageId → Page) (lsn : Lsn) (left right parent : PageId)
    (separator : List UInt8) (slot : ℕ) : Except BTreeError BtreeEffect := do
  let _ ← checked_header (pages left)
  let page ← insert_entry_at (pages parent) slot (encode_internal_entry separator right)
  return ⟨[(parent, stamp_pd_lsn page lsn)], .BTreeSplitCommit left right parent separator slot⟩

namespace BtreeOp

def exec (pages : PageId → Page) (lsn : Lsn) : BtreeOp → Except BTreeError BtreeEffect
  | insert_into_page page_id slot entry => Ams.insert_into_page pages lsn page_id slot entry
  | delete page_id slot => delete_from_page pages lsn page_id slot
  | split_prepare left right => split_prepare_on_guards pages lsn left right
  | split_copy left right copy_start_slot => split_copy_on_guards pages lsn left right copy_start_slot
  | split_commit left right parent separator slot =>
    split_commit_parent pages lsn left right parent separator slot

/-- The pages the step's record is about. -/
def pages : BtreeOp → List PageId
  | insert_into_page page_id .. => [page_id]
  | delete page_id _ => [page_id]
  | split_prepare left right => [right, left]
  | split_copy left right _ => [left, right]
  | split_commit left _ parent .. => [parent, left]

/-- The pages that must not be waiting for a Commit to finish: a page whose split is
incomplete is not split again. -/
def settled : BtreeOp → List PageId
  | insert_into_page .. => []
  | delete .. => []
  | split_prepare left right => [left, right]
  | split_copy left right _ => [left, right]
  | split_commit left .. => [left]

/-- The left page that waits for the Commit to finish. -/
def commits (lsn : Lsn) : BtreeOp → List (PageId × Lsn)
  | split_commit left .. => [(left, lsn)]
  | _ => []

end BtreeOp

/-- The pages, the log, and the appended Commits whose left page still has its flags. -/
structure BtreeSys where
  pages : PageId → Page
  wal : List (Lsn × BtreeRecord)
  last_lsn : Lsn
  committing : List (PageId × Lsn)

inductive BtreeStep where
  | log (lsn : Lsn) (op : BtreeOp)
  | finish_commit (left : PageId)
deriving DecidableEq, Repr

/-- Write pages one after another. -/
def write_pages (pages : PageId → Page) : List (PageId × Page) → PageId → Page
  | [] => pages
  | w :: rest => write_pages (update pages w.1 w.2) rest

namespace BtreeSys

/-- The page waits for a Commit to finish. -/
def Committing (s : BtreeSys) (i : PageId) : Prop := i ∈ s.committing.map Prod.fst

instance (s : BtreeSys) (i : PageId) : Decidable (s.Committing i) :=
  inferInstanceAs (Decidable (i ∈ s.committing.map Prod.fst))

/-- The log position of a step is above every earlier one and above the stamps of the
pages it is for, and it is a `u64`. The latches are on different pages. -/
def Enabled (s : BtreeSys) (lsn : Lsn) (op : BtreeOp) : Prop :=
  s.last_lsn < lsn ∧ lsn < 256 ^ 8 ∧ op.pages.Nodup ∧
    (∀ i ∈ op.pages, page_pd_lsn (s.pages i) < lsn) ∧ ∀ i ∈ op.settled, ¬ s.Committing i

instance (s : BtreeSys) (lsn : Lsn) (op : BtreeOp) : Decidable (s.Enabled lsn op) :=
  inferInstanceAs (Decidable (_ ∧ _ ∧ _ ∧ _ ∧ _))

def step (s : BtreeSys) : BtreeStep → Option BtreeSys
  | .log lsn op =>
    if s.Enabled lsn op then
      match op.exec s.pages lsn with
      | .error _ => none
      | .ok e =>
        some ⟨write_pages s.pages e.writes, s.wal ++ [(lsn, e.record)], lsn,
          op.commits lsn ++ s.committing⟩
    else none
  | .finish_commit left =>
    match s.committing.lookup left with
    | none => none
    | some lsn =>
      match commit_left (s.pages left) lsn with
      | .error _ => none
      | .ok page =>
        some { s with
          pages := update s.pages left page
          committing := s.committing.filter fun c => decide (c.1 ≠ left) }

end BtreeSys

/-! ## A step in terms of its record

Each lemma says which pages a successful step found and what it wrote. -/

section Exec

variable {pages : PageId → Page} {lsn : Lsn} {e : BtreeEffect}

variable {slot : ℕ}

theorem insert_into_page_ok {page_id : PageId} {entry : List UInt8}
    (h : insert_into_page pages lsn page_id slot entry = .ok e) :
    ∃ q level flags, insert_entry_at (pages page_id) slot entry = .ok q ∧
      e = ⟨[(page_id, stamp_pd_lsn q lsn)], .BTreeInsert page_id slot level flags entry⟩ := by
  unfold insert_into_page at h
  obtain ⟨level, -, h⟩ := bind_eq_ok.mp h
  obtain ⟨flags, -, h⟩ := bind_eq_ok.mp h
  obtain ⟨q, hq, h⟩ := bind_eq_ok.mp h
  exact ⟨q, level, flags, hq, (pure_eq_ok.mp h).symm⟩

theorem delete_from_page_ok {page_id : PageId}
    (h : delete_from_page pages lsn page_id slot = .ok e) :
    ∃ q, remove_entry_at (pages page_id) slot = .ok q ∧
      e = ⟨[(page_id, stamp_pd_lsn q lsn)], .BTreeDelete page_id slot⟩ := by
  obtain ⟨q, hq, h⟩ := bind_eq_ok.mp h
  exact ⟨q, hq, (pure_eq_ok.mp h).symm⟩

theorem split_copy_on_guards_ok {left right : PageId} {copy_start_slot : ℕ}
    (h : split_copy_on_guards pages lsn left right copy_start_slot = .ok e) :
    ∃ l r, apply_split_copy (pages left) (pages right) copy_start_slot true = .ok (l, r) ∧
      e = ⟨[(left, stamp_pd_lsn l lsn), (right, stamp_pd_lsn r lsn)],
        .BTreeSplitCopy left right copy_start_slot (page_pd_lsn (pages left))⟩ := by
  obtain ⟨⟨l, r⟩, hcopy, h⟩ := bind_eq_ok.mp h
  exact ⟨l, r, hcopy, (pure_eq_ok.mp h).symm⟩

theorem split_commit_parent_ok {left right parent : PageId} {separator : List UInt8}
    (h : split_commit_parent pages lsn left right parent separator slot = .ok e) :
    Shaped (pages left) ∧
    ∃ q, insert_entry_at (pages parent) slot (encode_internal_entry separator right) = .ok q ∧
      e = ⟨[(parent, stamp_pd_lsn q lsn)], .BTreeSplitCommit left right parent separator slot⟩ := by
  obtain ⟨hd, hhd, h⟩ := bind_eq_ok.mp h
  obtain ⟨q, hq, h⟩ := bind_eq_ok.mp h
  exact ⟨(checked_header_eq_ok.mp hhd).1, q, hq, (pure_eq_ok.mp h).symm⟩

theorem entry_bytes_eq_ok {page : Page} {bytes : List UInt8} :
    entry_bytes page slot = .ok bytes ↔ tuple page slot = .ok (some bytes) := by
  unfold entry_bytes
  cases tuple page slot with
  | error e => simp
  | ok o =>
    cases o with
    | none => simp
    | some b => simp

/-- Prepare records the key that replay will check. -/
theorem split_prepare_on_guards_ok {left right : PageId}
    (h : split_prepare_on_guards pages lsn left right = .ok e) :
    ∃ level old_next high_key q, check_high_key (pages left) left level high_key = .ok () ∧
      apply_prepare_left (pages left) right = .ok q ∧
      e = ⟨[(right, stamp_pd_lsn (init_right_page (pages right) left old_next level) lsn),
        (left, stamp_pd_lsn q lsn)], .BTreeSplitPrepare left right level old_next high_key⟩ := by
  unfold split_prepare_on_guards at h
  obtain ⟨level, -, h⟩ := bind_eq_ok.mp h
  obtain ⟨flags, -, h⟩ := bind_eq_ok.mp h
  obtain ⟨-, h⟩ := ite_throw_eq_ok.mp h
  obtain ⟨old_next, -, h⟩ := bind_eq_ok.mp h
  obtain ⟨hcount, h⟩ := ite_throw_eq_ok.mp h
  obtain ⟨last, hlast, h⟩ := bind_eq_ok.mp h
  obtain ⟨high_key, hkey, h⟩ := bind_eq_ok.mp h
  obtain ⟨q, hq, h⟩ := bind_eq_ok.mp h
  refine ⟨level, old_next, high_key, q, ?_, hq, (pure_eq_ok.mp h).symm⟩
  unfold check_high_key
  simp only
  rw [if_pos (by omega), entry_bytes_eq_ok.mp hlast]
  simp only [hkey]
  rw [if_neg (not_not.mpr rfl)]

end Exec

/-! ## Each record redoes its step -/

section Logged

variable {reload : PageId → Page} {s : PageId → Page} {lsn : Lsn}

theorem le_page_pd_lsn_stamp (p : Page) (hlsn : lsn < 256 ^ 8) :
    lsn ≤ page_pd_lsn (stamp_pd_lsn p lsn) := by
  rw [page_pd_lsn_stamp hlsn]
  exact le_max_left _ _

variable {i left right : PageId}

/-- One page changed. -/
theorem logged_one {act : BtreeAction} {p : Page} (hlsn : lsn < 256 ^ 8)
    (hbefore : page_pd_lsn (s i) < lsn) (hact : act (s i) = .ok (stamp_pd_lsn p lsn)) :
    LoggedPages page_pd_lsn Eq s (update s i (stamp_pd_lsn p lsn))
      ((LogRecord.mk lsn [(i, act)]).toPages page_pd_lsn) := by
  apply loggedPages_of_changes
  · exact List.nodup_singleton _
  · intro c hc
    rw [mem_singleton.mp hc]
    exact hbefore
  · intro c hc
    rw [mem_singleton.mp hc, update_self]
    exact le_page_pd_lsn_stamp p hlsn
  · intro c hc q hq
    rw [mem_singleton.mp hc] at hq ⊢
    rw [← hq, update_self]
    exact ⟨_, hact, rfl⟩
  · intro j hj
    exact update_of_ne (fun h => hj (by simp [h])) _ _

variable {q : Page}

/-- Two pages changed. -/
theorem logged_two {j : PageId} {act act' : BtreeAction} {p : Page} (hij : i ≠ j)
    (hlsn : lsn < 256 ^ 8) (hi : page_pd_lsn (s i) < lsn) (hj : page_pd_lsn (s j) < lsn)
    (hact : act (s i) = .ok (stamp_pd_lsn p lsn)) (hact' : act' (s j) = .ok (stamp_pd_lsn q lsn)) :
    LoggedPages page_pd_lsn Eq s
      (update (update s i (stamp_pd_lsn p lsn)) j (stamp_pd_lsn q lsn))
      ((LogRecord.mk lsn [(i, act), (j, act')]).toPages page_pd_lsn) := by
  have hti : update (update s i (stamp_pd_lsn p lsn)) j (stamp_pd_lsn q lsn) i =
      stamp_pd_lsn p lsn := by rw [update_of_ne hij, update_self]
  have htj : update (update s i (stamp_pd_lsn p lsn)) j (stamp_pd_lsn q lsn) j =
      stamp_pd_lsn q lsn := update_self _ _ _
  have hmem : ∀ c ∈ [(i, act), (j, act')], c = (i, act) ∨ c = (j, act') := by simp
  apply loggedPages_of_changes
  · simp [hij]
  · intro c hc
    rcases hmem c hc with rfl | rfl
    · exact hi
    · exact hj
  · intro c hc
    rcases hmem c hc with rfl | rfl
    · rw [hti]; exact le_page_pd_lsn_stamp p hlsn
    · rw [htj]; exact le_page_pd_lsn_stamp q hlsn
  · intro c hc x hx
    rcases hmem c hc with rfl | rfl
    · rw [hti, ← hx]; exact ⟨_, hact, rfl⟩
    · rw [htj, ← hx]; exact ⟨_, hact', rfl⟩
  · intro k hk
    rw [update_of_ne (fun h => hk (by simp [h])),
      update_of_ne (fun h => hk (by simp [h]))]

theorem logged_insert {slot level flags : ℕ} {entry : List UInt8} (hlsn : lsn < 256 ^ 8)
    (hbefore : page_pd_lsn (s i) < lsn) (hq : insert_entry_at (s i) slot entry = .ok q) :
    LoggedPages page_pd_lsn Eq s (update s i (stamp_pd_lsn q lsn))
      (btree_redo_handlers reload (lsn, .BTreeInsert i slot level flags entry)) := by
  apply logged_one hlsn hbefore
  have hs := (insert_entry_at_eq_ok.mp hq).1
  rw [redo_insert, hs.init_if_fresh, hq]
  rfl

theorem logged_delete {slot : ℕ} (hlsn : lsn < 256 ^ 8) (hbefore : page_pd_lsn (s i) < lsn)
    (hq : remove_entry_at (s i) slot = .ok q) :
    LoggedPages page_pd_lsn Eq s (update s i (stamp_pd_lsn q lsn))
      (btree_redo_handlers reload (lsn, .BTreeDelete i slot)) := by
  apply logged_one hlsn hbefore
  rw [redo_delete, hq]
  rfl

theorem logged_prepare {level : ℕ} {old_next : PageId} {high_key : List UInt8} (hne : right ≠ left)
    (hlsn : lsn < 256 ^ 8) (hl : page_pd_lsn (s left) < lsn) (hr : page_pd_lsn (s right) < lsn)
    (hkey : check_high_key (s left) left level high_key = .ok ())
    (hq : apply_prepare_left (s left) right = .ok q) :
    LoggedPages page_pd_lsn Eq s
      (update (update s right
        (stamp_pd_lsn (init_right_page (s right) left old_next level) lsn)) left
        (stamp_pd_lsn q lsn))
      (btree_redo_handlers reload (lsn, .BTreeSplitPrepare left right level old_next high_key)) := by
  apply logged_two hne hlsn hr hl
  · rfl
  · have hs := apply_prepare_left_shaped hq
    rw [redo_prepare_left, hs.init_if_fresh]
    simp only [hkey, hq]
    rfl

theorem logged_commit {parent : PageId} {separator : List UInt8} {slot : ℕ} {c : Page}
    (hne : parent ≠ left) (hlsn : lsn < 256 ^ 8) (hl : page_pd_lsn (s left) < lsn)
    (hp : page_pd_lsn (s parent) < lsn)
    (hq : insert_entry_at (s parent) slot (encode_internal_entry separator right) = .ok q)
    (hc : apply_commit_left (s left) = .ok c) :
    LoggedPages page_pd_lsn Eq s
      (update (update s parent (stamp_pd_lsn q lsn)) left (stamp_pd_lsn c lsn))
      (btree_redo_handlers reload (lsn, .BTreeSplitCommit left right parent separator slot)) := by
  apply logged_two hne hlsn hp hl
  · rw [redo_commit_parent, if_neg (insert_entry_at_eq_ok.mp hq).1.upper_ne_zero, hq]
    rfl
  · rw [redo_commit_left, if_neg (apply_commit_left_eq_ok.mp hc).1.upper_ne_zero, commit_left, hc]
    rfl

theorem btree_redo_handlers_copy {copy_start_slot : ℕ} {pre_lsn : Lsn} :
    btree_redo_handlers reload (lsn, .BTreeSplitCopy left right copy_start_slot pre_lsn) =
      ⟨lsn, [left, right], [(left, right)],
        BTreeSplitCopyHandler reload lsn left right copy_start_slot pre_lsn⟩ := rfl

/-- **The Copy.** The left page is the anchored image or past the copy; in the second
case the right page is past it too, by the order in which they were flushed. -/
theorem logged_copy {copy_start_slot : ℕ} {l r : Page} (hne : left ≠ right) (hlsn : lsn < 256 ^ 8)
    (hl : page_pd_lsn (s left) < lsn) (hr : page_pd_lsn (s right) < lsn)
    (hcopy : apply_split_copy (s left) (s right) copy_start_slot true = .ok (l, r)) :
    LoggedPages page_pd_lsn Eq s
      (update (update s left (stamp_pd_lsn l lsn)) right (stamp_pd_lsn r lsn))
      (btree_redo_handlers reload
        (lsn, .BTreeSplitCopy left right copy_start_slot (page_pd_lsn (s left)))) := by
  have htl : update (update s left (stamp_pd_lsn l lsn)) right
      (stamp_pd_lsn r lsn) left = stamp_pd_lsn l lsn := by
    rw [update_of_ne hne, update_self]
  have htr : update (update s left (stamp_pd_lsn l lsn)) right
      (stamp_pd_lsn r lsn) right = stamp_pd_lsn r lsn := update_self _ _ _
  have hmem : ∀ i, i ∈ [left, right] → i = left ∨ i = right := by simp
  rw [btree_redo_handlers_copy]
  refine ⟨?_, ?_, ?_, ?_, ?_⟩
  · intro i hi
    rcases hmem i hi with rfl | rfl
    · exact hl
    · exact hr
  · intro i hi
    rcases hmem i hi with rfl | rfl
    · rw [htl]; exact le_page_pd_lsn_stamp l hlsn
    · rw [htr]; exact le_page_pd_lsn_stamp r hlsn
  · intro i hi
    have hi' : i ∉ [left, right] := hi
    rw [update_of_ne (fun h => hi' (by simp [h])),
      update_of_ne (fun h => hi' (by simp [h]))]
  · intro c hc
    rw [mem_singleton.mp hc]
    exact ⟨List.mem_cons_self, List.mem_cons_of_mem _ (.head _)⟩
  · intro m hm hord
    replace hm : ∀ i ∈ [left, right], page_pd_lsn (m i) < lsn → s i = m i := hm
    replace hord : lsn ≤ page_pd_lsn (m left) → lsn ≤ page_pd_lsn (m right) :=
      hord (left, right) (.head _)
    simp only [BTreeSplitCopyHandler]
    by_cases hpast : lsn ≤ page_pd_lsn (m left)
    · -- both pages are past the copy
      rw [if_pos (ne_of_gt (lt_of_lt_of_le hl hpast)), if_pos hpast, if_pos (hord hpast)]
      refine ⟨m, rfl, fun i hi hlt => ?_, fun i _ => rfl⟩
      rcases hmem i hi with rfl | rfl
      · exact absurd hpast (not_le.mpr hlt)
      · exact absurd (hord hpast) (not_le.mpr hlt)
    · have hleft : s left = m left := hm left (.head _) (not_le.mp hpast)
      rw [if_neg (by rw [hleft]; exact not_not.mpr rfl)]
      by_cases hright : lsn ≤ page_pd_lsn (m right)
      · -- the right page has its entries; the left page is rebuilt
        rw [show decide (page_pd_lsn (m right) < lsn) = false by simpa using hright, ← hleft,
          apply_split_copy_left hcopy (m right)]
        refine ⟨_, rfl, fun i hi hlt => ?_, fun i hi => ?_⟩
        · rcases hmem i hi with rfl | rfl
          · rw [htl, update_self]
          · exact absurd hright (not_le.mpr hlt)
        · apply update_of_ne
          rintro rfl
          rcases hi with hi | hi
          · exact hi (.head _)
          · exact hpast hi
      · have hright' : s right = m right :=
          hm right (.tail _ (.head _)) (not_le.mp hright)
        rw [show decide (page_pd_lsn (m right) < lsn) = true by simpa using hright, ← hleft,
          ← hright', hcopy]
        refine ⟨_, rfl, fun i hi hlt => ?_, fun i hi => ?_⟩
        · rcases hmem i hi with rfl | rfl
          · rw [htl, update_self]
          · rw [htr]
            simp only [if_true]
            rw [update_of_ne hne.symm, update_self]
        · simp only [if_true]
          have hil : i ≠ left := by
            rintro rfl
            rcases hi with hi | hi
            · exact hi (.head _)
            · exact hpast hi
          have hir : i ≠ right := by
            rintro rfl
            rcases hi with hi | hi
            · exact hi (.tail _ (.head _))
            · exact hright hi
          rw [update_of_ne hil, update_of_ne hir]

end Logged

/-! ## The online system against log order -/

/-- `canon` is the pages in log order: what they are once every Commit in the log is
finished. -/
structure Canon (pages : PageId → Page) (committing : List (PageId × Lsn)) (last : Lsn)
    (canon : PageId → Page) : Prop where
  same : ∀ i, i ∉ committing.map Prod.fst → canon i = pages i
  commits : ∀ c ∈ committing, commit_left (pages c.1) c.2 = .ok (canon c.1)
  bounded : ∀ c ∈ committing, c.2 ≤ last ∧ c.2 < 256 ^ 8
  distinct : (committing.map Prod.fst).Nodup

namespace Canon

variable {pages canon : PageId → Page} {committing : List (PageId × Lsn)} {last lsn : Lsn}
  {i : PageId}

variable (h : Canon pages committing last canon)

include h

theorem later (hle : last ≤ lsn) : Canon pages committing lsn canon :=
  ⟨h.same, h.commits, fun c hc => ⟨le_trans (h.bounded c hc).1 hle, (h.bounded c hc).2⟩, h.distinct⟩

/-- Finishing a Commit late does not raise a page's LSN past the log. -/
theorem pd_lsn_lt (hlast : last < lsn)
    (hi : page_pd_lsn (pages i) < lsn) : page_pd_lsn (canon i) < lsn := by
  by_cases hc : i ∈ committing.map Prod.fst
  · obtain ⟨c, hmem, rfl⟩ := mem_map.mp hc
    obtain ⟨-, heq⟩ := commit_left_eq_ok.mp (h.commits c hmem)
    obtain ⟨hle, hlt⟩ := h.bounded c hmem
    have hstamp : page_pd_lsn (canon c.1) = max c.2 (page_pd_lsn (pages c.1)) := by
      rw [heq]
      exact page_pd_lsn_set (max_lt hlt (page_pd_lsn_lt _))
    rw [hstamp]
    exact max_lt (lt_of_le_of_lt hle hlast) hi
  · rw [h.same i hc]
    exact hi

/-- An entry operation that succeeds online succeeds in log order, and the two
results are related as the pages were. -/
theorem entry_op {f : Page → Except BTreeError Page}
    (hf : Above f) (hlsn : lsn < 256 ^ 8) {q : Page} (hq : f (pages i) = .ok q) :
    ∃ d, f (canon i) = .ok d ∧ (i ∉ committing.map Prod.fst → d = q) ∧
      ∀ c ∈ committing, c.1 = i → commit_left (stamp_pd_lsn q lsn) c.2 = .ok (stamp_pd_lsn d lsn) := by
  by_cases hc : i ∈ committing.map Prod.fst
  · obtain ⟨c, hmem, rfl⟩ := mem_map.mp hc
    obtain ⟨d, hd, hcomm⟩ :=
      hf.commit_left_comm (h.bounded c hmem).2 hlsn hq (h.commits c hmem)
    refine ⟨d, hd, fun hn => absurd hc hn, fun c' hmem' heq => ?_⟩
    -- a page waits for one Commit only
    rw [List.inj_on_of_nodup_map h.distinct hmem' hmem heq]
    exact hcomm
  · refine ⟨q, by rw [h.same i hc]; exact hq, fun _ => rfl, fun c hmem heq => ?_⟩
    exact absurd (heq ▸ mem_map_of_mem hmem) hc

/-- A page written on both sides, with related content. -/
theorem write {p d : Page}
    (hsame : i ∉ committing.map Prod.fst → d = p)
    (hcommit : ∀ c ∈ committing, c.1 = i → commit_left p c.2 = .ok d) :
    Canon (update pages i p) committing last (update canon i d) where
  same j hj := by
    by_cases hij : j = i
    · subst hij
      rw [update_self, update_self]
      exact hsame hj
    · rw [update_of_ne hij, update_of_ne hij]
      exact h.same j hj
  commits c hc := by
    by_cases hij : c.1 = i
    · subst hij
      rw [update_self, update_self]
      exact hcommit c hc rfl
    · rw [update_of_ne hij, update_of_ne hij]
      exact h.commits c hc
  bounded := h.bounded
  distinct := h.distinct

/-- A settled page written with the same content on both sides. -/
theorem write_settled (hi : i ∉ committing.map Prod.fst)
    (p : Page) : Canon (update pages i p) committing last (update canon i p) :=
  h.write (fun _ => rfl) fun _ hc heq => absurd (heq ▸ mem_map_of_mem hc) hi

/-- A Commit appended: its left page now waits. -/
theorem append_commit (hi : i ∉ committing.map Prod.fst)
    (hlsn : lsn < 256 ^ 8) (hlast : lsn ≤ last) {c : Page} (hc : commit_left (pages i) lsn = .ok c) :
    Canon pages ((i, lsn) :: committing) last (update canon i c) where
  same j hj := by
    rw [List.map_cons, mem_cons, not_or] at hj
    rw [update_of_ne hj.1]
    exact h.same j hj.2
  commits d hd := by
    rcases mem_cons.mp hd with rfl | hd
    · rw [update_self]
      exact hc
    · have hne : d.1 ≠ i := fun heq => hi (heq ▸ mem_map_of_mem hd)
      rw [update_of_ne hne]
      exact h.commits d hd
  bounded d hd := by
    rcases mem_cons.mp hd with rfl | hd
    · exact ⟨hlast, hlsn⟩
    · exact h.bounded d hd
  distinct := nodup_cons.mpr ⟨hi, h.distinct⟩

/-- A Commit finished: its left page is what log order says. -/
theorem finish (hi : (i, lsn) ∈ committing) {p : Page}
    (hp : commit_left (pages i) lsn = .ok p) :
    Canon (update pages i p) (committing.filter fun c => decide (c.1 ≠ i)) last canon where
  same j hj := by
    by_cases hij : j = i
    · subst hij
      rw [update_self]
      have hself := h.commits _ hi
      rw [hp] at hself
      exact (Except.ok.inj hself).symm
    · rw [update_of_ne hij]
      apply h.same
      rintro hmem
      obtain ⟨c, hc, rfl⟩ := mem_map.mp hmem
      exact hj (mem_map_of_mem (mem_filter.mpr ⟨hc, by simpa using hij⟩))
  commits c hc := by
    obtain ⟨hmem, hne⟩ := mem_filter.mp hc
    rw [update_of_ne (by simpa using hne)]
    exact h.commits c hmem
  bounded c hc := h.bounded c (mem_filter.mp hc).1
  distinct := h.distinct.sublist (List.filter_sublist.map _)

end Canon

namespace BtreeSys

variable {s : BtreeSys} {canon : PageId → Page}

/-- **A logged step, in log order.** -/
theorem log_step (reload : PageId → Page) (h : Canon s.pages s.committing s.last_lsn canon)
    {lsn : Lsn} {op : BtreeOp} (hen : s.Enabled lsn op) {e : BtreeEffect}
    (he : op.exec s.pages lsn = .ok e) :
    ∃ canon', LoggedPages page_pd_lsn Eq canon canon' (btree_redo_handlers reload (lsn, e.record)) ∧
      Canon (write_pages s.pages e.writes) (op.commits lsn ++ s.committing) lsn canon' := by
  obtain ⟨hlast, hlsn, hnd, hstamp, hsettled⟩ := hen
  have hbefore : ∀ i ∈ op.pages, page_pd_lsn (canon i) < lsn := fun i hi =>
    h.pd_lsn_lt hlast (hstamp i hi)
  replace h := h.later (le_of_lt hlast)
  cases op with
  | insert_into_page page_id slot entry =>
    obtain ⟨q, level, flags, hq, rfl⟩ := insert_into_page_ok he
    obtain ⟨d, hd, hsame, hcommit⟩ := h.entry_op (above_insert_entry_at slot entry) hlsn hq
    refine ⟨_, logged_insert hlsn (hbefore page_id (.head _)) hd, ?_⟩
    exact h.write (fun hc => by rw [hsame hc]) hcommit
  | delete page_id slot =>
    obtain ⟨q, hq, rfl⟩ := delete_from_page_ok he
    obtain ⟨d, hd, hsame, hcommit⟩ := h.entry_op (above_remove_entry_at slot) hlsn hq
    refine ⟨_, logged_delete hlsn (hbefore page_id (.head _)) hd, ?_⟩
    exact h.write (fun hc => by rw [hsame hc]) hcommit
  | split_prepare left right =>
    obtain ⟨level, old_next, high_key, q, hkey, hq, rfl⟩ := split_prepare_on_guards_ok he
    have hl : left ∉ s.committing.map Prod.fst := hsettled left (.head _)
    have hr : right ∉ s.committing.map Prod.fst :=
      hsettled right (.tail _ (.head _))
    have hne : right ≠ left := fun heq => (nodup_cons.mp hnd).1 (heq ▸ (.head _))
    rw [← h.same left hl] at hkey hq
    refine ⟨_, logged_prepare hne hlsn (hbefore left (.tail _ (.head _)))
      (hbefore right (.head _)) hkey hq, ?_⟩
    rw [h.same right hr]
    exact (h.write_settled hr _).write_settled hl _
  | split_copy left right copy_start_slot =>
    obtain ⟨l, r, hcopy, rfl⟩ := split_copy_on_guards_ok he
    have hl : left ∉ s.committing.map Prod.fst := hsettled left (.head _)
    have hr : right ∉ s.committing.map Prod.fst :=
      hsettled right (.tail _ (.head _))
    have hne : left ≠ right := fun heq => (nodup_cons.mp hnd).1 (heq ▸ (.head _))
    rw [← h.same left hl, ← h.same right hr] at hcopy
    rw [← h.same left hl]
    refine ⟨_, logged_copy hne hlsn (hbefore left (.head _))
      (hbefore right (.tail _ (.head _))) hcopy, ?_⟩
    exact (h.write_settled hl _).write_settled hr _
  | split_commit left right parent separator slot =>
    obtain ⟨hshaped, q, hq, rfl⟩ := split_commit_parent_ok he
    have hl : left ∉ s.committing.map Prod.fst := hsettled left (.head _)
    have hne : parent ≠ left := fun heq => (nodup_cons.mp hnd).1 (heq ▸ (.head _))
    obtain ⟨d, hd, hsame, hcommit⟩ := h.entry_op (above_insert_entry_at slot _) hlsn hq
    -- the left page as it will be, whenever the Commit is finished
    obtain ⟨c, hc⟩ : ∃ c, apply_commit_left (s.pages left) = .ok c :=
      ⟨_, apply_commit_left_eq_ok.mpr ⟨hshaped, rfl⟩⟩
    have hwrite := h.write (fun hc => by rw [hsame hc]) hcommit
    refine ⟨_, logged_commit hne hlsn (hbefore left (.tail _ (.head _)))
      (hbefore parent (.head _)) hd (by rw [h.same left hl]; exact hc), ?_⟩
    apply hwrite.append_commit hl hlsn (le_refl lsn)
    rw [update_of_ne hne.symm, commit_left, hc]
    rfl

/-- The journal of a run, kept in log order; `hist` is the states passed through. -/
def Replayable (reload : PageId → Page) (hist : List BtreeSys) (s : BtreeSys) : Prop :=
  ∃ seen canon, Journal page_pd_lsn Eq seen (s.wal.map (btree_redo_handlers reload)) s.last_lsn canon ∧
    Canon s.pages s.committing s.last_lsn canon ∧
    ∀ t ∈ hist, ∀ i, ¬ t.Committing i → ∃ u ∈ seen, t.pages i = u i

theorem Replayable.start (reload : PageId → Page) (hwal : s.wal = []) (hc : s.committing = []) :
    Replayable reload [s] s := by
  refine ⟨[s.pages], s.pages, ?_, ?_, ?_⟩
  · rw [hwal]
    exact Journal.start (fun _ => rfl) s.pages s.last_lsn
  · rw [hc]
    exact ⟨fun _ _ => rfl, fun c h => absurd h not_mem_nil, fun c h => absurd h not_mem_nil,
      List.nodup_nil⟩
  · intro t ht i _
    rw [mem_singleton.mp ht]
    exact ⟨s.pages, List.mem_singleton_self _, rfl⟩

theorem Replayable.step {reload : PageId → Page} {hist : List BtreeSys} {t : BtreeSys}
    {l : BtreeStep} (h : Replayable reload hist s) (hst : s.step l = some t) :
    Replayable reload (hist ++ [t]) t := by
  obtain ⟨seen, canon, hj, hcanon, himg⟩ := h
  cases l with
  | log lsn op =>
    unfold BtreeSys.step at hst
    by_cases hen : s.Enabled lsn op
    · simp only [if_pos hen] at hst
      split at hst
      · cases hst
      · next e he =>
        cases hst
        obtain ⟨canon', hlogged, hcanon'⟩ := log_step reload hcanon hen he
        refine ⟨seen ++ [canon'], canon', ?_, hcanon', ?_⟩
        · rw [List.map_append]
          have hnext := hj.logged (fun _ => rfl) (fun _ _ hpq => by rw [hpq]) hlogged
          have hsn : (btree_redo_handlers reload (lsn, e.record)).lsn = lsn := by
            cases e.record <;> rfl
          rw [hsn] at hnext
          exact hnext hen.1
        · intro u hu i hi
          rcases List.mem_append.mp hu with hu | hu
          · obtain ⟨v, hv, heq⟩ := himg u hu i hi
            exact ⟨v, List.mem_append_left _ hv, heq⟩
          · rw [mem_singleton.mp hu] at hi ⊢
            exact ⟨canon', List.mem_append_right _ (.head _), (hcanon'.same i hi).symm⟩
    · simp [if_neg hen] at hst
  | finish_commit left =>
    unfold BtreeSys.step at hst
    simp only at hst
    split at hst
    · cases hst
    · next lsn hlook =>
      split at hst
      · cases hst
      · next p hp =>
        cases hst
        obtain ⟨before, after, hsplit, -⟩ := List.lookup_eq_some_iff.mp hlook
        have hcanon' := hcanon.finish (by rw [hsplit]; simp) hp
        refine ⟨seen, canon, hj, hcanon', ?_⟩
        intro u hu i hi
        rcases List.mem_append.mp hu with hu | hu
        · exact himg u hu i hi
        · rw [mem_singleton.mp hu] at hi ⊢
          exact ⟨canon, hj.mem, (hcanon'.same i hi).symm⟩

end BtreeSys

/-- The disk is at or past every Copy on the right page when it is on the left. -/
def CopyOrdered (wal : List (Lsn × BtreeRecord)) (disk : PageId → Page) : Prop :=
  ∀ e ∈ wal, ∀ left right copy_start_slot pre_lsn,
    e.2 = .BTreeSplitCopy left right copy_start_slot pre_lsn →
    e.1 ≤ page_pd_lsn (disk left) → e.1 ≤ page_pd_lsn (disk right)

theorem CopyOrdered.ordered {wal : List (Lsn × BtreeRecord)} {disk : PageId → Page}
    (h : CopyOrdered wal disk) (reload : PageId → Page) :
    ∀ r ∈ wal.map (btree_redo_handlers reload), r.Ordered page_pd_lsn disk := by
  intro r hr c hc
  obtain ⟨⟨lsn, record⟩, he, rfl⟩ := mem_map.mp hr
  cases record with
  | BTreeSplitCopy left right copy_start_slot pre_lsn =>
    rw [btree_redo_handlers_copy] at hc ⊢
    rw [mem_singleton.mp hc]
    exact h _ he left right copy_start_slot pre_lsn rfl
  | BTreeInsert page_id slot_id level flags tuple_bytes => exact absurd hc List.not_mem_nil
  | BTreeDelete page_id slot_id => exact absurd hc List.not_mem_nil
  | BTreeSplitPrepare left right level old_next high_key => exact absurd hc List.not_mem_nil
  | BTreeSplitCommit left right parent separator slot => exact absurd hc List.not_mem_nil

/-- **B+Tree redo refines the online path.** Take any run of the index's logged steps
that ends with every Commit finished, and a disk that holds, page by page, an image
the run went through with no Commit of that page under way. If no Copy's left page is
on disk ahead of its right page, replaying the log succeeds and ends in the online
pages, byte for byte, and replaying it again changes nothing. -/
theorem btree_redo_refines_online {s₀ s : BtreeSys} {steps : List BtreeStep}
    (hwal : s₀.wal = []) (hc₀ : s₀.committing = [])
    (hrun : run BtreeSys.step s₀ steps = some s) (hc : s.committing = []) {disk : PageId → Page}
    (hdisk : ∀ i, ∃ t ∈ s₀ :: visited BtreeSys.step s₀ steps,
      ¬ t.Committing i ∧ disk i = t.pages i)
    (hcopy : CopyOrdered s.wal disk) (reload : PageId → Page) :
    (s.wal.map Prod.fst).Pairwise (· < ·) ∧
    btree_redo_log reload s.wal disk = .ok s.pages ∧
    btree_redo_log reload s.wal s.pages = .ok s.pages := by
  obtain ⟨seen, canon, hj, hcanon, himg⟩ :
      BtreeSys.Replayable reload ([s₀] ++ visited BtreeSys.step s₀ steps) s :=
    run_history (fun _ _ => True) (BtreeSys.Replayable reload)
      (fun _ _ _ _ h _ hst => h.step hst) (BtreeSys.Replayable.start reload hwal hc₀)
      (allSteps_true s₀ steps) hrun
  have hfinal : canon = s.pages := by
    funext i
    apply hcanon.same
    rw [hc]
    exact not_mem_nil
  subst hfinal
  obtain ⟨out, hout, heq⟩ := hj.recovers
    (fun i => by
      obtain ⟨t, ht, hnc, hi⟩ := hdisk i
      obtain ⟨u, hu, hiu⟩ := himg t ht i hnc
      exact ⟨u, hu, hi.trans hiu⟩)
    (hcopy.ordered reload)
  obtain rfl : s.pages = out := funext heq
  refine ⟨?_, hout, ?_⟩
  · have hinc := hj.increasing
    rw [List.map_map] at hinc
    have hlsn : PagesRecord.lsn ∘ btree_redo_handlers reload = Prod.fst := by
      funext e
      rcases e with ⟨lsn, record⟩
      cases record <;> rfl
    rwa [hlsn] at hinc
  · have hagain := hj.idempotent (fun _ _ hpq => by rw [hpq]) (fun i => rfl) s.wal.length
    rwa [← List.map_take, List.take_length] at hagain

/-- A leaf root, a page to split it onto, and the page of its new parent, which holds
the downlink of the leaf. -/
def BtreeSys.one_leaf : BtreeSys where
  pages i :=
    if i = 5 then BtreePage.init Page.zero 0 BTREE_FLAG_LEAF
    else if i = 7 then
      match insert_entry_at (BtreePage.init Page.zero 1 BTREE_FLAG_ROOT) 0
        (encode_internal_entry [] 5) with
      | .ok page => page
      | .error _ => Page.zero
    else Page.zero
  wal := []
  last_lsn := 0
  committing := []

/-- Two insertions, the three records of a split, and an insertion into the left page
between the append of the Commit and its end. -/
def leaf_split : List BtreeStep :=
  [.log 10 (.insert_into_page 5 0 (65 :: leBytes 10 1)),
   .log 20 (.insert_into_page 5 1 (66 :: leBytes 10 2)),
   .log 30 (.split_prepare 5 6),
   .log 40 (.split_copy 5 6 1),
   .log 50 (.split_commit 5 6 7 [66] 1),
   .log 60 (.insert_into_page 5 0 (64 :: leBytes 10 3)),
   .finish_commit 5]

/-- None of it reached the disk. -/
theorem btree_redo_refines_online_leaf_split :
    ∃ s, run BtreeSys.step BtreeSys.one_leaf leaf_split = some s ∧ s.wal.length = 6 ∧
      btree_redo_log (fun _ => Page.zero) s.wal BtreeSys.one_leaf.pages = .ok s.pages := by
  refine exists_of_map_eq
    (fun s => (s.wal.length, s.committing, s.wal.all fun e => decide (0 < e.1)))
    (b := (6, [], true)) (by decide +kernel) fun s hs hval => ?_
  simp only [Prod.mk.injEq] at hval
  obtain ⟨hlen, hc, hpos⟩ := hval
  have hzero : ∀ i, page_pd_lsn (BtreeSys.one_leaf.pages i) = 0 := by
    intro i
    by_cases h5 : i = 5
    · rw [h5]; decide +kernel
    · by_cases h7 : i = 7
      · rw [h7]; decide +kernel
      · simp only [BtreeSys.one_leaf, if_neg h5, if_neg h7]
        decide +kernel
  have hcopy : CopyOrdered s.wal BtreeSys.one_leaf.pages := by
    intro e he left right copy_start_slot pre_lsn _ hle
    have hlt := List.all_eq_true.mp hpos e he
    rw [hzero] at hle
    simp only [decide_eq_true_eq] at hlt
    exact absurd hlt (not_lt.mpr hle)
  obtain ⟨-, hredo, -⟩ := @btree_redo_refines_online BtreeSys.one_leaf s leaf_split rfl rfl hs hc
    BtreeSys.one_leaf.pages
    (fun i => ⟨BtreeSys.one_leaf, (.head _), not_mem_nil, rfl⟩) hcopy fun _ => Page.zero
  exact ⟨hlen, hredo⟩

end Ams
