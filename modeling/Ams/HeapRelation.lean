/-
One relation under any number of transactions, call by call.

The system puts the pieces together: the transaction manager, the pages, the calls of
`HeapAM` with the row-lock gate in front of them, and vacuum. Beside the pages it keeps
the history of the calls that returned, the version each slot holds, and the versions
each transaction's scans returned; nothing in the heap reads these three.

A write is a step only if its caller keeps to the rules: the snapshot is live, its
transaction has begun and not ended, the row is one that a scan of the transaction
returned, and a new tuple is a fresh one whose `t_cid` is the current command. The share
holders registered for a row are left open, since none of the results depends on them. A
call that the gate makes wait comes back as the deadlock's victim or is made again later;
here it fails and changes nothing.
-/
import Ams.VersionStore

set_option autoImplicit false

namespace Ams

open Ams.Lib SlottedPage Relation

/-! ## Row locks -/

namespace HeapAM

def stamp_lock_only (page : Page) (tid : Tid) (locker : TxnId) (curcid : ℕ) (shared : Bool) :
    Except HeapError Page :=
  stamp_header page tid fun h => h.stamp_lock_only locker curcid shared

/-- The body of `lock_tuple` and `lock_tuple_shared`. Lock stamps are not logged. -/
def lock_row (shared : Bool) (pages : PageId → Page) (tid : Tid) (self_xid : TxnId) (curcid : ℕ)
    (gate : TupleHeader → Except HeapError RowLockGate) : Outcome :=
  match read_header (pages tid.page_id) tid with
  | .error e => ⟨pages, none, .error e⟩
  | .ok header =>
    match gate header with
    | .error e => ⟨pages, none, .error e⟩
    | .ok .Proceed =>
      match stamp_lock_only (pages tid.page_id) tid self_xid curcid shared with
      | .error e => ⟨pages, none, .error e⟩
      | .ok page => ⟨Function.update pages tid.page_id page, none, .ok none⟩
    | .ok .ProceedNoStamp => ⟨pages, none, .ok none⟩
    | .ok (.Wait _) => ⟨pages, none, .error .DeadlockVictim⟩

/-- The gate pass of a call, with no other transaction moving. -/
def gate_verdict (mgr : TxnManager) (request : LockRequest) (tid : Tid) (self_xid : TxnId)
    (entry : Option HolderSet) (header : TupleHeader) : Except HeapError RowLockGate :=
  ((row_lock_gate true tid header self_xid request entry).eval mgr.answer).verdict

/-- `SELECT ... FOR UPDATE`. -/
def lock_tuple (mgr : TxnManager) (pages : PageId → Page) (tid : Tid) (self_xid : TxnId)
    (curcid : ℕ) (entry : Option HolderSet) : Outcome :=
  lock_row false pages tid self_xid curcid (gate_verdict mgr .Exclusive tid self_xid entry)

/-- `SELECT ... FOR SHARE`. -/
def lock_tuple_shared (mgr : TxnManager) (pages : PageId → Page) (tid : Tid) (self_xid : TxnId)
    (curcid : ℕ) (entry : Option HolderSet) : Outcome :=
  lock_row true pages tid self_xid curcid (gate_verdict mgr .Shared tid self_xid entry)

/-- The gate of a delete or an update: anything but `Proceed` is a failed call. -/
def writer_gate (mgr : TxnManager) (tid : Tid) (self_xid : TxnId) (entry : Option HolderSet)
    (header : TupleHeader) : Except HeapError Unit :=
  match gate_verdict mgr .Writer tid self_xid entry header with
  | .error e => .error e
  | .ok .Proceed => .ok ()
  | .ok .ProceedNoStamp => .error .DeadlockVictim
  | .ok (.Wait _) => .error .DeadlockVictim

/-- The part of `extend_chain` behind the page allocation: initialise the new page, link
the tail to it, and track it. -/
def extend_chain (pages : PageId → Page) (init_lsn link_lsn : Lsn) (relation_pages : List PageId)
    (new_page_id : PageId) : Except HeapError ((PageId → Page) × List PageId) :=
  match relation_pages.getLast? with
  | none => .error (.Corrupted "seeded chain is non-empty")
  | some tail =>
    let pages := Function.update pages new_page_id
      (stamp_pd_lsn (init_with_special (pages new_page_id) HEAP_SPECIAL_SIZE) init_lsn)
    match set_next_page (init_if_fresh (pages tail)) (some new_page_id) with
    | .error e => .error e
    | .ok page =>
      .ok (Function.update pages tail (stamp_pd_lsn page link_lsn), relation_pages ++ [new_page_id])

end HeapAM

/-! ## The system -/

/-- `RelationDesc`: what the catalog says about the relation. -/
structure RelationDesc where
  rel_oid : Oid
  first_page : PageId
  columns : List ColumnType

/-- The relation, its transactions, and the bookkeeping. -/
structure HeapRelation extends History where
  txn : TxnSys
  pages : PageId → Page
  relation_pages : List PageId
  held : Tid → Option ℕ
  /-- The versions a transaction's scans returned. -/
  returned : List (TxnId × ℕ)

/-- A call. `i` is the position of the caller's snapshot among the live ones. -/
inductive RelOp where
  | txn (op : TxnOp)
  | extend_chain (init_lsn link_lsn : Lsn) (page_id : PageId)
  | scan (i curcid : ℕ)
  | insert (i curcid : ℕ) (lsn : Lsn) (tuple : List UInt8)
  | delete (i curcid : ℕ) (lsn : Lsn) (tid : Tid) (entry : Option HolderSet)
  | update (i curcid : ℕ) (lsn : Lsn) (tid : Tid) (tuple : List UInt8) (hot_eligible : Bool)
      (entry : Option HolderSet)
  | lock (i curcid : ℕ) (tid : Tid) (shared : Bool) (entry : Option HolderSet)
  | vacuum (lsn : PageId → Lsn) (free_page : PageId → Except HeapError Unit)

namespace HeapRelation

variable (rel : RelationDesc)

/-- The relation as a version store. -/
def store (s : HeapRelation) : Store where
  toHistory := s.toHistory
  txn := s.txn
  rows := relation_rows rel.columns s.relation_pages s.pages
  held := s.held

/-- The transaction behind a live snapshot, if it may write at this command. XIDs and
command ids are the `u64`s and `u32`s that headers have room for. -/
def writer (s : HeapRelation) (i curcid : ℕ) : Option TxnId :=
  match s.txn.live[i]? with
  | none => none
  | some S =>
    if TxnSys.Unfinished s.txn.mgr S.current_xid ∧ S.current_xid < 256 ^ 8 ∧ curcid < 256 ^ 4 then
      some S.current_xid
    else none

/-- The version at `tid`, if a scan of the transaction returned it. -/
def target (s : HeapRelation) (xid : TxnId) (tid : Tid) : Option ℕ :=
  match s.held tid with
  | none => none
  | some v => if (xid, v) ∈ s.returned then some v else none

/-- The values of a fresh tuple encoded for command `curcid`. -/
def fresh_tuple (columns : List ColumnType) (curcid : ℕ) (tuple : List UInt8) :
    Option (List (Option Datum)) :=
  match decode_tuple tuple columns with
  | .error _ => none
  | .ok (h, values) =>
    if h.t_xmax = TxnId.INVALID ∧ h.t_cid = curcid ∧ h.heap_only = false ∧ h.hot_updated = false ∧
      h.lock_only = false ∧ h.is_share = false then some values
    else none

/-- A call that wrote a new version. -/
def record_version (s : HeapRelation) (V : Version) (tid : Tid) : HeapRelation :=
  { s with
    versions := s.versions ++ [V]
    held := Function.update s.held tid (some s.versions.length) }

/-- A call that was applied to a version. -/
def record_stamp (s : HeapRelation) (w : Stamp) : HeapRelation :=
  { s with stamps := s.stamps ++ [w] }

/-- A scan under the snapshot at the given command. -/
def scan (s : HeapRelation) (S : Snapshot) (curcid : ℕ) :
    Except HeapError (List (Tid × List (Option Datum))) :=
  HeapAM.scan rel.columns s.pages s.relation_pages { S with curcid } s.txn.mgr.clog

/-- One vacuum pass at the current horizon. -/
def vacuum (s : HeapRelation) (lsn : PageId → Lsn) (free_page : PageId → Except HeapError Unit) :
    Option HeapRelation :=
  match HeapAM.scan_dead_tuples s.pages s.relation_pages s.txn.mgr.oldest_snapshot_xmin
    s.txn.mgr.clog with
  | .error _ => some s
  | .ok dead =>
    match HeapAM.reclaim rel.columns rel.rel_oid rel.first_page lsn free_page s.pages
      s.relation_pages dead with
    | none => none
    | some r =>
      some { s with
        pages := r.pages
        relation_pages := r.relation_pages
        held := fun tid =>
          if (relation_rows rel.columns r.relation_pages r.pages tid).isSome then s.held tid
          else none }

/-- What an insert leaves. -/
def after_insert (s : HeapRelation) (xid : TxnId) (curcid : ℕ) (values : List (Option Datum))
    (o : Outcome) : HeapRelation :=
  let s := { s with pages := o.pages }
  match o.result with
  | .ok (some tid) => s.record_version ⟨xid, curcid, values, none⟩ tid
  | .ok none => s
  | .error _ => s

/-- What a delete or a row lock leaves. -/
def after_stamp (s : HeapRelation) (w : Stamp) (o : Outcome) : HeapRelation :=
  let s := { s with pages := o.pages }
  match o.result with
  | .ok _ => s.record_stamp w
  | .error _ => s

/-- What an update leaves. Its record says whether it was a HOT one. -/
def after_update (s : HeapRelation) (xid : TxnId) (curcid : ℕ) (v : ℕ)
    (values : List (Option Datum)) (o : Outcome) : HeapRelation :=
  let s := { s with pages := o.pages }
  match o.result, o.record with
  | .ok (some tid), some record =>
    (s.record_stamp ⟨xid, curcid, v, false⟩).record_version
      ⟨xid, curcid, values, if record.is_hot then some v else none⟩ tid
  | _, _ => s

/-- One call. -/
def step (s : HeapRelation) : RelOp → Option HeapRelation
  | .txn op => (TxnSys.step s.txn op).map fun txn => { s with txn }
  | .extend_chain init_lsn link_lsn page_id =>
    if page_id ∈ s.relation_pages ∨ 256 ^ 8 ≤ page_id then none
    else
      match HeapAM.extend_chain s.pages init_lsn link_lsn s.relation_pages page_id with
      | .error _ => none
      | .ok (pages, relation_pages) => some { s with pages, relation_pages }
  | .scan i curcid =>
    match s.txn.live[i]? with
    | none => none
    | some S =>
      match s.scan rel S curcid with
      | .error _ => some s
      | .ok rows =>
        some { s with returned := s.returned ++
          rows.filterMap fun r => (s.held r.1).map fun v => (S.current_xid, v) }
  | .insert i curcid lsn tuple =>
    match s.writer i curcid, fresh_tuple rel.columns curcid tuple with
    | some xid, some values =>
      (HeapAM.insert s.pages lsn s.relation_pages xid tuple).map
        (s.after_insert xid curcid values)
    | _, _ => none
  | .delete i curcid lsn tid entry =>
    match s.writer i curcid with
    | none => none
    | some xid =>
      match s.target xid tid with
      | none => none
      | some v =>
        (HeapAM.delete s.pages lsn tid xid curcid
          (HeapAM.writer_gate s.txn.mgr tid xid entry)).map
          (s.after_stamp ⟨xid, curcid, v, false⟩)
  | .update i curcid lsn tid tuple hot_eligible entry =>
    match s.writer i curcid, fresh_tuple rel.columns curcid tuple with
    | some xid, some values =>
      match s.target xid tid with
      | none => none
      | some v =>
        (HeapAM.update s.pages lsn s.relation_pages tid xid curcid tuple hot_eligible
          (HeapAM.writer_gate s.txn.mgr tid xid entry)).map (s.after_update xid curcid v values)
    | _, _ => none
  | .lock i curcid tid shared entry =>
    match s.writer i curcid with
    | none => none
    | some xid =>
      match s.target xid tid with
      | none => none
      | some v =>
        some (s.after_stamp ⟨xid, curcid, v, true⟩
          (if shared then HeapAM.lock_tuple_shared s.txn.mgr s.pages tid xid curcid entry
           else HeapAM.lock_tuple s.txn.mgr s.pages tid xid curcid entry))
  | .vacuum lsn free_page => s.vacuum rel lsn free_page

/-- `create_heap`: a relation of one empty page, under a manager with nothing running. -/
def new (clock : TxnId) (clog : Clog) (pages : PageId → Page) (lsn : Lsn) : HeapRelation where
  versions := []
  stamps := []
  txn := TxnSys.new clock clog
  pages := Function.update pages rel.first_page
    (stamp_pd_lsn (init_with_special (pages rel.first_page) HEAP_SPECIAL_SIZE) lsn)
  relation_pages := [rel.first_page]
  held := fun _ => none
  returned := []

end HeapRelation

/-! ## What the gate lets through -/

/-- A stamp that the gate let proceed overwrites nothing that counts. -/
theorem gate_overwritable {s : Store} (hs : StoreInv s) {tid : Tid} {h : TupleHeader} {v : ℕ}
    {V : Version} (hat : s.At tid h v V) {request : LockRequest} {entry : Option HolderSet}
    {w : Stamp} (hw : request = .Writer → w.lock = false)
    (hproceed : HeapAM.gate_verdict s.txn.mgr request tid w.xid entry h = .ok .Proceed) :
    Overwritable s.clog h w := by
  have hok := hs.ok _ _ _ _ hat
  have hspec : GateSpec s.txn.mgr tid h w.xid request entry s.txn.mgr
      ((row_lock_gate true tid h w.xid request entry).eval s.txn.mgr.answer) :=
    (row_lock_gate_spec hok.share).eval TxnManager.Later.refl
  unfold Overwritable
  by_cases hinv : h.t_xmax = TxnId.INVALID
  · exact .inl hinv
  by_cases hlock : h.lock_only = true
  · exact .inr (.inl hlock)
  have hreal := Bool.eq_false_iff.mpr hlock
  by_cases hself : h.t_xmax = w.xid
  · exact .inr (.inr (.inl ⟨hself, hw (hspec.own_write hproceed hinv hself hreal)⟩))
  · -- another's write: it is over and did not commit
    have hshare : h.is_share = false := Bool.eq_false_iff.mpr fun hsh => hlock (hok.share hsh)
    obtain ⟨hnrun, hncom⟩ := hspec.superseded hproceed hinv hself hok.xmax_lt hshare
    have hterm : (s.clog h.t_xmax).Terminal := by
      rcases hs.txn.settled h.t_xmax hinv hok.xmax_lt with hact | hterm
      · by_contra hnt
        exact hnrun ⟨hact, hnt⟩
      · exact hterm
    have hne := hncom hreal
    right; right; right
    show s.txn.mgr.clog h.t_xmax = .Aborted
    change (s.txn.mgr.clog h.t_xmax).Terminal at hterm
    cases hst : s.txn.mgr.clog h.t_xmax with
    | Aborted => rfl
    | Committed => exact absurd hst hne
    | InProgress => rw [hst] at hterm; exact absurd hterm id
    | SubCommitted => rw [hst] at hterm; exact absurd hterm id

theorem writer_gate_eq_ok {mgr : TxnManager} {tid : Tid} {xid : TxnId} {entry : Option HolderSet}
    {h : TupleHeader} (hg : HeapAM.writer_gate mgr tid xid entry h = .ok ()) :
    HeapAM.gate_verdict mgr .Writer tid xid entry h = .ok .Proceed := by
  unfold HeapAM.writer_gate at hg
  split at hg
  · simp at hg
  · assumption
  · simp at hg
  · simp at hg

/-! ## Stamps as the store sees them -/

section Stamps

variable (h : TupleHeader) (x : TxnId) (c v : ℕ)

theorem restamped_deleted (updated : Bool) :
    Restamped h (h.stamp_deleted x c updated) ⟨x, c, v, false⟩ where
  xmin := rfl
  ctid := rfl
  heap_only := rfl
  hot_updated := rfl
  xmax := rfl
  cid := rfl
  lock_only := h.stamp_deleted_lock_only x c updated
  share hsh := by
    rw [h.stamp_deleted_is_share] at hsh
    exact absurd hsh (by decide)

theorem restamped_lock_only (shared : Bool) :
    Restamped h (h.stamp_lock_only x c shared) ⟨x, c, v, true⟩ where
  xmin := rfl
  ctid := rfl
  heap_only := rfl
  hot_updated := rfl
  xmax := rfl
  cid := rfl
  lock_only := h.stamp_lock_only_lock_only x c shared
  share _ := h.stamp_lock_only_lock_only x c shared

theorem relinked_hot_update (tid : Tid) :
    Relinked (h.stamp_deleted x c true) (h.stamp_hot_update x c tid) tid where
  xmin := rfl
  xmax := rfl
  cid := rfl
  heap_only := h.stamp_hot_update_heap_only x c tid
  lock_only := by rw [h.stamp_hot_update_lock_only, h.stamp_deleted_lock_only]
  is_share := by rw [h.stamp_hot_update_is_share, h.stamp_deleted_is_share]
  hot_updated := h.stamp_hot_update_hot_updated x c tid
  ctid := rfl

end Stamps

/-- What `fresh_tuple` checks, for the two ways a new tuple is stored. -/
theorem fresh_tuple_eq_some {columns : List ColumnType} {c : ℕ} {tuple : List UInt8}
    {values : List (Option Datum)} (hf : HeapRelation.fresh_tuple columns c tuple = some values) :
    ∃ h, decode_tuple tuple columns = .ok (h, values) ∧ ∀ x,
      FreshHeader (h.stamp_xmin x) ⟨x, c, values, none⟩ ∧
      ∀ v, FreshHeader (h.stamp_hot_only x) ⟨x, c, values, some v⟩ := by
  unfold HeapRelation.fresh_tuple at hf
  split at hf
  · simp at hf
  next h vals hdec =>
  split_ifs at hf with hc
  obtain ⟨hxm, hcid, hho, hhu, hlo, hsh⟩ := hc
  rw [← Option.some.inj hf]
  refine ⟨h, hdec, fun x => ⟨⟨rfl, hxm, hcid, hho, hhu, hlo, hsh⟩, fun v => ?_⟩⟩
  exact ⟨rfl, hxm, hcid, h.stamp_hot_only_heap_only x,
    (h.stamp_hot_only_hot_updated x).trans hhu, hlo, hsh⟩

/-! ## The invariant -/

/-- What holds of the relation after any calls. -/
structure RelInv (rel : RelationDesc) (s : HeapRelation) : Prop where
  store : StoreInv (s.store rel)
  sound : ∀ i ∈ s.relation_pages, Sound rel.columns (s.pages i)
  nodup : s.relation_pages.Nodup
  page_lt : ∀ i ∈ s.relation_pages, i < 256 ^ 8
  /-- A scan returns versions of its own transaction and of committed ones. -/
  returned : ∀ x v, (x, v) ∈ s.returned → ∃ V, s.versions[v]? = some V ∧
    (V.creator = x ∨ s.txn.mgr.clog V.creator = .Committed ∧ V.creator ∉ s.txn.mgr.active)

section Steps

variable {rel : RelationDesc} {s t : HeapRelation}

variable {relation_pages : List PageId} {pages : PageId → Page} {tid : Tid}

variable {pages' : PageId → Page}

theorem relation_rows_update {columns : List ColumnType} {r : Option Row}
    (hmem : tid.page_id ∈ relation_pages)
    (h : view columns pages' = Function.update (view columns pages) tid r) :
    relation_rows columns relation_pages pages' =
      Function.update (relation_rows columns relation_pages pages) tid r := by
  funext a
  by_cases ha : a = tid
  · subst ha
    rw [relation_rows, if_pos hmem, h, Function.update_self, Function.update_self]
  · rw [Function.update_of_ne ha, relation_rows, relation_rows, h, Function.update_of_ne ha]

theorem relation_rows_update_two {columns : List ColumnType} {a b : Tid} {r r' : Option Row}
    (ha : a.page_id ∈ relation_pages) (hb : b.page_id ∈ relation_pages)
    (h : view columns pages' = Function.update (Function.update (view columns pages) a r) b r') :
    relation_rows columns relation_pages pages' =
      Function.update (Function.update (relation_rows columns relation_pages pages) a r) b r' := by
  funext c
  by_cases hcb : c = b
  · subst hcb
    rw [relation_rows, if_pos hb, h, Function.update_self, Function.update_self]
  by_cases hca : c = a
  · subst hca
    rw [Function.update_of_ne hcb, Function.update_self, relation_rows, if_pos ha, h,
      Function.update_of_ne hcb, Function.update_self]
  · rw [Function.update_of_ne hcb, Function.update_of_ne hca, relation_rows, relation_rows, h,
      Function.update_of_ne hcb, Function.update_of_ne hca]

variable {c i v : ℕ} {x : TxnId}

/-- What it takes to write. -/
theorem writer_eq_some (h : s.writer i c = some x) :
    TxnSys.Unfinished s.txn.mgr x ∧ x < 256 ^ 8 ∧ c < 256 ^ 4 := by
  unfold HeapRelation.writer at h
  split at h
  · simp at h
  split_ifs at h with hc
  rw [← Option.some.inj h]
  exact hc

/-- What it takes to write to a row. -/
theorem RelInv.target (hI : RelInv rel s) (h : s.target x tid = some v) :
    tid.page_id ∈ s.relation_pages ∧ ∃ hd V, (s.store rel).At tid hd v V ∧
      view rel.columns s.pages tid = some (hd, V.values) ∧
      (V.creator = x ∨ s.txn.mgr.clog V.creator = .Committed ∧ V.creator ∉ s.txn.mgr.active) := by
  unfold HeapRelation.target at h
  split at h
  · simp at h
  next u hu =>
  split_ifs at h with hret
  obtain rfl := Option.some.inj h
  obtain ⟨hd, V, hat⟩ := hI.store.held_at tid u hu
  have hrow : relation_rows rel.columns s.relation_pages s.pages tid = some (hd, V.values) := hat.row
  unfold relation_rows at hrow
  split_ifs at hrow with hmem
  obtain ⟨W, hW, hover⟩ := hI.returned x u hret
  obtain rfl : V = W := Option.mem_unique hat.version hW
  exact ⟨hmem, hd, V, hat, hrow, hover⟩

/-- A call that keeps the page list, the transactions and the returned versions. -/
theorem RelInv.of_store (hI : RelInv rel s) (hstore : StoreInv (t.store rel))
    (hpages : t.relation_pages = s.relation_pages)
    (hsound : ∀ i ∈ s.relation_pages, Sound rel.columns (t.pages i)) (htxn : t.txn = s.txn)
    (hret : t.returned = s.returned) (hg : (s.store rel).Grows (t.store rel)) : RelInv rel t := by
  refine ⟨hstore, by rw [hpages]; exact hsound, by rw [hpages]; exact hI.nodup,
    by rw [hpages]; exact hI.page_lt, fun x v hxv => ?_⟩
  rw [hret] at hxv
  obtain ⟨V, hV, hover⟩ := hI.returned x v hxv
  exact ⟨V, hg.versions v V hV, by rw [htxn]; exact hover⟩

theorem RelInv.txn (hI : RelInv rel s) {op : TxnOp} {txn' : TxnSys}
    (h : TxnSys.step s.txn op = some txn') : RelInv rel { s with txn := txn' } := by
  have hl : s.txn.mgr.Later txn'.mgr := hI.store.txn.later h
  refine ⟨hI.store.txn_step h, hI.sound, hI.nodup, hI.page_lt, fun x v hxv => ?_⟩
  obtain ⟨V, hV, hover⟩ := hI.returned x v hxv
  have hlt := (hI.store.history.creator_of hV).2
  refine ⟨V, hV, hover.imp_right fun ⟨hc, ha⟩ => ⟨?_, (hl.gone _ hlt ha).2⟩⟩
  rw [hl.terminal _ (by rw [hc]; trivial), hc]

variable {lsn : Lsn} {o : Outcome}

/-- An insert: the store gets a row. -/
theorem RelInv.insert (hI : RelInv rel s) (hw : s.writer i c = some x) {tuple : List UInt8}
    {values : List (Option Datum)}
    (hf : HeapRelation.fresh_tuple rel.columns c tuple = some values)
    (ho : HeapAM.insert s.pages lsn s.relation_pages x tuple = some o) :
    RelInv rel (s.after_insert x c values o) := by
  obtain ⟨hx, hxr, -⟩ := writer_eq_some hw
  obtain ⟨h, hdec, hfresh⟩ := fresh_tuple_eq_some hf
  rcases insert_view hI.sound hdec hxr ho with ⟨e, rfl⟩ |
    ⟨pages, record, tid, rfl, hmem, hnone, hsound, hview⟩
  · exact hI
  · have hrows := relation_rows_update hmem hview
    have hfree : (s.store rel).rows tid = none := (if_pos hmem).trans hnone
    have hstore : (s.after_insert x c values ⟨pages, some record, .ok (some tid)⟩).store rel =
        (s.store rel).place tid (h.stamp_xmin x) ⟨x, c, values, none⟩ := by
      unfold HeapRelation.store Store.place
      exact Store.mk.injEq .. ▸ ⟨rfl, rfl, hrows, rfl⟩
    refine hI.of_store ?_ rfl hsound rfl rfl ?_
    · rw [hstore]
      exact hI.store.place hfree (hfresh x).1 rfl hx
    · rw [hstore]
      exact Store.grows_place

/-- A stamp on the target of a call, as both a delete and a lock make it. -/
theorem RelInv.stamped (hI : RelInv rel s) {lock : Bool} (hx : TxnSys.Unfinished s.txn.mgr x)
    (hmem : tid.page_id ∈ s.relation_pages) {hd h' : TupleHeader} {V : Version}
    (hat : (s.store rel).At tid hd v V)
    (hover : V.creator = x ∨ s.txn.mgr.clog V.creator = .Committed ∧ V.creator ∉ s.txn.mgr.active)
    (hst : Restamped hd h' ⟨x, c, v, lock⟩) (hov : Overwritable s.txn.mgr.clog hd ⟨x, c, v, lock⟩)
    (hsound : ∀ i ∈ s.relation_pages, Sound rel.columns (pages i))
    (hview : view rel.columns pages =
      Function.update (view rel.columns s.pages) tid (some (h', V.values))) :
    RelInv rel (HeapRelation.record_stamp { s with pages } ⟨x, c, v, lock⟩) := by
  have hrows := relation_rows_update hmem hview
  have hstore : (HeapRelation.record_stamp { s with pages } ⟨x, c, v, lock⟩).store rel =
      (s.store rel).stamp tid h' V.values ⟨x, c, v, lock⟩ := by
    unfold HeapRelation.store Store.stamp
    exact Store.mk.injEq .. ▸ ⟨rfl, rfl, hrows, rfl⟩
  refine hI.of_store ?_ rfl hsound rfl rfl ?_
  · rw [hstore]
    exact hI.store.stamp hat rfl hst hov hx hover
  · rw [hstore]
    exact Store.grows_stamp

variable {entry : Option HolderSet}

theorem RelInv.delete (hI : RelInv rel s) (hw : s.writer i c = some x)
    (ht : s.target x tid = some v)
    (ho : HeapAM.delete s.pages lsn tid x c (HeapAM.writer_gate s.txn.mgr tid x entry)
    = some o) :
    RelInv rel (s.after_stamp ⟨x, c, v, false⟩ o) := by
  obtain ⟨hx, hxr, hcr⟩ := writer_eq_some hw
  obtain ⟨hmem, hd, V, hat, hrow, hover⟩ := hI.target ht
  rcases delete_view hI.sound hmem hxr hcr ho with ⟨e, rfl⟩ |
    ⟨pages, record, old, old_values, rfl, hold, hgate, hsound, hview⟩
  · exact hI
  · rw [hrow, Option.some.injEq, Prod.mk.injEq] at hold
    obtain ⟨rfl, rfl⟩ := hold
    exact hI.stamped hx hmem hat hover (restamped_deleted hd x c v false)
      (gate_overwritable hI.store hat (fun _ => rfl) (writer_gate_eq_ok hgate)) hsound hview

/-- A row lock: the header gets a lock stamp, or nothing changes. -/
theorem RelInv.lock_row (hI : RelInv rel s) (hw : s.writer i c = some x)
    (ht : s.target x tid = some v) {request : LockRequest} (hreq : request ≠ .Writer)
    (shared : Bool) :
    RelInv rel (s.after_stamp ⟨x, c, v, true⟩ (HeapAM.lock_row shared s.pages tid x c
      (HeapAM.gate_verdict s.txn.mgr request tid x entry))) := by
  obtain ⟨hx, hxr, hcr⟩ := writer_eq_some hw
  obtain ⟨hmem, hd, V, hat, hrow, hover⟩ := hI.target ht
  unfold HeapAM.lock_row
  split
  · exact hI
  next header hread =>
  obtain ⟨-, values, hrow'⟩ := (hI.sound _ hmem).read_header hread
  obtain ⟨rfl, -⟩ : hd = header ∧ V.values = values :=
    Prod.mk.inj (Option.mem_unique hrow hrow')
  split
  · exact hI
  · next hproceed =>
    split
    · exact hI
    next page hpage =>
    obtain ⟨hsound, hview⟩ := stamp_view hI.sound hmem hrow (.stamp_lock_only shared)
      (fun hr => hr.stamp_lock_only hxr hcr shared) hpage
    exact hI.stamped hx hmem hat hover (restamped_lock_only hd x c v shared)
      (gate_overwritable hI.store hat (fun h => absurd h hreq) hproceed) hsound hview
  · -- a share granted without a stamp
    exact hI.of_store (hI.store.apply_lock hat.version rfl hx hover) rfl hI.sound rfl rfl
      ⟨le_refl _, fun _ _ => rfl, fun _ _ hi => hi, fun _ hw => List.mem_append_left _ hw⟩
  · exact hI

/-- An update: the old row gets a stamp, and a new row is placed or linked to it. -/
theorem RelInv.update (hI : RelInv rel s) (hw : s.writer i c = some x)
    (ht : s.target x tid = some v) {tuple : List UInt8} {values : List (Option Datum)}
    (hf : HeapRelation.fresh_tuple rel.columns c tuple = some values) {hot_eligible : Bool}
    (ho : HeapAM.update s.pages lsn s.relation_pages tid x c tuple hot_eligible
      (HeapAM.writer_gate s.txn.mgr tid x entry) = some o) :
    RelInv rel (s.after_update x c v values o) := by
  obtain ⟨hx, hxr, hcr⟩ := writer_eq_some hw
  obtain ⟨hmem, hd, V, hat, hrow, hover⟩ := hI.target ht
  obtain ⟨h, hdec, hfresh⟩ := fresh_tuple_eq_some hf
  rcases update_view hI.sound hmem (hI.page_lt _ hmem) hdec hxr hcr ho with ⟨e, rfl⟩ |
    ⟨pages, record, new_tid, old, old_values, rfl, hold, hgate, hmem', hnone, hsound, hpath⟩
  · exact hI
  rw [hrow, Option.some.injEq, Prod.mk.injEq] at hold
  obtain ⟨rfl, rfl⟩ := hold
  have hov : Overwritable s.txn.mgr.clog hd ⟨x, c, v, false⟩ :=
    gate_overwritable hI.store hat (fun _ => rfl) (writer_gate_eq_ok hgate)
  -- the store between the two halves of the update
  have hst := restamped_deleted hd x c v true
  have hmid : StoreInv ((s.store rel).stamp tid (hd.stamp_deleted x c true) V.values
      ⟨x, c, v, false⟩) := hI.store.stamp hat rfl hst hov hx hover
  have hfree0 : (s.store rel).rows new_tid = none := (if_pos hmem').trans hnone
  have hne : new_tid ≠ tid := by
    rintro rfl
    rw [hat.row] at hfree0
    simp at hfree0
  have hfree : ((s.store rel).stamp tid (hd.stamp_deleted x c true) V.values
      ⟨x, c, v, false⟩).rows new_tid = none := by
    rw [Store.stamp_rows, Function.update_of_ne hne]
    exact hfree0
  rcases hpath with ⟨hhot, hpage, hview⟩ | ⟨hhot, hview⟩
  · have hrows := relation_rows_update_two hmem hmem' hview
    have hstore : (s.after_update x c v values ⟨pages, some record, .ok (some new_tid)⟩).store rel =
        ((s.store rel).stamp tid (hd.stamp_deleted x c true) V.values ⟨x, c, v, false⟩).link tid
          (hd.stamp_hot_update x c new_tid) V.values new_tid (h.stamp_hot_only x)
          ⟨x, c, values, some v⟩ := by
      simp only [HeapRelation.after_update, hhot, if_true]
      unfold HeapRelation.store Store.link
      refine Store.mk.injEq .. ▸ ⟨rfl, rfl, ?_, rfl⟩
      rw [Store.stamp_rows, Function.update_idem]
      exact hrows
    refine hI.of_store ?_ rfl hsound rfl rfl ?_
    · rw [hstore]
      exact hmid.link (hat.stamp_self) hfree hpage (relinked_hot_update hd x c new_tid)
        ((hfresh x).2 v) rfl rfl (hd.stamp_deleted_lock_only x c true) hx
    · rw [hstore]
      exact Store.grows_stamp.trans Store.grows_link
  · have hrows := relation_rows_update_two hmem hmem' hview
    have hstore : (s.after_update x c v values ⟨pages, some record, .ok (some new_tid)⟩).store rel =
        ((s.store rel).stamp tid (hd.stamp_deleted x c true) V.values ⟨x, c, v, false⟩).place
          new_tid (h.stamp_xmin x) ⟨x, c, values, none⟩ := by
      simp only [HeapRelation.after_update, hhot]
      unfold HeapRelation.store Store.place
      exact Store.mk.injEq .. ▸ ⟨rfl, rfl, hrows, rfl⟩
    refine hI.of_store ?_ rfl hsound rfl rfl ?_
    · rw [hstore]
      exact hmid.place hfree (hfresh x).1 rfl hx
    · rw [hstore]
      exact Store.grows_stamp.trans Store.grows_place

/-- A page that was just initialised. -/
theorem sound_fresh (columns : List ColumnType) (page : Page) (lsn : Lsn) :
    Sound columns (stamp_pd_lsn (init_with_special page HEAP_SPECIAL_SIZE) lsn) ∧
      row_at columns (stamp_pd_lsn (init_with_special page HEAP_SPECIAL_SIZE) lsn) = fun _ => none := by
  have hwf := init_with_special_heapWf page
  have hempty : content (init_with_special page HEAP_SPECIAL_SIZE) = fun _ => none := by
    funext slot
    exact content_init_with_special page slot
  have hsound : Sound columns (init_with_special page HEAP_SPECIAL_SIZE) :=
    ⟨.inr hwf, fun slot bytes hb => by rw [hempty] at hb; exact absurd hb (by simp)⟩
  obtain ⟨hs, hr⟩ := hsound.stamp_pd_lsn hwf lsn
  refine ⟨hs, ?_⟩
  rw [hr]
  funext slot
  rw [row_at, hempty]
  rfl

/-- A new page at the end of the chain brings no rows. -/
theorem extend_chain_view {columns : List ColumnType} {relation_pages' : List PageId}
    {init_lsn link_lsn : Lsn} {page_id : PageId}
    (hs : ∀ i ∈ relation_pages, Sound columns (pages i)) (hnew : page_id ∉ relation_pages)
    (h : HeapAM.extend_chain pages init_lsn link_lsn relation_pages page_id
      = .ok (pages', relation_pages')) :
    relation_pages' = relation_pages ++ [page_id] ∧
      (∀ i ∈ relation_pages', Sound columns (pages' i)) ∧
      relation_rows columns relation_pages' pages' = relation_rows columns relation_pages pages := by
  unfold HeapAM.extend_chain at h
  split at h
  · simp at h
  next tail htail =>
  simp only at h
  split at h
  · simp at h
  next page hpage =>
  obtain ⟨hp, hr⟩ := Prod.mk.inj (Except.ok.inj h)
  have hmem : tail ∈ relation_pages := List.mem_of_getLast? htail
  have hne : tail ≠ page_id := fun heq => hnew (heq ▸ hmem)
  rw [Function.update_of_ne hne] at hpage
  have hsi := (hs tail hmem).init
  obtain ⟨hsp, hwp, hrp⟩ := hsi.set_next_page hpage
  obtain ⟨hst, hrt⟩ := hsp.stamp_pd_lsn hwp link_lsn
  obtain ⟨hsf, hrf⟩ := sound_fresh columns (pages page_id) init_lsn
  have htail' : pages' tail = stamp_pd_lsn page link_lsn := by rw [← hp, Function.update_self]
  have hnew' : pages' page_id =
      stamp_pd_lsn (init_with_special (pages page_id) HEAP_SPECIAL_SIZE) init_lsn := by
    rw [← hp, Function.update_of_ne hne.symm, Function.update_self]
  have hother : ∀ i, i ≠ tail → i ≠ page_id → pages' i = pages i := by
    intro i h1 h2
    rw [← hp, Function.update_of_ne h1, Function.update_of_ne h2]
  have htail_row : row_at columns (pages' tail) = row_at columns (pages tail) := by
    rw [htail', hrt, hrp, row_at_congr (hs tail hmem).ok.content_init]
  refine ⟨hr.symm, fun i hi => ?_, ?_⟩
  · by_cases h1 : i = tail
    · rw [h1, htail']
      exact hst
    by_cases h2 : i = page_id
    · rw [h2, hnew']
      exact hsf
    · rw [hother i h1 h2]
      rw [← hr] at hi
      exact hs i ((List.mem_append.mp hi).resolve_right (by simpa using h2))
  · funext tid
    unfold relation_rows view
    rw [← hr]
    by_cases h2 : tid.page_id = page_id
    · rw [if_pos (by simp [h2]), if_neg (by rw [h2]; exact hnew), h2, hnew', hrf]
    · have hiff : tid.page_id ∈ relation_pages ++ [page_id] ↔ tid.page_id ∈ relation_pages := by
        simp [h2]
      rw [if_congr hiff rfl rfl]
      by_cases h1 : tid.page_id = tail
      · rw [h1, htail_row]
      · rw [hother _ h1 h2]

theorem RelInv.extend_chain (hI : RelInv rel s) {page_id : PageId} (hlt : page_id < 256 ^ 8)
    (hnew : page_id ∉ s.relation_pages) {init_lsn link_lsn : Lsn}
 (h : HeapAM.extend_chain s.pages init_lsn link_lsn s.relation_pages page_id
      = .ok (pages, relation_pages)) :
    RelInv rel { s with pages, relation_pages } := by
  obtain ⟨hpages, hsound, hrows⟩ := extend_chain_view hI.sound hnew h
  have hstore : HeapRelation.store rel { s with pages, relation_pages } = s.store rel := by
    unfold HeapRelation.store
    exact Store.mk.injEq .. ▸ ⟨rfl, rfl, hrows, rfl⟩
  refine ⟨by rw [hstore]; exact hI.store, hsound, ?_, ?_, hI.returned⟩
  · show relation_pages.Nodup
    rw [hpages]
    exact hI.nodup.append (List.nodup_singleton _) (by simpa using hnew)
  · show ∀ i ∈ relation_pages, i < 256 ^ 8
    rw [hpages]
    intro i hi
    rcases List.mem_append.mp hi with hi | hi
    · exact hI.page_lt i hi
    · rw [List.mem_singleton.mp hi]
      exact hlt

/-- The pages of the relation under their rows. -/
theorem RelInv.pageRows (hI : RelInv rel s) : ∀ i ∈ s.relation_pages,
    PageRows rel.columns (s.store rel).rows i (s.pages i) :=
  fun i hi => pageRows_relation (hI.sound i hi) hi

theorem RelInv.rows_out (tid : Tid) (h : tid.page_id ∉ s.relation_pages) :
    (s.store rel).rows tid = none := if_neg h

/-- What a scan returns: versions of its own transaction and of committed ones. -/
theorem RelInv.scan (hI : RelInv rel s) {S : Snapshot} (hS : s.txn.live[i]? = some S)
    {rows : List (Tid × List (Option Datum))} (hrows : s.scan rel S c = .ok rows) :
    RelInv rel { s with
      returned := s.returned ++
        rows.filterMap (fun r => (s.held r.1).map fun v => (S.current_xid, v)) } := by
  refine ⟨hI.store, hI.sound, hI.nodup, hI.page_lt, fun x v hxv => ?_⟩
  rcases List.mem_append.mp hxv with hxv | hxv
  · exact hI.returned x v hxv
  obtain ⟨⟨tid, values⟩, hr, hv⟩ := List.mem_filterMap.mp hxv
  obtain ⟨u, hu, heq⟩ := Option.map_eq_some_iff.mp hv
  obtain ⟨rfl, rfl⟩ := Prod.mk.inj heq
  obtain ⟨out, hout, -, hmem⟩ := scan_spec hI.pageRows RelInv.rows_out hI.nodup
    hI.store.wellLinked { S with curcid := c } s.txn.mgr.clog
  obtain rfl : rows = out := Except.ok.inj (hrows.symm.trans hout)
  obtain ⟨⟨root, hf⟩, -⟩ := (hmem tid values).mp hr
  obtain ⟨h, V, hat⟩ := hI.store.held_at tid u hu
  refine ⟨V, hat.version, ?_⟩
  -- a visible row's creator is the reader, or committed before the snapshot
  have hvis := hf.visible
  rw [visible_at_of_row hat.row, visible, is_visible_iff, (hI.store.ok _ _ _ _ hat).xmin] at hvis
  rcases hvis.1 with ⟨hself, -⟩ | ⟨-, hlt, hxip, hcom⟩
  · exact Or.inl hself
  · exact Or.inr ⟨hcom,
      (hI.store.txn.live_before S (List.mem_of_getElem? hS) _ ⟨hlt, hxip⟩).2⟩

/-- A vacuum pass: whole dead chains are taken away. -/
theorem RelInv.vacuum (hI : RelInv rel s) {lsn : PageId → Lsn}
    {free_page : PageId → Except HeapError Unit} (h : s.vacuum rel lsn free_page = some t) :
    RelInv rel t := by
  obtain ⟨dead, hdead, hmem⟩ := scan_dead_tuples_spec hI.pageRows RelInv.rows_out
    s.txn.mgr.oldest_snapshot_xmin s.txn.mgr.clog
  unfold HeapRelation.vacuum at h
  rw [hdead] at h
  simp only at h
  split at h
  · simp at h
  next r hr =>
  obtain ⟨kills, done, hkill, heff⟩ := reclaim_spec hI.sound hI.store.wellLinked (fun tid htid => by
    obtain ⟨hd, values, hrow, -⟩ := (hmem tid).mp htid
    exact mem_relation_pages RelInv.rows_out hrow) hr
  cases h
  have hstore : (HeapRelation.store rel { s with
        pages := r.pages, relation_pages := r.relation_pages,
        held := fun tid =>
          if (relation_rows rel.columns r.relation_pages r.pages tid).isSome then s.held tid
          else none }) =
      (s.store rel).remove (relation_rows rel.columns r.relation_pages r.pages) := rfl
  -- a row is gone exactly when its slot was on a list that was carried out
  have hrows := heff.rows_eq
  have hgone : ∀ tid hd values, (s.store rel).rows tid = some (hd, values) →
      (relation_rows rel.columns r.relation_pages r.pages tid = none ↔
        ∃ e ∈ done, tid.page_id = e.1 ∧ tid.slot_id ∈ e.2) := by
    intro tid hd values hrow
    rw [hrows, dropped]
    split_ifs with hd'
    · simp [hd']
    · constructor
      · intro hn
        change relation_rows rel.columns s.relation_pages s.pages tid = some (hd, values) at hrow
        rw [hrow] at hn
        simp at hn
      · exact fun h' => absurd h' hd'
  refine ⟨?_, heff.sound, hI.nodup.sublist heff.sublist,
    fun i hi => hI.page_lt i (heff.sublist.subset hi), hI.returned⟩
  rw [hstore]
  refine hI.store.remove (le_refl _) (fun tid => ?_) (fun tid hd values hrow hnone => ?_)
    fun a b hab => ?_
  · rw [hrows, dropped]
    split_ifs
    · exact .inl rfl
    · exact .inr rfl
  · obtain ⟨e, he, hpage, hslot⟩ := (hgone tid hd values hrow).mp hnone
    have htid : (⟨e.1, tid.slot_id⟩ : Tid) = tid := by rw [← hpage]
    have hin := (hkill e he).dead tid.slot_id hslot
    rw [htid] at hin
    obtain ⟨hd', values', hrow', hdead'⟩ := (hmem tid).mp hin
    obtain ⟨rfl, -⟩ := Prod.mk.inj (Option.mem_unique hrow hrow')
    exact hdead'
  · obtain ⟨ha, va, hrowa, -⟩ := hot_link_eq_some.mp hab
    obtain ⟨⟨hb, vb⟩, hrowb⟩ := hI.store.wellLinked.stored a b hab
    have hpage := hI.store.wellLinked.same_page a b hab
    rw [hgone a ha va hrowa, hgone b hb vb hrowb]
    constructor
    · rintro ⟨e, he, hp, hslot⟩
      exact ⟨e, he, hpage.trans hp, ((hkill e he).closed a b hab hp).mp hslot⟩
    · rintro ⟨e, he, hp, hslot⟩
      have hp' : a.page_id = e.1 := hpage.symm.trans hp
      exact ⟨e, he, hp', ((hkill e he).closed a b hab hp').mpr hslot⟩

/-- **Every call keeps the invariant.** -/
theorem RelInv.step (hI : RelInv rel s) {op : RelOp} (h : HeapRelation.step rel s op = some t) :
    RelInv rel t := by
  cases op with
  | txn op =>
    obtain ⟨txn', htxn, rfl⟩ := Option.map_eq_some_iff.mp h
    exact hI.txn htxn
  | extend_chain init_lsn link_lsn page_id =>
    simp only [HeapRelation.step] at h
    split_ifs at h with hc
    split at h
    · simp at h
    · next hext =>
      rw [not_or, not_le] at hc
      rw [← Option.some.inj h]
      exact hI.extend_chain hc.2 hc.1 hext
  | scan i c =>
    simp only [HeapRelation.step] at h
    split at h
    · simp at h
    next S hS =>
    split at h
    · rw [← Option.some.inj h]
      exact hI
    · next hrows =>
      rw [← Option.some.inj h]
      exact hI.scan hS hrows
  | insert i c lsn tuple =>
    simp only [HeapRelation.step] at h
    split at h
    · next hw hf =>
      obtain ⟨o, ho, rfl⟩ := Option.map_eq_some_iff.mp h
      exact hI.insert hw hf ho
    · simp at h
  | delete i c lsn tid entry =>
    simp only [HeapRelation.step] at h
    split at h
    · simp at h
    next x hw =>
    split at h
    · simp at h
    next v ht =>
    obtain ⟨o, ho, rfl⟩ := Option.map_eq_some_iff.mp h
    exact hI.delete hw ht ho
  | update i c lsn tid tuple hot_eligible entry =>
    simp only [HeapRelation.step] at h
    split at h
    · next hw hf =>
      split at h
      · simp at h
      next v ht =>
      obtain ⟨o, ho, rfl⟩ := Option.map_eq_some_iff.mp h
      exact hI.update hw ht hf ho
    · simp at h
  | lock i c tid shared entry =>
    simp only [HeapRelation.step] at h
    split at h
    · simp at h
    next x hw =>
    split at h
    · simp at h
    next v ht =>
    rw [← Option.some.inj h]
    by_cases hsh : shared = true
    · rw [if_pos hsh]
      exact hI.lock_row hw ht (by decide) true
    · rw [if_neg hsh]
      exact hI.lock_row hw ht (by decide) false
  | vacuum lsn free_page => exact hI.vacuum h

theorem RelInv.new {clock : TxnId} {clog : Clog} (hset : (TxnManager.new clock clog).Settled)
    (hinv : ¬ (clog TxnId.INVALID).Terminal) (hfirst : rel.first_page < 256 ^ 8)
    (pages : PageId → Page) (lsn : Lsn) : RelInv rel (HeapRelation.new rel clock clog pages lsn) := by
  obtain ⟨hs, hr⟩ := sound_fresh rel.columns (pages rel.first_page) lsn
  have hempty : ((HeapRelation.new rel clock clog pages lsn).store rel).rows = fun _ => none := by
    funext tid
    show (if tid.page_id ∈ [rel.first_page] then row_at rel.columns (Function.update pages _ _ _) _
      else none) = none
    split_ifs with hmem
    · rw [List.mem_singleton.mp hmem, Function.update_self, hr]
    · rfl
  refine ⟨⟨TxnInv.new hset hinv, ⟨?_, ?_, ?_, ?_, ?_⟩, ?_, ?_, ?_, ?_, ?_, ?_⟩, ?_,
    List.nodup_singleton _, ?_, ?_⟩
  · exact fun V hV => absurd hV List.not_mem_nil
  · exact fun w hw => absurd hw List.not_mem_nil
  · exact fun w hw => absurd hw List.not_mem_nil
  · exact fun S hS => absurd hS List.not_mem_nil
  · intro u V p hV
    simp [HeapRelation.store, HeapRelation.new] at hV
  · intro tid h values hrow
    rw [hempty] at hrow
    simp at hrow
  · intro tid v hv
    exact absurd hv (by simp [HeapRelation.store, HeapRelation.new])
  · intro a b v hv
    exact absurd hv (by simp [HeapRelation.store, HeapRelation.new])
  · intro tid h v V hat
    have hrow := hat.row
    rw [hempty] at hrow
    simp at hrow
  · intro _ tid h v V p hat
    have hrow := hat.row
    rw [hempty] at hrow
    simp at hrow
  · intro v V hV
    simp [HeapRelation.store, HeapRelation.new] at hV
  · intro i hi
    rw [List.mem_singleton.mp hi]
    show Sound rel.columns (Function.update pages _ _ _)
    rw [Function.update_self]
    exact hs
  · intro i hi
    rw [List.mem_singleton.mp hi]
    exact hfirst
  · exact fun x v hxv => absurd hxv List.not_mem_nil

theorem RelInv.run (hI : RelInv rel s) {ops : List RelOp}
    (h : run (HeapRelation.step rel) s ops = some t) : RelInv rel t :=
  run_invariant (RelInv rel) (fun _ _ _ hI h => hI.step h) hI h

end Steps

end Ams
