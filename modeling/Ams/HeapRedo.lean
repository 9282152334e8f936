/-
Crash recovery of the heap: the redo handlers of `pg-am-heap/src/redo.rs` against
the calls whose records they replay.

A handler repeats the writes of a call on the pages that do not carry its LSN yet.
The two sides share the page operations but not much else: redo initialises fresh
pages itself, takes the slot from the record instead of choosing it, and does not
restore `t_cid`. One `Effect` per call says that it works out the same up to
`t_cid`; the crash argument itself is `Ams.Lib.Redo`.
-/
import Ams.HeapAM
import Ams.Lib.Redo
import Ams.Lib.Run

set_option autoImplicit false

namespace Ams

open Ams.Lib SlottedPage
open List (map_append mem_cons mem_map mem_singleton)

/-! ## The handlers -/

/-- The changes of a handler, each to be guarded by the `pd_lsn` of its page. -/
abbrev Redo := List (PageId × PageAction)

/-- `redo.rs::stamp_deleted`. -/
def redo_stamp_deleted (page : Page) (tid : Tid) (xmax : TxnId) (updated : Bool) :
    Except HeapError Page :=
  HeapAM.stamp_header page tid fun header => header.redo_stamp_deleted xmax updated

/-- `redo.rs::stamp_hot_update`. -/
def redo_stamp_hot_update (page : Page) (old_tid new_tid : Tid) (xmax : TxnId) :
    Except HeapError Page :=
  HeapAM.stamp_header page old_tid fun header => header.redo_stamp_hot_update new_tid xmax

def HeapInsertHandler (lsn : Lsn) (page_id : PageId) (slot_id : ℕ) (tuple_bytes : List UInt8) :
    Redo :=
  [(page_id, fun page => do
    let page ← add_tuple_at (init_if_fresh page) slot_id tuple_bytes
    return stamp_pd_lsn page lsn)]

/-- A same-page update is applied under one guard, a cross-page update under one
guard per page. -/
def HeapUpdateHandler (lsn : Lsn) (old_tid new_tid : Tid) (xmax_old : TxnId)
    (new_tuple_bytes : List UInt8) : Redo :=
  if old_tid.page_id = new_tid.page_id then
    [(old_tid.page_id, fun page => do
      let page ← redo_stamp_deleted (init_if_fresh page) old_tid xmax_old true
      let page ← add_tuple_at page new_tid.slot_id new_tuple_bytes
      return stamp_pd_lsn page lsn)]
  else
    [(old_tid.page_id, fun page => do
      let page ← redo_stamp_deleted (init_if_fresh page) old_tid xmax_old true
      return stamp_pd_lsn page lsn),
     (new_tid.page_id, fun page => do
      let page ← add_tuple_at (init_if_fresh page) new_tid.slot_id new_tuple_bytes
      return stamp_pd_lsn page lsn)]

/-- The one handler that does not initialise a fresh page. -/
def HeapDeleteHandler (lsn : Lsn) (tid : Tid) (xmax : TxnId) : Redo :=
  [(tid.page_id, fun page => do
    let page ← redo_stamp_deleted page tid xmax false
    return stamp_pd_lsn page lsn)]

def HeapHotUpdateHandler (lsn : Lsn) (page_id : PageId) (old_slot new_slot : ℕ)
    (new_tuple_bytes : List UInt8) (xmax : TxnId) : Redo :=
  [(page_id, fun page => do
    let page ← redo_stamp_hot_update (init_if_fresh page) ⟨page_id, old_slot⟩ ⟨page_id, new_slot⟩
      xmax
    let page ← add_tuple_at page new_slot new_tuple_bytes
    return stamp_pd_lsn page lsn)]

def HeapCleanupRedoHandler (lsn : Lsn) (page_id unlink_prev_page unlink_next_page : PageId)
    (dead_slots : List ℕ) : Redo :=
  (page_id, fun page => do
    let page ← compact (init_if_fresh page) dead_slots
    return stamp_pd_lsn page lsn) ::
  if unlink_prev_page ≠ PageId.INVALID then
    [(unlink_prev_page, fun page => do
      let page ← set_next_page (init_if_fresh page) (next_of unlink_next_page)
      return stamp_pd_lsn page lsn)]
  else []

/-- `heap_redo_handlers`: the handler of each record type. -/
def heap_redo_handlers (lsn : Lsn) : HeapRecord → Redo
  | .HeapInsert page_id slot_id tuple_bytes => HeapInsertHandler lsn page_id slot_id tuple_bytes
  | .HeapUpdate old_tid new_tid xmax_old new_tuple_bytes =>
    HeapUpdateHandler lsn old_tid new_tid xmax_old new_tuple_bytes
  | .HeapDelete tid xmax => HeapDeleteHandler lsn tid xmax
  | .HeapHotUpdate page_id old_slot new_slot new_tuple_bytes xmax =>
    HeapHotUpdateHandler lsn page_id old_slot new_slot new_tuple_bytes xmax
  | .HeapCleanup page_id unlink_prev_page unlink_next_page dead_slots =>
    HeapCleanupRedoHandler lsn page_id unlink_prev_page unlink_next_page dead_slots

/-- A heap record as a log record. -/
def log_record (entry : Lsn × HeapRecord) : LogRecord PageId Page HeapError :=
  ⟨entry.1, heap_redo_handlers entry.1 entry.2⟩

/-- Replay the heap's log, in order, over page images. -/
def redo_log (wal : List (Lsn × HeapRecord)) (pages : PageId → Page) :
    Except HeapError (PageId → Page) :=
  replay page_pd_lsn (wal.map log_record) pages

/-! ## The system -/

/-- The pages and the log. -/
structure HeapSys where
  pages : PageId → Page
  wal : List (Lsn × HeapRecord)
  last_lsn : Lsn

/-- A call, with everything it is given. -/
inductive HeapOp where
  | insert (relation_pages : List PageId) (xid : TxnId) (tuple : List UInt8)
  | delete (tid : Tid) (xmax : TxnId) (curcid : ℕ) (gate : TupleHeader → Except HeapError Unit)
  | update (relation_pages : List PageId) (old_tid : Tid) (xmax : TxnId) (curcid : ℕ)
      (new_tuple : List UInt8) (hot_eligible : Bool) (gate : TupleHeader → Except HeapError Unit)
  | compact_page (page_id : PageId) (dead_slots : List ℕ)
      (unlink_prev_page unlink_next_page : PageId)

def HeapOp.exec (pages : PageId → Page) (lsn : Lsn) : HeapOp → Option Outcome
  | .insert relation_pages xid tuple => HeapAM.insert pages lsn relation_pages xid tuple
  | .delete tid xmax curcid gate => HeapAM.delete pages lsn tid xmax curcid gate
  | .update relation_pages old_tid xmax curcid new_tuple hot_eligible gate =>
    HeapAM.update pages lsn relation_pages old_tid xmax curcid new_tuple hot_eligible gate
  | .compact_page page_id dead_slots unlink_prev_page unlink_next_page =>
    HeapAM.compact_page pages lsn page_id dead_slots unlink_prev_page unlink_next_page

namespace HeapSys

/-- The log position a call gets is above every earlier one, and a `u64`. -/
def step (s : HeapSys) (call : Lsn × HeapOp) : Option HeapSys :=
  if s.last_lsn < call.1 ∧ call.1 < 256 ^ 8 then
    match call.2.exec s.pages call.1 with
    | none => none
    | some o =>
      match o.record with
      | none => some { s with pages := o.pages }
      | some record => some ⟨o.pages, s.wal ++ [(call.1, record)], call.1⟩
  else none

end HeapSys

/-! ## Calls and their redo -/

/-- Redo on any page that agrees with `p` reproduces the actions on `p₀`, which is `p`
or `p` freshly initialised. -/
def Reproduces (lsn : Lsn) (p p₀ : Page) (actions : List PageAction) (redo : PageAction) : Prop :=
  ∀ p', run_actions actions p₀ = (p', .ok ()) → HeapWf p' ∧ page_pd_lsn p' < lsn ∧
    ∀ q, Agree p q → ∃ q', redo q = .ok (stamp_pd_lsn q' lsn) ∧ Agree p' q'

/-- The pages a call starts from, and the LSN its record gets. -/
structure Ready (pages : PageId → Page) (lsn : Lsn) : Prop where
  ok : ∀ i, PageOk (pages i)
  before : ∀ i, page_pd_lsn (pages i) < lsn
  lsn_lt : lsn < 256 ^ 8

/-- What a call may do: nothing, or one logged step. -/
structure Effect (pages : PageId → Page) (lsn : Lsn) (o : Outcome) : Prop where
  ok : ∀ i, PageOk (o.pages i)
  unlogged : o.record = none → o.pages = pages
  logged : ∀ r, o.record = some r →
    Logged page_pd_lsn Agree pages o.pages (log_record (lsn, r))

variable {lsn : Lsn}

theorem Effect.none {pages : PageId → Page} (h : Ready pages lsn)
    (r : Except HeapError (Option Tid)) : Effect pages lsn ⟨pages, .none, r⟩ :=
  ⟨h.ok, fun _ => rfl, fun _ hr => by simp at hr⟩

/-- A logged call, from its writes: `s` is where the call started and `s'` is `s` with
the page it acquired initialised. -/
theorem Effect.of_writes {s s' : PageId → Page} (h : Ready s lsn) {record : HeapRecord}
    {writes : List (PageId × List PageAction)} {out_tid : Option Tid}
    (hids : (heap_redo_handlers lsn record).map Prod.fst = writes.map Prod.fst)
    (hnd : (writes.map Prod.fst).Nodup) (huntouched : ∀ i, i ∉ writes.map Prod.fst → s' i = s i)
    (hsucc : ∀ w ∈ writes, ∃ page, run_actions w.2 (s' w.1) = (page, .ok ()))
    (hredo : ∀ w ∈ writes, ∀ c ∈ heap_redo_handlers lsn record, c.1 = w.1 →
      Reproduces lsn (s w.1) (s' w.1) w.2 c.2) :
    Effect s lsn (log_then_mutate s' lsn record writes out_tid) := by
  obtain ⟨t, ht, hdone, hkept⟩ := log_then_mutate_ok hnd hsucc record out_tid
  -- a page of the record is a page that was written
  have hwrite : ∀ c ∈ heap_redo_handlers lsn record, ∃ page, t c.1 = stamp_pd_lsn page lsn ∧
      HeapWf page ∧ page_pd_lsn page < lsn ∧
      ∀ q, Agree (s c.1) q → ∃ q', c.2 q = .ok (stamp_pd_lsn q' lsn) ∧ Agree page q' := by
    intro c hc
    obtain ⟨w, hw, hwc⟩ := mem_map.mp (hids ▸ List.mem_map_of_mem (f := Prod.fst) hc)
    obtain ⟨page, hrun, ht⟩ := hdone w hw
    rw [← hwc]
    exact ⟨page, ht, hredo w hw c hc hwc.symm page hrun⟩
  have hlogged : Logged page_pd_lsn Agree s t (log_record (lsn, record)) := by
    refine ⟨by rw [log_record, hids]; exact hnd, fun c _ => h.before c.1, fun c hc => ?_,
      fun c hc q hq => ?_, fun i hi => ?_⟩
    · obtain ⟨page, hti, -, hlt, -⟩ := hwrite c hc
      rw [hti, page_pd_lsn_stamp h.lsn_lt, max_eq_left (le_of_lt hlt)]
      rfl
    · obtain ⟨page, hti, hwf, -, hq'⟩ := hwrite c hc
      obtain ⟨q', hok, hag⟩ := hq' q hq
      rw [hti]
      exact ⟨stamp_pd_lsn q' lsn, hok, hag.stamp_pd_lsn lsn⟩
    · have hi' : i ∉ writes.map Prod.fst := by rwa [← hids]
      rw [hkept i hi', huntouched i hi']
  have hok : ∀ i, PageOk (t i) := by
    intro i
    by_cases hi : i ∈ writes.map Prod.fst
    · obtain ⟨c, hc, rfl⟩ := mem_map.mp (hids ▸ hi)
      obtain ⟨page, hti, hwf, -⟩ := hwrite c hc
      rw [hti]
      exact .inr (hwf.stamp_pd_lsn lsn)
    · rw [hkept i hi, huntouched i hi]
      exact h.ok i
  rw [ht]
  refine ⟨hok, fun hr => by simp at hr, fun r hr => ?_⟩
  obtain rfl : record = r := Option.some.inj hr
  exact hlogged

/-! ## Each operation against its handler -/

theorem PageOk.init_pd_lsn_lt {p : Page} (hp : PageOk p) (h : page_pd_lsn p < lsn) :
    page_pd_lsn (init_if_fresh p) < lsn := by
  rcases hp with rfl | hp
  · have hz : page_pd_lsn (init_if_fresh Page.zero) = 0 := by
      rw [init_if_fresh, init_zero_eq]
      exact congrArg PageHeader.pd_lsn
        (@header_init_with_special HEAP_SPECIAL_SIZE Page.zero (by decide))
    rw [hz]
    exact lt_of_le_of_lt (Nat.zero_le _) h
  · rw [init_if_fresh, hp.init_eq]
    exact h

section Reproduce

variable {lsn : Lsn} {p : Page}

/-- Placing a tuple, on a page that redo may have to initialise. -/
theorem reproduces_insert (hp : PageOk p) (hlt : page_pd_lsn p < lsn) {slot : ℕ}
    {bytes : List UInt8} (hlen : 64 ≤ bytes.length) :
    Reproduces lsn p (init_if_fresh p) [fun page => add_tuple_at page slot bytes]
      (fun page => do
        let page ← add_tuple_at (init_if_fresh page) slot bytes
        return stamp_pd_lsn page lsn) := by
  intro p' hrun
  rw [run_actions_one] at hrun
  have hinit := hp.init
  obtain ⟨hwf, -⟩ := (Agree.refl (init_if_fresh p)).add_tuple_at hinit hlen hrun
  refine ⟨hwf, ?_, fun q hq => ?_⟩
  · rw [add_tuple_at_pd_lsn hrun]
    exact hp.init_pd_lsn_lt hlt
  · obtain ⟨-, q', hok, hag⟩ := (hq.init hp).add_tuple_at hinit hlen hrun
    refine ⟨q', ?_, hag⟩
    simp only [hok]
    rfl

/-- A stamp alone, with or without an initialisation that does nothing here. -/
theorem reproduces_stamp (hp : HeapWf p) (hlt : page_pd_lsn p < lsn) {tid : Tid}
    {f g : TupleHeader → TupleHeader} (hfg : ∀ h h', h.SameButCid h' → (f h).SameButCid (g h'))
    {redo : PageAction}
    (hredo : ∀ q q', Agree p q → HeapAM.stamp_header q tid g = .ok q' →
      redo q = .ok (stamp_pd_lsn q' lsn)) :
    Reproduces lsn p p [fun page => HeapAM.stamp_header page tid f] redo := by
  intro p' hrun
  rw [run_actions_one] at hrun
  obtain ⟨hwf, -⟩ := (Agree.refl p).stamp_header hp hfg hrun
  refine ⟨hwf, ?_, fun q hq => ?_⟩
  · rw [(hp.stamp_header hrun).2]
    exact hlt
  · obtain ⟨-, q', hok, hag⟩ := hq.stamp_header hp hfg hrun
    exact ⟨q', hredo q q' hq hok, hag⟩

/-- A page that agrees with an initialised one is not initialised again. -/
theorem Agree.init_eq {q : Page} (hp : HeapWf p) (h : Agree p q) : init_if_fresh q = q := by
  rw [init_if_fresh, init_if_fresh_with_special, h.header_eq hp, if_neg]
  have hb := hp.bounds
  omega

/-- Both halves of an update that stays on its page. -/
theorem reproduces_stamp_insert (hp : HeapWf p) (hlt : page_pd_lsn p < lsn) {tid : Tid}
    {f g : TupleHeader → TupleHeader} (hfg : ∀ h h', h.SameButCid h' → (f h).SameButCid (g h'))
    {slot : ℕ} {bytes : List UInt8} (hlen : 64 ≤ bytes.length) :
    Reproduces lsn p p [fun page => HeapAM.stamp_header page tid f,
        fun page => add_tuple_at page slot bytes]
      (fun page => do
        let page ← HeapAM.stamp_header (init_if_fresh page) tid g
        let page ← add_tuple_at page slot bytes
        return stamp_pd_lsn page lsn) := by
  intro p' hrun
  obtain ⟨m, hm, hadd⟩ := run_actions_two.mp hrun
  obtain ⟨hmwf, -⟩ := (Agree.refl p).stamp_header hp hfg hm
  obtain ⟨hwf, -⟩ := (Agree.refl m).add_tuple_at hmwf hlen hadd
  refine ⟨hwf, ?_, fun q hq => ?_⟩
  · rw [add_tuple_at_pd_lsn hadd, (hp.stamp_header hm).2]
    exact hlt
  · obtain ⟨-, m', hok, hag⟩ := hq.stamp_header hp hfg hm
    obtain ⟨-, q', hok', hag'⟩ := hag.add_tuple_at hmwf hlen hadd
    refine ⟨q', ?_, hag'⟩
    simp only [hq.init_eq hp, hok]
    change (do
      let page ← add_tuple_at m' slot bytes
      return stamp_pd_lsn page lsn) = _
    rw [hok']
    rfl

theorem reproduces_compact (hp : HeapWf p) (hlt : page_pd_lsn p < lsn) {dead_slots : List ℕ} :
    Reproduces lsn p p [fun page => compact page dead_slots]
      (fun page => do
        let page ← compact (init_if_fresh page) dead_slots
        return stamp_pd_lsn page lsn) := by
  intro p' hrun
  rw [run_actions_one] at hrun
  obtain ⟨hwf, -⟩ := (Agree.refl p).compact hp hrun
  refine ⟨hwf, ?_, fun q hq => ?_⟩
  · rw [compact_pd_lsn hp.toInv hrun]
    exact hlt
  · obtain ⟨-, q', hok, hag⟩ := hq.compact hp hrun
    refine ⟨q', ?_, hag⟩
    simp only [hq.init_eq hp, hok]
    rfl

theorem reproduces_unlink (hp : HeapWf p) (hlt : page_pd_lsn p < lsn) {next : Option PageId} :
    Reproduces lsn p p [fun page => set_next_page page next]
      (fun page => do
        let page ← set_next_page (init_if_fresh page) next
        return stamp_pd_lsn page lsn) := by
  intro p' hrun
  rw [run_actions_one] at hrun
  obtain ⟨hwf, -⟩ := (Agree.refl p).set_next_page hp hrun
  refine ⟨hwf, ?_, fun q hq => ?_⟩
  · rw [set_next_page_pd_lsn hrun]
    exact hlt
  · obtain ⟨-, q', hok, hag⟩ := hq.set_next_page hp hrun
    refine ⟨q', ?_, hag⟩
    simp only [hq.init_eq hp, hok]
    rfl

end Reproduce

namespace HeapAM

section Effects

variable {pages : PageId → Page} {lsn : Lsn} {o : Outcome}

theorem insert_effect (h : Ready pages lsn) {relation_pages : List PageId} {xid : TxnId}
    {tuple : List UInt8} (ho : insert pages lsn relation_pages xid tuple = some o) :
    Effect pages lsn o := by
  rcases insert_cases (fun i _ => h.ok i) ho with ⟨e, rfl⟩ |
    ⟨bytes, page_id, slot, hstamp, -, -, hfits, rfl⟩
  · exact Effect.none h _
  refine Effect.of_writes h rfl (List.nodup_singleton _) (fun i hi => ?_) (fun w hw => ?_)
    (fun w hw c hc _ => ?_)
  · exact Function.update_of_ne (fun heq => hi (by simp [heq])) _ _
  · obtain rfl := mem_singleton.mp hw
    simp only [Function.update_self]
    exact ⟨_, run_actions_one.mpr (add_tuple_at_eq_ok.mpr ⟨hfits, rfl⟩)⟩
  · obtain rfl := mem_singleton.mp hw
    obtain rfl := mem_singleton.mp hc
    simp only [Function.update_self]
    exact reproduces_insert (h.ok page_id) (h.before page_id) (stamp_xmin_length hstamp).2

variable {xmax : TxnId} {curcid : ℕ}

theorem delete_effect (h : Ready pages lsn) {tid : Tid}
    {gate : TupleHeader → Except HeapError Unit}
    (ho : delete pages lsn tid xmax curcid gate = some o) : Effect pages lsn o := by
  rcases delete_cases ho with ⟨e, rfl⟩ | ⟨header, hread, -, rfl⟩
  · exact Effect.none h _
  obtain ⟨hwf, page', hpage'⟩ := stampable (h.ok tid.page_id) hread
    fun hd => hd.stamp_deleted xmax curcid false
  refine Effect.of_writes h rfl (List.nodup_singleton _) (fun _ _ => rfl) (fun w hw => ?_)
    (fun w hw c hc _ => ?_)
  · obtain rfl := mem_singleton.mp hw
    exact ⟨page', run_actions_one.mpr hpage'⟩
  · obtain rfl := mem_singleton.mp hw
    obtain rfl := mem_singleton.mp hc
    refine reproduces_stamp hwf (h.before _)
      (fun hd hd' hsame => hsame.stamp_deleted xmax curcid false) fun q q' _ hq' => ?_
    simp only [redo_stamp_deleted, hq']
    rfl

variable {old_tid : Tid}

/-- An update that stays on its page, on either path. -/
theorem same_page_effect (h : Ready pages lsn) {header : TupleHeader}
    (hread : read_header (pages old_tid.page_id) old_tid = .ok header)
    {f g : TupleHeader → TupleHeader} (hfg : ∀ h h', h.SameButCid h' → (f h).SameButCid (g h'))
    {bytes : List UInt8} (h64 : 64 ≤ bytes.length) {slot : ℕ}
    (hfits : Fits (pages old_tid.page_id) slot bytes) {record : HeapRecord}
    (hrecord : heap_redo_handlers lsn record = [(old_tid.page_id, fun page => do
      let page ← stamp_header (init_if_fresh page) old_tid g
      let page ← add_tuple_at page slot bytes
      return stamp_pd_lsn page lsn)]) (out_tid : Option Tid) :
    Effect pages lsn (log_then_mutate pages lsn record
      [(old_tid.page_id, [fun page => stamp_header page old_tid f,
        fun page => add_tuple_at page slot bytes])] out_tid) := by
  obtain ⟨hwf, page', hpage'⟩ := stampable (h.ok old_tid.page_id) hread f
  refine Effect.of_writes h (by rw [hrecord]; rfl) (List.nodup_singleton _) (fun _ _ => rfl)
    (fun w hw => ?_) (fun w hw c hc _ => ?_)
  · obtain rfl := mem_singleton.mp hw
    refine ⟨_, run_actions_two.mpr ⟨page', hpage', add_tuple_at_eq_ok.mpr ⟨?_, rfl⟩⟩⟩
    exact Fits.of_layout (hwf.stamp_header hpage').1 hfits
  · rw [hrecord] at hc
    obtain rfl := mem_singleton.mp hw
    obtain rfl := mem_singleton.mp hc
    exact reproduces_stamp_insert hwf (h.before _) hfg h64

variable {page_id : PageId}

/-- An update whose new version goes to another page: two pages, each guarded on
its own. -/
theorem cross_page_effect (h : Ready pages lsn) {header : TupleHeader}
    (hread : read_header (pages old_tid.page_id) old_tid = .ok header) {bytes : List UInt8}
    (h64 : 64 ≤ bytes.length) (hne : page_id ≠ old_tid.page_id) {slot : ℕ}
    (hfits : Fits (init_if_fresh (pages page_id)) slot bytes) (out_tid : Option Tid) :
    Effect pages lsn (log_then_mutate
      (Function.update pages page_id (init_if_fresh (pages page_id))) lsn
      (.HeapUpdate old_tid ⟨page_id, slot⟩ xmax bytes)
      [(old_tid.page_id, [fun page => stamp_deleted page old_tid xmax curcid true]),
       (page_id, [fun page => add_tuple_at page slot bytes])] out_tid) := by
  obtain ⟨hwf, page', hpage'⟩ := stampable (h.ok old_tid.page_id) hread
    fun hd => hd.stamp_deleted xmax curcid true
  have hold : Function.update pages page_id (init_if_fresh (pages page_id)) old_tid.page_id
      = pages old_tid.page_id := Function.update_of_ne (Ne.symm hne) _ _
  have hredo : heap_redo_handlers lsn (.HeapUpdate old_tid ⟨page_id, slot⟩ xmax bytes) =
      [(old_tid.page_id, fun page => do
        let page ← redo_stamp_deleted (init_if_fresh page) old_tid xmax true
        return stamp_pd_lsn page lsn),
       (page_id, fun page => do
        let page ← add_tuple_at (init_if_fresh page) slot bytes
        return stamp_pd_lsn page lsn)] := if_neg (Ne.symm hne)
  refine Effect.of_writes h (by rw [hredo]; rfl) ?_ (fun i hi => ?_) (fun w hw => ?_)
    (fun w hw c hc hcw => ?_)
  · simpa using Ne.symm hne
  · exact Function.update_of_ne (fun heq => hi (by simp [heq])) _ _
  · rcases mem_cons.mp hw with rfl | hw
    · simp only [hold]
      exact ⟨page', run_actions_one.mpr hpage'⟩
    · obtain rfl := mem_singleton.mp hw
      simp only [Function.update_self]
      exact ⟨_, run_actions_one.mpr (add_tuple_at_eq_ok.mpr ⟨hfits, rfl⟩)⟩
  · rw [hredo] at hc
    rcases mem_cons.mp hw with rfl | hw
    · rcases mem_cons.mp hc with rfl | hc
      · simp only [hold]
        refine reproduces_stamp hwf (h.before _)
          (fun hd hd' hsame => hsame.stamp_deleted xmax curcid true) fun q q' hq hq' => ?_
        simp only [redo_stamp_deleted, hq.init_eq hwf, hq']
        rfl
      · obtain rfl := mem_singleton.mp hc
        exact absurd hcw hne
    · obtain rfl := mem_singleton.mp hw
      rcases mem_cons.mp hc with rfl | hc
      · exact absurd hcw (Ne.symm hne)
      · obtain rfl := mem_singleton.mp hc
        simp only [Function.update_self]
        exact reproduces_insert (h.ok page_id) (h.before page_id) h64

theorem update_effect (h : Ready pages lsn) {relation_pages : List PageId} {new_tuple : List UInt8}
    {hot_eligible : Bool} {gate : TupleHeader → Except HeapError Unit}
    (ho : update pages lsn relation_pages old_tid xmax curcid new_tuple hot_eligible gate = some o) :
    Effect pages lsn o := by
  rcases update_cases (fun i _ => h.ok i) (h.ok _) ho with ⟨e, rfl⟩ |
    ⟨header, bytes, hread, -, hstamp, hpath⟩
  · exact Effect.none h _
  have h64 := (stamp_xmin_length hstamp).2
  rcases hpath with ⟨hot_tuple, hhot, slot, -, hfits, rfl⟩ | ⟨slot, -, hfits, rfl⟩ |
    ⟨page_id, -, hne, slot, -, hfits, rfl⟩
  · have hlen := stamp_hot_only_length hhot
    exact same_page_effect h hread (fun hd hd' hsame => hsame.stamp_hot_update xmax curcid _)
      (by omega) hfits rfl _
  · refine same_page_effect h hread (fun hd hd' hsame => hsame.stamp_deleted xmax curcid true)
      h64 hfits ?_ _
    exact if_pos rfl
  · exact cross_page_effect h hread h64 hne hfits _

/-- The write of a page and its redo, in a cleanup. -/
theorem mem_cleanup {prev next : PageId} {dead_slots : List ℕ}
    (hself : ¬ (prev ≠ PageId.INVALID ∧ prev = page_id)) {w : PageId × List PageAction}
    (hw : w ∈ cleanup_writes page_id prev next dead_slots) {c : PageId × PageAction}
    (hc : c ∈ HeapCleanupRedoHandler lsn page_id prev next dead_slots) (hcw : c.1 = w.1) :
    (w = (page_id, [fun page => compact page dead_slots]) ∧
      c = (page_id, fun page => do
        let page ← compact (init_if_fresh page) dead_slots
        return stamp_pd_lsn page lsn)) ∨
    (w = (prev, [fun page => set_next_page page (next_of next)]) ∧
      c = (prev, fun page => do
        let page ← set_next_page (init_if_fresh page) (next_of next)
        return stamp_pd_lsn page lsn)) := by
  unfold cleanup_writes at hw
  unfold HeapCleanupRedoHandler at hc
  by_cases hprev : prev ≠ PageId.INVALID
  · have hne : prev ≠ page_id := fun heq => hself ⟨hprev, heq⟩
    rw [if_pos hprev] at hw hc
    rcases mem_cons.mp hw with rfl | hw <;> rcases mem_cons.mp hc with rfl | hc
    · exact .inl ⟨rfl, rfl⟩
    · obtain rfl := mem_singleton.mp hc
      exact absurd hcw hne
    · obtain rfl := mem_singleton.mp hw
      exact absurd hcw (Ne.symm hne)
    · obtain rfl := mem_singleton.mp hw
      obtain rfl := mem_singleton.mp hc
      exact .inr ⟨rfl, rfl⟩
  · rw [if_neg hprev] at hw hc
    obtain rfl := mem_singleton.mp hw
    obtain rfl := mem_singleton.mp hc
    exact .inl ⟨rfl, rfl⟩

/-- A compaction that returned without an error. -/
theorem compact_page_effect (h : Ready pages lsn) {dead_slots : List ℕ}
    {unlink_prev_page unlink_next_page : PageId}
    (ho : compact_page pages lsn page_id dead_slots unlink_prev_page unlink_next_page = some o)
    (hret : o.record ≠ none → ∃ out, o.result = .ok out) : Effect pages lsn o := by
  unfold compact_page at ho
  split_ifs at ho with hself
  split at ho
  · cases ho
    exact Effect.none h _
  next record hrec =>
  have hrecord : record = .HeapCleanup page_id unlink_prev_page unlink_next_page dead_slots := by
    unfold heap_cleanup at hrec
    simp only at hrec
    split_ifs at hrec
    exact (Except.ok.inj hrec).symm
  subst hrecord
  cases ho
  have hnd : ((cleanup_writes page_id unlink_prev_page unlink_next_page dead_slots).map
      Prod.fst).Nodup := by
    unfold cleanup_writes
    split_ifs with hprev
    · have hne : page_id ≠ unlink_prev_page := fun heq => hself ⟨hprev, heq.symm⟩
      simpa using hne
    · simp
  have hids : (heap_redo_handlers lsn
      (.HeapCleanup page_id unlink_prev_page unlink_next_page dead_slots)).map Prod.fst =
        (cleanup_writes page_id unlink_prev_page unlink_next_page dead_slots).map Prod.fst := by
    rw [heap_redo_handlers, HeapCleanupRedoHandler, cleanup_writes]
    split_ifs <;> rfl
  obtain ⟨out, hout⟩ := hret (by rw [log_then_mutate_record]; simp)
  obtain ⟨t, ht⟩ := log_then_mutate_returns hout
  obtain ⟨hdone, -⟩ := mutate_ok hnd ht
  have hruns : ∀ w ∈ cleanup_writes page_id unlink_prev_page unlink_next_page dead_slots,
      ∃ page, run_actions w.2 (pages w.1) = (page, .ok ()) := by
    intro w hw
    obtain ⟨page, hrun, -⟩ := hdone w hw
    exact ⟨page, hrun⟩
  refine Effect.of_writes h hids hnd (fun _ _ => rfl) hruns (fun w hw c hc hcw => ?_)
  obtain ⟨page, hrun⟩ := hruns w hw
  rcases mem_cleanup hself hw hc hcw with ⟨rfl, rfl⟩ | ⟨rfl, rfl⟩
  · have hg := compact_geometry (run_actions_one.mp hrun)
    exact reproduces_compact ((h.ok page_id).heapWf hg) (h.before page_id)
  · obtain ⟨⟨hg, -⟩, -⟩ := set_next_page_eq_ok.mp (run_actions_one.mp hrun)
    exact reproduces_unlink ((h.ok unlink_prev_page).heapWf hg) (h.before unlink_prev_page)

end Effects

end HeapAM

/-! ## The system -/

/-- Every compaction that gets as far as its record returns. -/
def HeapSys.CleanupReturns (s : HeapSys) (call : Lsn × HeapOp) : Prop :=
  ∀ page_id dead_slots prev next o, call.2 = .compact_page page_id dead_slots prev next →
    call.2.exec s.pages call.1 = some o → o.record ≠ none → ∃ out, o.result = .ok out

variable {s : HeapSys}

theorem HeapOp.exec_effect {call : Lsn × HeapOp} {o : Outcome} (h : Ready s.pages call.1)
    (hret : s.CleanupReturns call) (ho : call.2.exec s.pages call.1 = some o) :
    Effect s.pages call.1 o := by
  obtain ⟨lsn, op⟩ := call
  cases op with
  | insert relation_pages xid tuple => exact HeapAM.insert_effect h ho
  | delete tid xmax curcid gate => exact HeapAM.delete_effect h ho
  | update relation_pages old_tid xmax curcid new_tuple hot_eligible gate =>
    exact HeapAM.update_effect h ho
  | compact_page page_id dead_slots prev next =>
    exact HeapAM.compact_page_effect h ho fun hne => hret _ _ _ _ _ rfl ho hne

/-- What holds of the pages, the log, and the states `seen` so far. -/
structure RedoInv (seen : List HeapSys) (s : HeapSys) : Prop where
  ok : ∀ i, PageOk (s.pages i)
  stamped : ∀ i, page_pd_lsn (s.pages i) ≤ s.last_lsn
  mem : s ∈ seen
  recoverable : Recoverable page_pd_lsn Agree (seen.map HeapSys.pages) (s.wal.map log_record)
    s.last_lsn s.pages
  applied : ∀ e ∈ s.wal, ∀ c ∈ heap_redo_handlers e.1 e.2, e.1 ≤ page_pd_lsn (s.pages c.1)
  bounded : ∀ e ∈ s.wal, e.1 ≤ s.last_lsn
  increasing : (s.wal.map Prod.fst).Pairwise (· < ·)

theorem RedoInv.start (hwal : s.wal = []) (hok : ∀ i, PageOk (s.pages i))
    (hlsn : ∀ i, page_pd_lsn (s.pages i) ≤ s.last_lsn) : RedoInv [s] s := by
  refine ⟨hok, hlsn, List.mem_singleton_self s, ?_, ?_, ?_, ?_⟩ <;> rw [hwal]
  · exact Recoverable.start Agree.refl s.pages s.last_lsn
  · exact fun e he => absurd he List.not_mem_nil
  · exact fun e he => absurd he List.not_mem_nil
  · exact List.Pairwise.nil

theorem RedoInv.step {seen : List HeapSys} {t : HeapSys} {call : Lsn × HeapOp} (h : RedoInv seen s)
    (hret : s.CleanupReturns call) (hst : s.step call = some t) :
    RedoInv (seen ++ [t]) t := by
  unfold HeapSys.step at hst
  split_ifs at hst with hlsn
  obtain ⟨hlt, hmax⟩ := hlsn
  have hready : Ready s.pages call.1 := ⟨h.ok, fun i => lt_of_le_of_lt (h.stamped i) hlt, hmax⟩
  split at hst
  · cases hst
  · next o ho =>
    have heff := HeapOp.exec_effect hready hret ho
    have hmem : s.pages ∈ seen.map HeapSys.pages := List.mem_map_of_mem h.mem
    cases hr : o.record with
    | none =>
      have hsame := heff.unlogged hr
      simp only [hr, hsame] at hst
      cases hst
      refine ⟨h.ok, h.stamped, by simp, ?_, h.applied, h.bounded, h.increasing⟩
      rw [map_append]
      exact h.recoverable.unlogged hmem rfl
    | some record =>
      have hlog := heff.logged record hr
      simp only [hr] at hst
      cases hst
      -- a page keeps its LSN or gets this record's
      have hnew : ∀ i, page_pd_lsn (o.pages i) = page_pd_lsn (s.pages i) ∨
          page_pd_lsn (o.pages i) = call.1 := by
        intro i
        by_cases hi : i ∈ (log_record (call.1, record)).changes.map Prod.fst
        · obtain ⟨c, hc, rfl⟩ := mem_map.mp hi
          exact .inr (hlog.after c hc)
        · rw [hlog.untouched i hi]
          exact .inl rfl
      refine ⟨heff.ok, fun i => ?_, by simp, ?_, ?_, ?_, ?_⟩
      · have hold := hready.before i
        rcases hnew i with heq | heq <;> rw [heq]
        exact le_of_lt hold
      · rw [map_append, map_append]
        exact h.recoverable.logged Agree.refl (fun p q hpq => hpq.pd_lsn_eq) hmem hlog hlt
      · intro e he c hc
        rcases List.mem_append.mp he with he | he
        · have hold := h.applied e he c hc
          have hle := h.bounded e he
          rcases hnew c.1 with heq | heq <;> rw [heq]
          · exact hold
          · exact le_trans hle (le_of_lt hlt)
        · obtain rfl := mem_singleton.mp he
          exact le_of_eq (hlog.after c hc).symm
      · intro e he
        rcases List.mem_append.mp he with he | he
        · exact le_trans (h.bounded e he) (le_of_lt hlt)
        · obtain rfl := mem_singleton.mp he
          exact le_refl _
      · rw [map_append, List.pairwise_append]
        refine ⟨h.increasing, List.pairwise_singleton _ _, fun a ha b hb => ?_⟩
        obtain ⟨e, he, rfl⟩ := mem_map.mp ha
        obtain rfl := mem_singleton.mp hb
        exact lt_of_le_of_lt (h.bounded e he) hlt

/-- Nothing written and nothing logged. -/
def HeapSys.blank : HeapSys := ⟨fun _ => Page.zero, [], 0⟩

/-- An insert, a HOT update of it and the compaction that removes the old version. -/
def insert_update_cleanup : List (Lsn × HeapOp) :=
  [(10, .insert [7] 3 (List.replicate 72 0)),
   (20, .update [7] ⟨7, 0⟩ 4 1 (List.replicate 72 0) true fun _ => .ok ()),
   (30, .compact_page 7 [0] PageId.INVALID PageId.INVALID)]

theorem insert_update_cleanup_returns :
    AllSteps HeapSys.step HeapSys.CleanupReturns HeapSys.blank insert_update_cleanup := by
  refine ⟨by rintro _ _ _ _ _ ⟨⟩, fun t ht => ⟨by rintro _ _ _ _ _ ⟨⟩, fun u hu =>
    ⟨?_, fun _ _ => trivial⟩⟩⟩
  -- the compaction, in the state the first two calls leave
  intro page_id dead_slots prev next o _ ho _
  have hok : ((HeapSys.blank.step (10, .insert [7] 3 (List.replicate 72 0))).bind fun t =>
      (t.step (20, .update [7] ⟨7, 0⟩ 4 1 (List.replicate 72 0) true fun _ => .ok ())).bind fun u =>
      (HeapOp.exec u.pages 30 (.compact_page 7 [0] PageId.INVALID PageId.INVALID)).map
        fun o => o.result.isOk) = some true := by decide +kernel
  rw [ht, Option.bind_some, hu, Option.bind_some, ho, Option.map_some] at hok
  cases hres : o.result with
  | ok out => exact ⟨out, rfl⟩
  | error e => simp [hres, Except.isOk, Except.toBool] at hok

end Ams
