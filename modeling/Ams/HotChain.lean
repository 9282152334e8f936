/-
HOT chains: the readers of `pg-am-heap/src/heap_am.rs` that walk `t_ctid` links.

A HOT update leaves the old version in place with a link to the new one on the same
page, and only the first version of such a chain is found by a scan of the slots.
`scan` stands at that version and lets `follow_hot_chain` walk forward to the one its
snapshot sees; `hot_chain_root` walks back to the version that owns the index entries.

The code trusts none of the links: it counts hops, checks pages and skips what it
cannot read. On pages that are `Sound` and whose links are `WellLinked` none of
these precautions matters, and each function is a walk of `Ams.Lib.Chain` over
`hot_link`. What makes links well formed is not argued here. It takes the history of
the relation and is the business of the version store.
-/
import Ams.HeapView
import Ams.Visibility
import Ams.Lib.Chain

set_option autoImplicit false

namespace Ams

open Ams.Lib SlottedPage Relation

/-! ## The code -/

/-- The judgment on a tuple's header. -/
def visible (snapshot : Snapshot) (clog : Clog) (header : TupleHeader) : Bool :=
  is_visible header.t_xmin header.visibility_xmax header.t_cid snapshot clog

/-- The header of the tuple at a slot, if there is one. -/
def header_at (page : Page) (slot : ℕ) : Except HeapError (Option TupleHeader) :=
  match tuple page slot with
  | .error e => .error e
  | .ok none => .ok none
  | .ok (some bytes) =>
    match TupleHeader.read_from (bytes.take TUPLE_HEADER_SIZE) with
    | .error e => .error e
    | .ok header => .ok (some header)

/-- The loop of `follow_hot_chain`, with the hops that are left. -/
def follow_hot_chain_from (page : Page) (page_id : PageId) (snapshot : Snapshot) (clog : Clog) :
    ℕ → Tid → Except HeapError (Option Tid)
  | 0, _ =>
    .error (.Corrupted s!"HOT chain on page {page_id} exceeds {slot_count page} hops (cycle?)")
  | hops + 1, chain_tid =>
    if chain_tid.page_id ≠ page_id then .ok none
    else
      match header_at page chain_tid.slot_id with
      | .error e => .error e
      | .ok none => .ok none
      | .ok (some header) =>
        if visible snapshot clog header then .ok (some chain_tid)
        else if header.hot_updated = true ∧ header.t_ctid ≠ chain_tid then
          follow_hot_chain_from page page_id snapshot clog hops header.t_ctid
        else .ok none

def follow_hot_chain (page : Page) (page_id : PageId) (start : Tid) (snapshot : Snapshot)
    (clog : Clog) : Except HeapError (Option Tid) :=
  follow_hot_chain_from page page_id snapshot clog (slot_count page) start

/-- The page's `t_ctid → slot` map. -/
def hot_links (page : Page) : List ℕ → (Tid → Option ℕ) → Except HeapError (Tid → Option ℕ)
  | [], links => .ok links
  | slot :: rest, links =>
    match header_at page slot with
    | .error e => .error e
    | .ok none => hot_links page rest links
    | .ok (some header) =>
      if header.hot_updated then
        hot_links page rest (Function.update links header.t_ctid (some slot))
      else hot_links page rest links

/-- The loop of `hot_chain_root`. -/
def hot_chain_root_from (page : Page) (page_id : PageId) (links : Tid → Option ℕ) :
    ℕ → Tid → Except HeapError Tid
  | 0, _ =>
    .error (.Corrupted
      s!"HOT chain root search on page {page_id} exceeds {slot_count page} hops (cycle?)")
  | hops + 1, cur =>
    match header_at page cur.slot_id with
    | .error e => .error e
    | .ok none => .ok cur
    | .ok (some header) =>
      if header.heap_only then
        match links cur with
        | some slot => hot_chain_root_from page page_id links hops ⟨page_id, slot⟩
        | none => .ok cur
      else .ok cur

def hot_chain_root (page : Page) (page_id : PageId) (tid : Tid) : Except HeapError Tid :=
  match hot_links page (List.range (slot_count page)) fun _ => none with
  | .error e => .error e
  | .ok links => hot_chain_root_from page page_id links (slot_count page) tid

/-- Concatenate what a fallible function gives for each element. -/
def collect {α β ε : Type} (f : α → Except ε (List β)) : List α → Except ε (List β)
  | [] => .ok []
  | a :: rest =>
    match f a with
    | .error e => .error e
    | .ok out =>
      match collect f rest with
      | .error e => .error e
      | .ok outs => .ok (out ++ outs)

/-- Every slot of every page that has been initialised, in order. -/
def collect_slots {β : Type} (pages : PageId → Page) (relation_pages : List PageId)
    (f : Page → PageId → ℕ → Except HeapError (List β)) : Except HeapError (List β) :=
  collect (fun page_id =>
    let page := pages page_id
    if (header page).pd_upper = 0 then .ok []
    else collect (f page page_id) (List.range (slot_count page))) relation_pages

/-- The values of the tuple at a slot that is known to hold one. -/
def values_at (columns : List ColumnType) (page : Page) (slot : ℕ) (expect : String) :
    Except HeapError (List (Option Datum)) :=
  match tuple page slot with
  | .error e => .error e
  | .ok none => .error (.Corrupted expect)
  | .ok (some bytes) => (decode_tuple bytes columns).map Prod.snd

namespace HeapAM

/-- One slot of a scan: chain members are passed over, and a root that is not visible
stands for the version of its chain that is. -/
def scan_slot (columns : List ColumnType) (snapshot : Snapshot) (clog : Clog) (page : Page)
    (page_id : PageId) (slot : ℕ) : Except HeapError (List (Tid × List (Option Datum))) :=
  match tuple page slot with
  | .error e => .error e
  | .ok none => .ok []
  | .ok (some bytes) =>
    match decode_tuple bytes columns with
    | .error e => .error e
    | .ok (header, values) =>
      let self_tid : Tid := ⟨page_id, slot⟩
      if header.heap_only then .ok []
      else if visible snapshot clog header then .ok [(self_tid, values)]
      else if header.hot_updated = true ∧ header.t_ctid ≠ self_tid then
        match follow_hot_chain page page_id header.t_ctid snapshot clog with
        | .error e => .error e
        | .ok none => .ok []
        | .ok (some visible_tid) =>
          (values_at columns page visible_tid.slot_id
            "follow_hot_chain only returns readable slots").map fun chain_values =>
              [(visible_tid, chain_values)]
      else .ok []

def scan (columns : List ColumnType) (pages : PageId → Page) (relation_pages : List PageId)
    (snapshot : Snapshot) (clog : Clog) : Except HeapError (List (Tid × List (Option Datum))) :=
  collect_slots pages relation_pages (scan_slot columns snapshot clog)

end HeapAM

/-! ## Rows and links -/

/-- The rows of the relation. -/
def relation_rows (columns : List ColumnType) (relation_pages : List PageId)
    (pages : PageId → Page) (tid : Tid) : Option Row :=
  if tid.page_id ∈ relation_pages then view columns pages tid else none

/-- The version a row was HOT-updated to. -/
def hot_link (rows : Tid → Option Row) (tid : Tid) : Option Tid :=
  match rows tid with
  | some (h, _) => if h.hot_updated then some h.t_ctid else none
  | none => none

/-- The judgment on the row at a TID. -/
def visible_at (rows : Tid → Option Row) (snapshot : Snapshot) (clog : Clog) (tid : Tid) : Bool :=
  match rows tid with
  | some (h, _) => visible snapshot clog h
  | none => false

/-- The row is a chain member that slot scans pass over. -/
def heap_only_at (rows : Tid → Option Row) (tid : Tid) : Bool :=
  match rows tid with
  | some (h, _) => h.heap_only
  | none => false

/-- Links stay on their page, lead to chain members that are there, climb, and do not
meet. Nothing is asked of what `t_ctid` holds without the HOT bit. -/
structure WellLinked (rows : Tid → Option Row) (rank : Tid → ℕ) : Prop where
  same_page : ∀ a b, hot_link rows a = some b → b.page_id = a.page_id
  stored : ∀ a b, hot_link rows a = some b → ∃ r, rows b = some r
  heap_only : ∀ a b, hot_link rows a = some b → heap_only_at rows b = true
  climbs : ∀ a b, hot_link rows a = some b → rank a < rank b
  injective : ∀ a b c, hot_link rows a = some c → hot_link rows b = some c → a = b

section Links

variable {rows : Tid → Option Row} {rank : Tid → ℕ} {a b : Tid} {h : TupleHeader}
  {v : List (Option Datum)}

theorem hot_link_eq_some :
    hot_link rows a = some b ↔ ∃ h v, rows a = some (h, v) ∧ h.hot_updated = true ∧ h.t_ctid = b := by
  unfold hot_link
  cases hr : rows a with
  | none => simp
  | some r =>
    obtain ⟨h, v⟩ := r
    by_cases hu : h.hot_updated = true
    · simp [hu]
    · simp [hu]

theorem hot_link_of_row (hr : rows a = some (h, v)) :
    hot_link rows a = if h.hot_updated then some h.t_ctid else none := by
  rw [hot_link, hr]

theorem heap_only_at_of_row (hr : rows a = some (h, v)) : heap_only_at rows a = h.heap_only := by
  rw [heap_only_at, hr]

theorem visible_at_of_row {S : Snapshot} {clog : Clog} (hr : rows a = some (h, v)) :
    visible_at rows S clog a = visible S clog h := by
  rw [visible_at, hr]

namespace WellLinked

variable (hl : WellLinked rows rank)
include hl

theorem ctid_ne (hr : rows a = some (h, v)) (hu : h.hot_updated = true) : h.t_ctid ≠ a := by
  intro heq
  have hlink := hl.climbs a h.t_ctid (hot_link_eq_some.mpr ⟨h, v, hr, hu, rfl⟩)
  rw [heq] at hlink
  exact lt_irrefl _ hlink

theorem reach_page (hab : Reach (hot_link rows) a b) : b.page_id = a.page_id := by
  induction hab with
  | refl => rfl
  | tail _ hbc ih => rw [hl.same_page _ _ hbc, ih]

theorem reach_stored (ha : ∃ r, rows a = some r) (hab : Reach (hot_link rows) a b) :
    ∃ r, rows b = some r := by
  induction hab with
  | refl => exact ha
  | tail _ hbc _ => exact hl.stored _ _ hbc

/-- Nothing links to a row that slot scans see. -/
theorem head_of_not_heap_only (ha : heap_only_at rows a = false) (z : Tid) :
    hot_link rows z ≠ some a := by
  intro hz
  rw [hl.heap_only z a hz] at ha
  exact absurd ha (by decide)

end WellLinked

end Links

/-! ## A page of the relation -/

/-- `rows` on the page `page_id` are those of `page`. -/
structure PageRows (columns : List ColumnType) (rows : Tid → Option Row) (page_id : PageId)
    (page : Page) : Prop where
  sound : Sound columns page
  rows_eq : ∀ slot, rows ⟨page_id, slot⟩ = row_at columns page slot

variable {relation_pages : List PageId} {pages : PageId → Page}

theorem pageRows_relation {columns : List ColumnType} {page_id : PageId}
    (hs : Sound columns (pages page_id)) (hmem : page_id ∈ relation_pages) :
    PageRows columns (relation_rows columns relation_pages pages) page_id (pages page_id) :=
  ⟨hs, fun _ => if_pos hmem⟩

namespace PageRows

variable {columns : List ColumnType} {rows : Tid → Option Row} {page_id : PageId} {page : Page}
  {rank : Tid → ℕ} {tid : Tid} {slot : ℕ}
variable (hp : PageRows columns rows page_id page)
include hp

/-- A page that is not skipped as fresh is well formed. -/
theorem heapWf (hu : (header page).pd_upper ≠ 0) : HeapWf page := by
  rcases hp.sound.ok with rfl | hwf
  · exact absurd (by decide) hu
  · exact hwf

theorem slot_count_of_fresh (hu : (header page).pd_upper = 0) : slot_count page = 0 := by
  rcases hp.sound.ok with rfl | hwf
  · exact slot_count_zero
  · have hb := hwf.bounds
    omega

theorem slot_lt {r : Row} (hr : rows ⟨page_id, slot⟩ = some r) : slot < slot_count page := by
  by_contra hge
  rw [hp.rows_eq, row_at, content_eq_none (not_lt.mp hge)] at hr
  simp at hr

/-- A row on the page comes with its bytes. -/
theorem bytes_of_row {h : TupleHeader} {v : List (Option Datum)}
    (hr : rows ⟨page_id, slot⟩ = some (h, v)) :
    HeapWf page ∧ ∃ bytes, content page slot = some bytes ∧
      decode_tuple bytes columns = .ok (h, v) ∧ TupleHeader.read_from bytes = .ok h := by
  have hslot := hp.slot_lt hr
  have hwf : HeapWf page := by
    apply hp.heapWf
    intro hu
    rw [hp.slot_count_of_fresh hu] at hslot
    exact absurd hslot (Nat.not_lt_zero _)
  rw [hp.rows_eq] at hr
  obtain ⟨bytes, hc, hd⟩ := row_at_eq_some.mp hr
  exact ⟨hwf, bytes, hc, hd, (decode_tuple_eq_ok.mp hd).1⟩

theorem content_none (hr : rows ⟨page_id, slot⟩ = none) : content page slot = none := by
  rw [hp.rows_eq] at hr
  exact hp.sound.row_at_eq_none.mp hr

/-- `header_at` reads the row's header. -/
theorem header_at (hwf : HeapWf page) (slot : ℕ) :
    Ams.header_at page slot = .ok ((rows ⟨page_id, slot⟩).map Prod.fst) := by
  unfold Ams.header_at
  rw [hwf.toInv.tuple]
  cases hr : rows ⟨page_id, slot⟩ with
  | none => simp [hp.content_none hr]
  | some r =>
    obtain ⟨h, v⟩ := r
    obtain ⟨-, bytes, hc, -, hread⟩ := hp.bytes_of_row hr
    obtain ⟨hlen, hrange, hbytes⟩ := TupleHeader.write_to_read_from hread
    -- the first 64 bytes are the header's, and reading them gives it back
    have htake : TupleHeader.read_from (bytes.take 64) = .ok h := by
      rw [hbytes, List.take_left' (TupleHeader.length_write_to h)]
      have hself := TupleHeader.read_from_write_to hrange []
      rwa [List.append_nil] at hself
    simp [hc, htake]

theorem values_at {h : TupleHeader} {v : List (Option Datum)}
    (hr : rows ⟨page_id, slot⟩ = some (h, v)) (expect : String) :
    Ams.values_at columns page slot expect = .ok v := by
  obtain ⟨hwf, bytes, hc, hd, -⟩ := hp.bytes_of_row hr
  simp [Ams.values_at, hwf.toInv.tuple, hc, hd, Except.map]

/-- The slots of the page hold every chain on it. -/
theorem ends (hl : WellLinked rows rank) (hpage : tid.page_id = page_id)
    (hr : ∃ r, rows tid = some r) : Ends (hot_link rows) (slot_count page) tid := by
  apply @ends_of_climbing _ _ _ ℕ _ rank ((List.range (slot_count page)).map fun s => ⟨page_id, s⟩)
  · intro b hb
    obtain ⟨r, hrb⟩ := hl.reach_stored hr hb
    have hbp : b.page_id = page_id := by rw [hl.reach_page hb, hpage]
    obtain ⟨i, s⟩ := b
    obtain rfl : i = page_id := hbp
    exact List.mem_map.mpr ⟨s, List.mem_range.mpr (hp.slot_lt hrb), rfl⟩
  · exact fun b c _ hbc => hl.climbs b c hbc
  · rw [List.length_map, List.length_range]

/-- The forward walk finds what `first` finds. -/
theorem follow_hot_chain_from (hl : WellLinked rows rank) {S : Snapshot} {clog : Clog}
    {found : Option Tid} {n : ℕ} (hpage : tid.page_id = page_id) (hr : ∃ r, rows tid = some r)
    (hf : first (hot_link rows) (visible_at rows S clog) n tid = some found) :
    Ams.follow_hot_chain_from page page_id S clog n tid = .ok found := by
  induction n generalizing tid with
  | zero => simp [first] at hf
  | succ n ih =>
    obtain ⟨i, s⟩ := tid
    obtain rfl : i = page_id := hpage
    obtain ⟨⟨h, v⟩, hrow⟩ := hr
    have hwf := (hp.bytes_of_row hrow).1
    rw [first, visible_at_of_row hrow, hot_link_of_row hrow] at hf
    rw [Ams.follow_hot_chain_from, if_neg (by simp), hp.header_at hwf, hrow]
    simp only [Option.map_some]
    by_cases hv : visible S clog h = true
    · rw [if_pos hv] at hf ⊢
      rw [Option.some.inj hf]
    · rw [if_neg hv] at hf ⊢
      by_cases hu : h.hot_updated = true
      · have hlink := hot_link_eq_some.mpr ⟨h, v, hrow, hu, rfl⟩
        rw [if_pos ⟨hu, hl.ctid_ne hrow hu⟩]
        rw [if_pos hu] at hf
        exact ih (hl.same_page _ _ hlink) (hl.stored _ _ hlink) hf
      · rw [if_neg fun hc => hu hc.1]
        rw [if_neg hu] at hf
        rw [Option.some.inj hf]

end PageRows

/-! ## Scans -/

theorem collect_eq {α β ε : Type} {f : α → Except ε (List β)} {g : α → List β} {l : List α}
    (h : ∀ a ∈ l, f a = .ok (g a)) : collect f l = .ok (l.flatMap g) := by
  induction l with
  | nil => rfl
  | cons a rest ih =>
    rw [collect, h a (.head _), ih fun b hb => h b (.tail _ hb)]
    rfl

/-- The TIDs of the relation's slots, in scan order. -/
def slot_tids (pages : PageId → Page) (relation_pages : List PageId) : List Tid :=
  relation_pages.flatMap fun page_id =>
    (List.range (slot_count (pages page_id))).map fun slot => ⟨page_id, slot⟩

theorem mem_slot_tids {tid : Tid} :
    tid ∈ slot_tids pages relation_pages ↔
      tid.page_id ∈ relation_pages ∧ tid.slot_id < slot_count (pages tid.page_id) := by
  simp only [slot_tids, List.mem_flatMap, List.mem_map, List.mem_range]
  constructor
  · rintro ⟨i, hi, s, hs, rfl⟩
    exact ⟨hi, hs⟩
  · rintro ⟨hi, hs⟩
    exact ⟨_, hi, _, hs, rfl⟩

theorem slot_tids_nodup (hnd : relation_pages.Nodup) : (slot_tids pages relation_pages).Nodup := by
  refine List.nodup_flatMap.mpr ⟨fun i _ => ?_, hnd.imp fun {i j} hij => ?_⟩
  · exact List.nodup_range.map fun a b hab => (Tid.mk.inj hab).2
  · intro tid hi hj
    obtain ⟨s, -, rfl⟩ := List.mem_map.mp hi
    obtain ⟨t, -, ht⟩ := List.mem_map.mp hj
    exact hij (Tid.mk.inj ht).1.symm

section Relation

variable {columns : List ColumnType} {rows : Tid → Option Row} {pages : PageId → Page}
  {relation_pages : List PageId} {rank : Tid → ℕ}

theorem mem_relation_pages (hout : ∀ tid, tid.page_id ∉ relation_pages → rows tid = none)
    {tid : Tid} {r : Row} (hr : rows tid = some r) : tid.page_id ∈ relation_pages := by
  by_contra hnot
  rw [hout tid hnot] at hr
  simp at hr

/-- A loop over the slots of sound pages, each of which succeeds. -/
theorem collect_slots_eq {β : Type} {f : Page → PageId → ℕ → Except HeapError (List β)}
    {g : Tid → List β} (hp : ∀ i ∈ relation_pages, PageRows columns rows i (pages i))
    (h : ∀ i ∈ relation_pages, HeapWf (pages i) → ∀ slot, f (pages i) i slot = .ok (g ⟨i, slot⟩)) :
    collect_slots pages relation_pages f = .ok ((slot_tids pages relation_pages).flatMap g) := by
  have hflat : (slot_tids pages relation_pages).flatMap g = relation_pages.flatMap fun i =>
      (List.range (slot_count (pages i))).flatMap fun slot => g ⟨i, slot⟩ := by
    rw [slot_tids, List.flatMap_assoc]
    simp only [List.flatMap_map]
  rw [hflat]
  apply collect_eq
  intro i hi
  simp only
  split_ifs with hu
  · rw [(hp i hi).slot_count_of_fresh hu]
    rfl
  · exact collect_eq fun slot _ => h i hi ((hp i hi).heapWf hu) slot

/-- What a scan returns for one slot. -/
def scan_row (rows : Tid → Option Row) (snapshot : Snapshot) (clog : Clog) (hops : ℕ) (tid : Tid) :
    List (Tid × List (Option Datum)) :=
  match rows tid with
  | none => []
  | some (h, _) =>
    if h.heap_only then []
    else
      match first (hot_link rows) (visible_at rows snapshot clog) hops tid with
      | some (some t) => ((rows t).map fun r => (t, r.2)).toList
      | _ => []

theorem scan_row_nodup (rows : Tid → Option Row) (S : Snapshot) (clog : Clog) (n : ℕ) (tid : Tid) :
    ((scan_row rows S clog n tid).map Prod.fst).Nodup := by
  unfold scan_row
  split
  · exact List.nodup_nil
  split_ifs
  · exact List.nodup_nil
  split
  · next t _ =>
    cases rows t with
    | none => exact List.nodup_nil
    | some r => exact List.nodup_singleton _
  · exact List.nodup_nil

/-- `scan_slot` on a sound page with well-formed links. One hop more is counted here,
since the code looks at the root before it starts counting. -/
theorem scan_slot_eq {page_id : PageId} {page : Page} (hp : PageRows columns rows page_id page)
    (hl : WellLinked rows rank) (hwf : HeapWf page) (S : Snapshot) (clog : Clog) (slot : ℕ) :
    HeapAM.scan_slot columns S clog page page_id slot =
      .ok (scan_row rows S clog (slot_count page + 1) ⟨page_id, slot⟩) := by
  unfold HeapAM.scan_slot scan_row
  rw [hwf.toInv.tuple]
  cases hr : rows ⟨page_id, slot⟩ with
  | none => simp [hp.content_none hr]
  | some r =>
    obtain ⟨h, v⟩ := r
    obtain ⟨-, bytes, hc, hd, -⟩ := hp.bytes_of_row hr
    simp only [hc, hd]
    by_cases ho : h.heap_only = true
    · simp [ho]
    rw [if_neg ho, if_neg ho, first, visible_at_of_row hr, hot_link_of_row hr]
    by_cases hv : visible S clog h = true
    · simp [hv, hr]
    rw [if_neg hv, if_neg hv]
    by_cases hu : h.hot_updated = true
    · have hlink := hot_link_eq_some.mpr ⟨h, v, hr, hu, rfl⟩
      have hpage := hl.same_page _ _ hlink
      obtain ⟨found, hf⟩ := (hp.ends hl hpage (hl.stored _ _ hlink)).first (visible_at rows S clog)
      rw [if_pos ⟨hu, hl.ctid_ne hr hu⟩, follow_hot_chain,
        hp.follow_hot_chain_from hl hpage (hl.stored _ _ hlink) hf, if_pos hu]
      simp only [hf]
      cases found with
      | none => rfl
      | some t =>
        have hreach := (first_eq_some_some hf).1
        obtain ⟨⟨ht, vt⟩, hrt⟩ := hl.reach_stored (hl.stored _ _ hlink) hreach
        have htp : t.page_id = page_id := (hl.reach_page hreach).trans hpage
        obtain ⟨i, s⟩ := t
        obtain rfl : i = page_id := htp
        simp [hp.values_at hrt, hrt, Except.map]
    · rw [if_neg fun hcon => hu hcon.1, if_neg hu]

/-- `t` is the first version that `snapshot` sees on the chain of a row that slot
scans see. -/
structure FirstVisible (rows : Tid → Option Row) (snapshot : Snapshot) (clog : Clog) (root t : Tid) :
    Prop where
  stored : ∃ r, rows root = some r
  is_root : heap_only_at rows root = false
  reach : Reach (hot_link rows) root t
  visible : visible_at rows snapshot clog t = true
  earliest : ∀ b d, Reach (hot_link rows) root b → hot_link rows b = some d →
    Reach (hot_link rows) d t → visible_at rows snapshot clog b = false

/-- On a chain that ends, what a walk returns is the first cell that passes. -/
theorem mem_scan_row {S : Snapshot} {clog : Clog} {n : ℕ} {root t : Tid}
    {v : List (Option Datum)} (hl : WellLinked rows rank)
    (hends : ∀ r, rows root = some r → Ends (hot_link rows) n root) :
    (t, v) ∈ scan_row rows S clog n root ↔
      FirstVisible rows S clog root t ∧ ∃ h, rows t = some (h, v) := by
  unfold scan_row
  cases hr : rows root with
  | none =>
    simp only [List.not_mem_nil, false_iff]
    rintro ⟨⟨⟨r, hs⟩, -⟩, -⟩
    rw [hr] at hs
    simp at hs
  | some r =>
    obtain ⟨h, w⟩ := r
    simp only
    by_cases ho : h.heap_only = true
    · rw [if_pos ho]
      simp only [List.not_mem_nil, false_iff]
      rintro ⟨hf, -⟩
      have hroot := hf.is_root
      rw [heap_only_at_of_row hr, ho] at hroot
      exact absurd hroot (by decide)
    rw [if_neg ho]
    have hends := hends _ hr
    constructor
    · intro hmem
      split at hmem
      · next c hc =>
        obtain ⟨hreach, hvis⟩ := first_eq_some_some hc
        obtain ⟨⟨hc', vc⟩, hrc⟩ := hl.reach_stored ⟨_, hr⟩ hreach
        simp only [hrc, Option.map_some, Option.toList_some, List.mem_singleton,
          Prod.mk.injEq] at hmem
        obtain ⟨rfl, rfl⟩ := hmem
        exact ⟨⟨⟨_, hr⟩, by rw [heap_only_at_of_row hr]; simpa using ho, hreach, hvis,
          fun _ _ => hends.first_before hc⟩, hc', hrc⟩
      · simp at hmem
    · rintro ⟨hf, h', hrt⟩
      rw [hends.first_eq hf.reach hf.visible hf.earliest]
      simp [hrt]

/-- Two roots never find the same version. -/
theorem FirstVisible.root_unique {S : Snapshot} {clog : Clog} {r₁ r₂ t : Tid} (hl : WellLinked rows rank)
    (h1 : FirstVisible rows S clog r₁ t) (h2 : FirstVisible rows S clog r₂ t) : r₁ = r₂ :=
  Reach.head_unique hl.injective (hl.head_of_not_heap_only h1.is_root)
    (hl.head_of_not_heap_only h2.is_root) h1.reach h2.reach

/-- **Scan.** It returns the versions its roots find, each once, with their values. -/
theorem scan_spec (hp : ∀ i ∈ relation_pages, PageRows columns rows i (pages i))
    (hout : ∀ tid, tid.page_id ∉ relation_pages → rows tid = none) (hnd : relation_pages.Nodup)
    (hl : WellLinked rows rank) (S : Snapshot) (clog : Clog) :
    ∃ out, HeapAM.scan columns pages relation_pages S clog = .ok out ∧ (out.map Prod.fst).Nodup ∧
      ∀ t v, (t, v) ∈ out ↔ (∃ root, FirstVisible rows S clog root t) ∧ ∃ h, rows t = some (h, v) := by
  have hscan : HeapAM.scan columns pages relation_pages S clog = .ok
      ((slot_tids pages relation_pages).flatMap fun tid =>
        scan_row rows S clog (slot_count (pages tid.page_id) + 1) tid) :=
    collect_slots_eq hp fun i hi hwf slot => scan_slot_eq (hp i hi) hl hwf S clog slot
  have hrow : ∀ root t v, (t, v) ∈ scan_row rows S clog (slot_count (pages root.page_id) + 1) root ↔
      FirstVisible rows S clog root t ∧ ∃ h, rows t = some (h, v) := by
    intro root t v
    apply mem_scan_row hl
    intro r hr
    have hmem := mem_relation_pages hout hr
    exact ((hp _ hmem).ends hl rfl ⟨r, hr⟩).mono (Nat.le_succ _)
  refine ⟨_, hscan, ?_, fun t v => ?_⟩
  · rw [List.map_flatMap]
    refine List.nodup_flatMap.mpr ⟨fun root _ => ?_, (slot_tids_nodup hnd).imp fun {r₁ r₂} hne => ?_⟩
    · exact scan_row_nodup _ _ _ _ _
    · intro t h1 h2
      obtain ⟨⟨t₁, v₁⟩, hm1, rfl⟩ := List.mem_map.mp h1
      obtain ⟨⟨t₂, v₂⟩, hm2, heq⟩ := List.mem_map.mp h2
      obtain rfl : t₂ = t₁ := heq
      exact hne (((hrow _ _ _).mp hm1).1.root_unique hl ((hrow _ _ _).mp hm2).1)
  · simp only [List.mem_flatMap]
    constructor
    · rintro ⟨root, -, hmem⟩
      obtain ⟨hf, hv⟩ := (hrow _ _ _).mp hmem
      exact ⟨⟨root, hf⟩, hv⟩
    · rintro ⟨⟨root, hf⟩, hv⟩
      obtain ⟨r, hr⟩ := hf.stored
      have hmem := mem_relation_pages hout hr
      have hlt : root.slot_id < slot_count (pages root.page_id) := (hp _ hmem).slot_lt hr
      exact ⟨root, mem_slot_tids.mpr ⟨hmem, hlt⟩, (hrow _ _ _).mpr ⟨hf, hv⟩⟩

end Relation

/-! ## Roots -/

namespace PageRows

variable {columns : List ColumnType} {rows : Tid → Option Row} {page_id : PageId} {page : Page}
  {rank : Tid → ℕ} {tid : Tid} {slot : ℕ}
variable (hp : PageRows columns rows page_id page)
include hp

/-- The reverse map after some slots: an entry is a slot that links there, and what
has no entry of its own keeps the one it had. -/
theorem hot_links (hwf : HeapWf page) (slots : List ℕ) (links₀ : Tid → Option ℕ) :
    ∃ links, Ams.hot_links page slots links₀ = .ok links ∧ ∀ t,
      (∃ s ∈ slots, links t = some s ∧ hot_link rows ⟨page_id, s⟩ = some t) ∨
      (links t = links₀ t ∧ ∀ s ∈ slots, hot_link rows ⟨page_id, s⟩ ≠ some t) := by
  induction slots generalizing links₀ with
  | nil => exact ⟨links₀, rfl, fun t => .inr ⟨rfl, by simp⟩⟩
  | cons s rest ih =>
    -- a slot without a link changes nothing
    have hskip : hot_link rows ⟨page_id, s⟩ = none →
        ∃ links, Ams.hot_links page rest links₀ = .ok links ∧ ∀ t,
          (∃ r ∈ s :: rest, links t = some r ∧ hot_link rows ⟨page_id, r⟩ = some t) ∨
          (links t = links₀ t ∧ ∀ r ∈ s :: rest, hot_link rows ⟨page_id, r⟩ ≠ some t) := by
      intro hnone
      obtain ⟨links, hlinks, hspec⟩ := ih links₀
      refine ⟨links, hlinks, fun t => ?_⟩
      rcases hspec t with ⟨r, hr, h⟩ | ⟨h1, h2⟩
      · exact .inl ⟨r, List.mem_cons_of_mem _ hr, h⟩
      · refine .inr ⟨h1, fun r hr => ?_⟩
        rcases List.mem_cons.mp hr with rfl | hr
        · rw [hnone]
          simp
        · exact h2 r hr
    rw [Ams.hot_links, hp.header_at hwf]
    cases hr : rows ⟨page_id, s⟩ with
    | none => exact hskip (by rw [hot_link, hr])
    | some r =>
      obtain ⟨h, v⟩ := r
      simp only [Option.map_some]
      by_cases hu : h.hot_updated = true
      · rw [if_pos hu]
        have hs : hot_link rows ⟨page_id, s⟩ = some h.t_ctid :=
          hot_link_eq_some.mpr ⟨h, v, hr, hu, rfl⟩
        obtain ⟨links, hlinks, hspec⟩ := ih (Function.update links₀ h.t_ctid (some s))
        refine ⟨links, hlinks, fun t => ?_⟩
        rcases hspec t with ⟨r, hr, h⟩ | ⟨h1, h2⟩
        · exact .inl ⟨r, List.mem_cons_of_mem _ hr, h⟩
        · by_cases ht : t = h.t_ctid
          · subst ht
            rw [Function.update_self] at h1
            exact .inl ⟨s, (.head _), h1, hs⟩
          · rw [Function.update_of_ne ht] at h1
            refine .inr ⟨h1, fun r hr => ?_⟩
            rcases List.mem_cons.mp hr with rfl | hr
            · rw [hs]
              exact fun heq => ht (Option.some.inj heq).symm
            · exact h2 r hr
      · rw [if_neg hu]
        exact hskip (by rw [hot_link_of_row hr, if_neg hu])

/-- The backward walk goes up along the reverse map. -/
theorem hot_chain_root_from (hwf : HeapWf page) {links : Tid → Option ℕ}
    (hlinks : ∀ t s, links t = some s → ∃ r, rows ⟨page_id, s⟩ = some r) {root : Tid} {n : ℕ}
    (hpage : tid.page_id = page_id) (hr : ∃ r, rows tid = some r)
    (hroot : ascend (fun t => (links t).map fun s => (⟨page_id, s⟩ : Tid))
      (fun t => !heap_only_at rows t) n tid = some root) :
    Ams.hot_chain_root_from page page_id links n tid = .ok root := by
  induction n generalizing tid with
  | zero => simp [ascend] at hroot
  | succ n ih =>
    obtain ⟨i, s⟩ := tid
    obtain rfl : i = page_id := hpage
    obtain ⟨⟨h, v⟩, hrow⟩ := hr
    rw [ascend, heap_only_at_of_row hrow] at hroot
    rw [Ams.hot_chain_root_from, hp.header_at hwf, hrow]
    simp only [Option.map_some]
    by_cases ho : h.heap_only = true
    · rw [if_pos ho]
      rw [if_neg (by simp [ho])] at hroot
      cases hlink : links ⟨i, s⟩ with
      | none =>
        simp only [hlink, Option.map_none, Option.some.injEq] at hroot
        rw [hroot]
      | some p =>
        simp only [hlink, Option.map_some] at hroot
        exact ih rfl (hlinks _ _ hlink) hroot
    · rw [if_neg ho]
      rw [if_pos (by simp [ho])] at hroot
      rw [Option.some.inj hroot]

/-- **The root** of a row's chain: the walk back finds the version that nothing links
to. -/
theorem hot_chain_root (hl : WellLinked rows rank) (hpage : tid.page_id = page_id)
    (hr : ∃ r, rows tid = some r) :
    ∃ root, Ams.hot_chain_root page page_id tid = .ok root ∧ Reach (hot_link rows) root tid ∧
      ∀ z, hot_link rows z ≠ some root := by
  obtain ⟨i, s⟩ := tid
  obtain rfl : i = page_id := hpage
  have hwf : HeapWf page := by
    obtain ⟨⟨h, v⟩, hrow⟩ := hr
    exact (hp.bytes_of_row hrow).1
  obtain ⟨links, hlinks, hspec⟩ := hp.hot_links hwf (List.range (slot_count page)) fun _ => none
  set prev : Tid → Option Tid := fun t => (links t).map fun s => (⟨i, s⟩ : Tid) with hprev
  -- an entry of the map is a link, and every link has one
  have hback : ∀ b c, prev b = some c → hot_link rows c = some b := by
    intro b c hbc
    obtain ⟨r, hr, rfl⟩ := Option.map_eq_some_iff.mp hbc
    rcases hspec b with ⟨r', -, hr', hlink⟩ | ⟨h1, -⟩
    · obtain rfl : r = r' := Option.mem_unique hr hr'
      exact hlink
    · rw [hr] at h1
      simp at h1
  have hhead : ∀ t, t.page_id = i → prev t = none → ∀ z, hot_link rows z ≠ some t := by
    intro t ht hnone z hz
    obtain ⟨h, v, hrow, -⟩ := hot_link_eq_some.mp hz
    have hzp : z.page_id = i := by rw [← hl.same_page z t hz, ht]
    obtain ⟨zi, zs⟩ := z
    obtain rfl : zi = i := hzp
    have hlinks_none : links t = none := Option.map_eq_none_iff.mp hnone
    rcases hspec t with ⟨r, -, hr, -⟩ | ⟨-, hno⟩
    · rw [hlinks_none] at hr
      simp at hr
    · exact hno zs (List.mem_range.mpr (hp.slot_lt hrow)) hz
  have hstored : ∀ b c, prev b = some c → (∃ r, rows c = some r) ∧ c.page_id = i := by
    intro b c hbc
    obtain ⟨h, v, hrow, -⟩ := hot_link_eq_some.mp (hback b c hbc)
    refine ⟨⟨_, hrow⟩, ?_⟩
    obtain ⟨r, -, rfl⟩ := Option.map_eq_some_iff.mp hbc
    rfl
  have hends : Ends prev (slot_count page) ⟨i, s⟩ := by
    apply @ends_of_climbing _ _ _ ℕᵒᵈ _ (fun t => OrderDual.toDual (rank t))
      ((List.range (slot_count page)).map fun s => ⟨i, s⟩)
    · intro b hb
      have hb' : (∃ r, rows b = some r) ∧ b.page_id = i := by
        rcases hb.cases_tail with rfl | ⟨c, -, hc⟩
        · exact ⟨hr, rfl⟩
        · exact hstored c b hc
      obtain ⟨⟨r, hrb⟩, hbp⟩ := hb'
      obtain ⟨bi, bs⟩ := b
      obtain rfl : bi = i := hbp
      exact List.mem_map.mpr ⟨bs, List.mem_range.mpr (hp.slot_lt hrb), rfl⟩
    · exact fun b c _ hbc => hl.climbs c b (hback b c hbc)
    · rw [List.length_map, List.length_range]
  obtain ⟨root, hroot, hreach, hstop⟩ := hends.ascend (fun t => !heap_only_at rows t) hback
  refine ⟨root, ?_, hreach, ?_⟩
  · rw [Ams.hot_chain_root, hlinks]
    refine hp.hot_chain_root_from hwf (fun t s hts => ?_) rfl hr hroot
    exact (hstored t ⟨i, s⟩ (by rw [hprev]; simp [hts])).1
  · rcases hstop with hno | hnone
    · exact hl.head_of_not_heap_only (by simpa using hno)
    · exact hhead root (hl.reach_page hreach).symm hnone

end PageRows

end Ams
