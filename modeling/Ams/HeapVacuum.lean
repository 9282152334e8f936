/-
Vacuum: `scan_dead_tuples`, `classify_dead_tuples` and `reclaim` of
`pg-am-heap/src/heap_am.rs`.

A dead tuple may still be a link of a HOT chain that leads to a live one, so vacuum
kills whole chains or nothing. `classify_dead_tuples` finds the root of each dead
tuple's chain, collects the chain, and takes it if every member is dead. The kill
list of a page is then a union of whole chains (`Killable`), which is all that the
version store needs to know about it.

`reclaim` compacts page by page and may stop at any of them, when a compaction or the
page allocator fails. What it has done by then is to drop the kill lists of the pages
it got to: `reclaim_spec`.
-/
import Ams.HotChain
import Ams.VacuumHorizon

set_option autoImplicit false

namespace Ams

open Ams.Lib SlottedPage Relation

/-! ## The code -/

namespace HeapAM

/-- The header of a tuple for vacuum, which passes over what it cannot read. -/
def readable_header (page : Page) (slot : ℕ) : Except HeapError (Option TupleHeader) :=
  (tuple page slot).map fun bytes? => bytes?.bind fun bytes => (TupleHeader.read_from bytes).toOption

def scan_dead_tuples (pages : PageId → Page) (relation_pages : List PageId) (oldest_xmin : TxnId)
    (clog : Clog) : Except HeapError (List Tid) :=
  collect_slots pages relation_pages fun page page_id slot =>
    (readable_header page slot).map fun header? =>
      match header? with
      | some header => if tuple_is_dead oldest_xmin clog header then [⟨page_id, slot⟩] else []
      | none => []

/-- The reclaimable part of a dead list: the index entries to drop, and the slots to
kill on each page. -/
structure DeadClassification where
  index_keys : List (Tid × List (Option Datum))
  kills : OrdMap PageId (List ℕ)

/-- The forward link `classify_dead_tuples` follows. -/
def chain_next (page_id : PageId) (headers : List (Option TupleHeader)) (cur : Tid) : Option Tid :=
  match headers.getD cur.slot_id none with
  | some h =>
    if h.hot_updated = true ∧ h.t_ctid ≠ cur ∧ h.t_ctid.page_id = page_id then some h.t_ctid
    else none
  | none => none

/-- The dead slots of one page, in ascending order, with the slots seen so far and the
index entries and kills found so far. -/
def classify_slots (columns : List ColumnType) (page : Page) (page_id : PageId)
    (headers : List (Option TupleHeader)) (dead_set : List Tid) :
    List ℕ → List ℕ → List (Tid × List (Option Datum)) → List ℕ →
      Except HeapError (List (Tid × List (Option Datum)) × List ℕ)
  | [], _, index_keys, kills => .ok (index_keys, kills)
  | slot :: rest, visited, index_keys, kills =>
    if slot_count page ≤ slot ∨ slot ∈ visited then
      classify_slots columns page page_id headers dead_set rest visited index_keys kills
    else
      match headers.getD slot none with
      | none =>
        classify_slots columns page page_id headers dead_set rest (slot :: visited) index_keys kills
      | some header =>
        let tid : Tid := ⟨page_id, slot⟩
        match if header.heap_only then hot_chain_root page page_id tid else .ok tid with
        | .error e => .error e
        | .ok root =>
          match trail (chain_next page_id headers) (slot_count page) root with
          | none =>
            .error (.Corrupted
              s!"HOT chain on page {page_id} exceeds {slot_count page} hops (cycle?)")
          | some chain =>
            let visited := chain.map Tid.slot_id ++ slot :: visited
            let fully_dead := chain.all fun t =>
              (headers.getD t.slot_id none).isSome && decide (t ∈ dead_set)
            if fully_dead then
              match values_at columns page root.slot_id
                "fully-dead chain root passed the decodable check" with
              | .error e => .error e
              | .ok values =>
                classify_slots columns page page_id headers dead_set rest visited
                  (index_keys ++ [(root, values)]) (kills ++ chain.map Tid.slot_id)
            else
              classify_slots columns page page_id headers dead_set rest visited index_keys kills

/-- The pages of the dead list in order. A page gets an entry when something on it can
be killed, with its slots in ascending order. -/
def classify_pages (columns : List ColumnType) (pages : PageId → Page) (dead : List Tid) :
    List (PageId × List ℕ) → DeadClassification → Except HeapError DeadClassification
  | [], out => .ok out
  | (page_id, dead_slots) :: rest, out =>
    let page := pages page_id
    if (header page).pd_upper = 0 then classify_pages columns pages dead rest out
    else
      match collect (fun slot => (readable_header page slot).map fun h => [h])
        (List.range (slot_count page)) with
      | .error e => .error e
      | .ok headers =>
        match classify_slots columns page page_id headers dead
          (dead_slots.insertionSort (· ≤ ·)) [] out.index_keys [] with
        | .error e => .error e
        | .ok (index_keys, kills) =>
          classify_pages columns pages dead rest
            { index_keys
              kills :=
                if kills = [] then out.kills
                else out.kills.insert page_id (kills.insertionSort (· ≤ ·)).dedup }

/-- The dead list grouped by page. -/
def by_page (dead : List Tid) : OrdMap PageId (List ℕ) :=
  dead.foldl (fun m tid => m.insert tid.page_id ((m.get? tid.page_id).getD [] ++ [tid.slot_id]))
    OrdMap.empty

def classify_dead_tuples (columns : List ColumnType) (pages : PageId → Page) (dead : List Tid) :
    Except HeapError DeadClassification :=
  classify_pages columns pages dead (by_page dead).toList ⟨[], OrdMap.empty⟩

/-- How many of the slots are in use. -/
def count_used (page : Page) : List ℕ → Except HeapError ℕ
  | [] => .ok 0
  | slot :: rest =>
    match line_pointer page slot with
    | .error e => .error e
    | .ok lp => (count_used page rest).map fun live => if lp.flags ≠ .Unused then live + 1 else live

/-- What a pass leaves: the pages, the relation's page list, and what it returned. -/
structure Reclaimed where
  pages : PageId → Page
  relation_pages : List PageId
  result : Except HeapError Unit

/-- The loop of `reclaim`. `chain_pages` is the page list at the start of the pass and
`removed` the pages spliced out since; `lsn` gives the LSN of each page's record and
`free_page` what the allocator answers. -/
def reclaim_pages (rel_oid : Oid) (first_page : PageId) (chain_pages : List PageId)
    (lsn : PageId → Lsn) (free_page : PageId → Except HeapError Unit) :
    List (PageId × List ℕ) → (PageId → Page) → List PageId → List PageId → Option Reclaimed
  | [], pages, relation_pages, _ => some ⟨pages, relation_pages, .ok ()⟩
  | (page_id, kills) :: rest, pages, relation_pages, removed =>
    let page := pages page_id
    match count_used page (List.range (slot_count page)) with
    | .error e => some ⟨pages, relation_pages, .error e⟩
    | .ok live =>
      match next_page page with
      | .error e => some ⟨pages, relation_pages, .error e⟩
      | .ok next =>
        if live = kills.length ∧ page_id ≠ first_page then
          match chain_pages.idxOf? page_id with
          | none =>
            some ⟨pages, relation_pages, .error (.Corrupted
              s!"page {page_id} of rel {rel_oid} missing from the chain-order page cache")⟩
          | some pos =>
            match (chain_pages.take pos).reverse.find? fun p => decide (p ∉ removed) with
            | none =>
              some ⟨pages, relation_pages, .error (.Corrupted
                s!"page {page_id} of rel {rel_oid} has no live predecessor in the chain")⟩
            | some prev =>
              match compact_page pages (lsn page_id) page_id kills prev
                (next.getD PageId.INVALID) with
              | none => none
              | some o =>
                match o.result with
                | .error e => some ⟨o.pages, relation_pages, .error e⟩
                | .ok _ =>
                  let relation_pages := relation_pages.filter fun p => decide (p ≠ page_id)
                  match free_page page_id with
                  | .error e => some ⟨o.pages, relation_pages, .error e⟩
                  | .ok () =>
                    reclaim_pages rel_oid first_page chain_pages lsn free_page rest o.pages
                      relation_pages (page_id :: removed)
        else
          match compact_page pages (lsn page_id) page_id kills PageId.INVALID PageId.INVALID with
          | none => none
          | some o =>
            match o.result with
            | .error e => some ⟨o.pages, relation_pages, .error e⟩
            | .ok _ =>
              reclaim_pages rel_oid first_page chain_pages lsn free_page rest o.pages
                relation_pages removed

def reclaim (columns : List ColumnType) (rel_oid : Oid) (first_page : PageId)
    (lsn : PageId → Lsn) (free_page : PageId → Except HeapError Unit) (pages : PageId → Page)
    (relation_pages : List PageId) (dead : List Tid) : Option Reclaimed :=
  match classify_dead_tuples columns pages dead with
  | .error e => some ⟨pages, relation_pages, .error e⟩
  | .ok classification =>
    reclaim_pages rel_oid first_page relation_pages lsn free_page classification.kills.toList pages
      relation_pages []

end HeapAM

/-! ## The dead list -/

/-- `readable_header` reads the row's header. -/
theorem PageRows.readable_header {columns : List ColumnType} {rows : Tid → Option Row}
    {page_id : PageId} {page : Page} (hp : PageRows columns rows page_id page) (hwf : HeapWf page)
    (slot : ℕ) :
    HeapAM.readable_header page slot = .ok ((rows ⟨page_id, slot⟩).map Prod.fst) := by
  unfold HeapAM.readable_header
  rw [hwf.toInv.tuple]
  cases hr : rows ⟨page_id, slot⟩ with
  | none => simp [hp.content_none hr, Except.map]
  | some r =>
    obtain ⟨h, v⟩ := r
    obtain ⟨-, bytes, hc, -, hread⟩ := hp.bytes_of_row hr
    simp [hc, hread, Except.map, Except.toOption]

section Classify

variable {columns : List ColumnType} {rows : Tid → Option Row} {pages : PageId → Page}
  {relation_pages : List PageId} {rank : Tid → ℕ}

/-- The dead list holds the dead rows. -/
theorem scan_dead_tuples_spec (hp : ∀ i ∈ relation_pages, PageRows columns rows i (pages i))
    (hout : ∀ tid, tid.page_id ∉ relation_pages → rows tid = none) (oldest_xmin : TxnId)
    (clog : Clog) :
    ∃ dead, HeapAM.scan_dead_tuples pages relation_pages oldest_xmin clog = .ok dead ∧
      ∀ tid, tid ∈ dead ↔
        ∃ h v, rows tid = some (h, v) ∧ tuple_is_dead oldest_xmin clog h = true := by
  refine ⟨_, @collect_slots_eq _ _ _ _ _ _ (fun tid => match (rows tid).map Prod.fst with
    | some header => if tuple_is_dead oldest_xmin clog header then [tid] else []
    | none => []) hp fun i hi hwf slot => ?_, fun tid => ?_⟩
  · rw [(hp i hi).readable_header hwf]
    rfl
  · rw [List.mem_flatMap]
    constructor
    · rintro ⟨a, -, ha⟩
      cases hr : rows a with
      | none => simp [hr] at ha
      | some r =>
        obtain ⟨h, v⟩ := r
        simp only [hr, Option.map_some] at ha
        split_ifs at ha with hd
        · rw [List.mem_singleton.mp ha]
          exact ⟨h, v, hr, hd⟩
        · simp at ha
    · rintro ⟨h, v, hr, hd⟩
      have hmem := mem_relation_pages hout hr
      exact ⟨tid, mem_slot_tids.mpr ⟨hmem, (hp _ hmem).slot_lt hr⟩, by simp [hr, hd]⟩

/-! ## Whole chains -/

/-- A kill list of whole chains: its slots hold dead rows, and a link has both ends on
the list or neither. -/
structure Killable (rows : Tid → Option Row) (dead : List Tid) (page_id : PageId)
    (kills : List ℕ) : Prop where
  dead : ∀ s ∈ kills, (⟨page_id, s⟩ : Tid) ∈ dead
  stored : ∀ s ∈ kills, ∃ r, rows ⟨page_id, s⟩ = some r
  closed : ∀ a b, hot_link rows a = some b → a.page_id = page_id →
    (a.slot_id ∈ kills ↔ b.slot_id ∈ kills)

theorem Killable.nil (dead : List Tid) (page_id : PageId) : Killable rows dead page_id [] :=
  ⟨by simp, by simp, by simp⟩

variable {dead : List Tid} {page_id : PageId} {kills : List ℕ}

/-- Only membership matters. -/
theorem Killable.congr {kills' : List ℕ} (hk : Killable rows dead page_id kills)
    (h : ∀ s, s ∈ kills' ↔ s ∈ kills) :
    Killable rows dead page_id kills' := by
  refine ⟨fun s hs => hk.dead s ((h s).mp hs), fun s hs => hk.stored s ((h s).mp hs), ?_⟩
  intro a b hab ha
  rw [h, h]
  exact hk.closed a b hab ha

/-- Adding the chain of a root that nothing links to. -/
theorem Killable.append_chain (hk : Killable rows dead page_id kills) (hl : WellLinked rows rank)
    {root : Tid} (hroot : ∃ r, rows root = some r) (hpage : root.page_id = page_id)
    (hhead : ∀ z, hot_link rows z ≠ some root) {chain : List Tid}
    (hchain : ∀ b, b ∈ chain ↔ Reach (hot_link rows) root b) (hdead : ∀ t ∈ chain, t ∈ dead) :
    Killable rows dead page_id (kills ++ chain.map Tid.slot_id) := by
  have hon : ∀ t ∈ chain, t = ⟨page_id, t.slot_id⟩ := by
    intro t ht
    have htp : t.page_id = page_id := (hl.reach_page ((hchain t).mp ht)).trans hpage
    rw [← htp]
  -- on this page, a slot of the chain is a TID of the chain
  have hmem : ∀ a : Tid, a.page_id = page_id → (a.slot_id ∈ chain.map Tid.slot_id ↔ a ∈ chain) := by
    intro a ha
    rw [List.mem_map]
    constructor
    · rintro ⟨t, ht, hts⟩
      have heq := hon t ht
      rw [hts, ← ha] at heq
      rwa [heq] at ht
    · exact fun h => ⟨a, h, rfl⟩
  refine ⟨fun s hs => ?_, fun s hs => ?_, fun a b hab ha => ?_⟩
  · rcases List.mem_append.mp hs with hs | hs
    · exact hk.dead s hs
    · exact hdead _ ((hmem ⟨page_id, s⟩ rfl).mp hs)
  · rcases List.mem_append.mp hs with hs | hs
    · exact hk.stored s hs
    · exact hl.reach_stored hroot ((hchain _).mp ((hmem ⟨page_id, s⟩ rfl).mp hs))
  · have hb : b.page_id = page_id := (hl.same_page a b hab).trans ha
    rw [List.mem_append, List.mem_append, hk.closed a b hab ha, hmem a ha, hmem b hb, hchain, hchain]
    apply or_congr_right
    constructor
    · exact fun h => h.tail hab
    · exact fun h => h.pred hl.injective hhead hab

variable {page : Page}

/-- The root of a dead row's chain, as `classify_dead_tuples` looks it up. -/
theorem PageRows.classified_root (hp : PageRows columns rows page_id page)
    (hl : WellLinked rows rank) {slot : ℕ} {h : TupleHeader} {v : List (Option Datum)}
    (hr : rows ⟨page_id, slot⟩ = some (h, v)) :
    ∃ root, (if h.heap_only then Ams.hot_chain_root page page_id ⟨page_id, slot⟩
        else .ok ⟨page_id, slot⟩) = .ok root ∧ (∃ r, rows root = some r) ∧
      root.page_id = page_id ∧ ∀ z, hot_link rows z ≠ some root := by
  by_cases ho : h.heap_only = true
  · obtain ⟨root, hroot, hreach, hhead⟩ := hp.hot_chain_root hl rfl ⟨_, hr⟩
    refine ⟨root, by rw [if_pos ho, hroot], ?_, (hl.reach_page hreach).symm, hhead⟩
    -- a root that is not the row itself has a link
    rcases hreach.cases_head with rfl | ⟨c, hc, -⟩
    · exact ⟨_, hr⟩
    · obtain ⟨h', v', hr', -⟩ := hot_link_eq_some.mp hc
      exact ⟨_, hr'⟩
  · refine ⟨_, if_neg ho, ⟨_, hr⟩, rfl, hl.head_of_not_heap_only ?_⟩
    rw [heap_only_at_of_row hr]
    exact Bool.eq_false_iff.mpr ho

/-- The chain `classify_dead_tuples` collects. -/
theorem PageRows.classified_chain (hp : PageRows columns rows page_id page)
    (hl : WellLinked rows rank) {headers : List (Option TupleHeader)}
    (hheaders : ∀ slot, headers.getD slot none = (rows ⟨page_id, slot⟩).map Prod.fst) {root : Tid}
    (hr : ∃ r, rows root = some r) (hpage : root.page_id = page_id) :
    ∃ chain, trail (HeapAM.chain_next page_id headers) (slot_count page) root = some chain ∧
      ∀ b, b ∈ chain ↔ Reach (hot_link rows) root b := by
  have hnext : ∀ b, Reach (hot_link rows) root b →
      HeapAM.chain_next page_id headers b = hot_link rows b := by
    intro b hb
    have hbp : b.page_id = page_id := (hl.reach_page hb).trans hpage
    obtain ⟨⟨h, v⟩, hrb⟩ := hl.reach_stored hr hb
    obtain ⟨i, s⟩ := b
    obtain rfl : i = page_id := hbp
    rw [HeapAM.chain_next, hheaders, hrb, hot_link_of_row hrb]
    simp only [Option.map_some]
    by_cases hu : h.hot_updated = true
    · have hlink := hot_link_eq_some.mpr ⟨h, v, hrb, hu, rfl⟩
      rw [if_pos ⟨hu, hl.ctid_ne hrb hu, hl.same_page _ _ hlink⟩, if_pos hu]
    · rw [if_neg fun hc => hu hc.1, if_neg hu]
  rw [trail_congr hnext]
  exact (hp.ends hl hpage hr).trail

/-- One page's loop keeps its kill list made of whole chains. -/
theorem classify_slots_spec (hp : PageRows columns rows page_id page) (hl : WellLinked rows rank)
    {headers : List (Option TupleHeader)}
    (hheaders : ∀ slot, headers.getD slot none = (rows ⟨page_id, slot⟩).map Prod.fst)
    (dead : List Tid) (slots : List ℕ) :
    ∀ visited keys kills, Killable rows dead page_id kills →
      ∃ keys' kills', HeapAM.classify_slots columns page page_id headers dead slots visited keys
        kills = .ok (keys', kills') ∧ Killable rows dead page_id kills' := by
  induction slots with
  | nil => exact fun visited keys kills hk => ⟨keys, kills, rfl, hk⟩
  | cons slot rest ih =>
    intro visited keys kills hk
    rw [HeapAM.classify_slots]
    split_ifs with hskip
    · exact ih visited keys kills hk
    rw [hheaders]
    cases hr : rows ⟨page_id, slot⟩ with
    | none => exact ih _ keys kills hk
    | some r =>
      obtain ⟨h, v⟩ := r
      simp only [Option.map_some]
      obtain ⟨root, hroot, hstored, hpage, hhead⟩ := hp.classified_root hl hr
      obtain ⟨chain, hchain, hmem⟩ := hp.classified_chain hl hheaders hstored hpage
      rw [hroot]
      simp only [hchain]
      split_ifs with hdead
      · obtain ⟨⟨hd, vr⟩, hrow⟩ := hstored
        obtain ⟨i, s⟩ := root
        obtain rfl : i = page_id := hpage
        rw [hp.values_at hrow]
        apply ih
        refine hk.append_chain hl ⟨_, hrow⟩ rfl hhead hmem fun t ht => ?_
        have hall := List.all_eq_true.mp hdead t ht
        rw [Bool.and_eq_true] at hall
        exact of_decide_eq_true hall.2
      · exact ih _ keys kills hk

/-- The headers `classify_dead_tuples` reads from a page. -/
theorem PageRows.headers (hp : PageRows columns rows page_id page) (hwf : HeapWf page) :
    ∃ headers, collect (fun slot => (HeapAM.readable_header page slot).map fun h => [h])
        (List.range (slot_count page)) = .ok headers ∧
      ∀ slot, headers.getD slot none = (rows ⟨page_id, slot⟩).map Prod.fst := by
  refine ⟨_, collect_eq fun slot _ => by rw [hp.readable_header hwf]; rfl, fun slot => ?_⟩
  rw [← List.map_eq_flatMap, List.getD_eq_getElem?_getD, List.getElem?_map]
  by_cases hs : slot < slot_count page
  · rw [List.getElem?_range hs]
    rfl
  · have hnone : rows ⟨page_id, slot⟩ = none := by
      by_contra hsome
      obtain ⟨r, hr⟩ := Option.ne_none_iff_exists'.mp hsome
      exact hs (hp.slot_lt hr)
    rw [List.getElem?_eq_none (by rw [List.length_range]; exact not_lt.mp hs), hnone]
    rfl

/-- An entry of the kill map that can be carried out. -/
structure KillEntry (rows : Tid → Option Row) (relation_pages : List PageId) (dead : List Tid)
    (page_id : PageId) (kills : List ℕ) : Prop extends Killable rows dead page_id kills where
  page_mem : page_id ∈ relation_pages
  ascending : kills.Pairwise (· < ·)

theorem KillEntry.sorted (hk : Killable rows dead page_id kills) (hmem : page_id ∈ relation_pages) :
    KillEntry rows relation_pages dead page_id (kills.insertionSort (· ≤ ·)).dedup := by
  refine ⟨hk.congr fun s => ?_, hmem, ?_⟩
  · rw [List.mem_dedup, List.mem_insertionSort]
  · have hle : ((kills.insertionSort (· ≤ ·)).dedup).Pairwise (· ≤ ·) :=
      (List.pairwise_insertionSort (· ≤ ·) kills).sublist (List.dedup_sublist _)
    exact hle.imp₂ (fun a b hab hne => lt_of_le_of_ne hab hne) (List.nodup_dedup _)

theorem classify_pages_spec (hp : ∀ i ∈ relation_pages, PageRows columns rows i (pages i))
    (hl : WellLinked rows rank) (dead : List Tid) {groups : List (PageId × List ℕ)}
    (hgroups : ∀ g ∈ groups, g.1 ∈ relation_pages) {out : HeapAM.DeadClassification}
    (hout : ∀ i ks, out.kills.get? i = some ks → KillEntry rows relation_pages dead i ks) :
    ∃ c, HeapAM.classify_pages columns pages dead groups out = .ok c ∧
      ∀ i ks, c.kills.get? i = some ks → KillEntry rows relation_pages dead i ks := by
  induction groups generalizing out with
  | nil => exact ⟨out, rfl, hout⟩
  | cons g rest ih =>
    obtain ⟨i, dead_slots⟩ := g
    have hi : i ∈ relation_pages := hgroups _ (.head _)
    have hrest : ∀ g ∈ rest, g.1 ∈ relation_pages := fun g hg =>
      hgroups g (.tail _ hg)
    rw [HeapAM.classify_pages]
    split_ifs with hu
    · exact ih hrest hout
    have hwf := (hp i hi).heapWf hu
    obtain ⟨headers, hcollect, hheaders⟩ := (hp i hi).headers hwf
    obtain ⟨keys, kills, hslots, hk⟩ := classify_slots_spec (hp i hi) hl hheaders dead
      (dead_slots.insertionSort (· ≤ ·)) [] out.index_keys [] (Killable.nil dead i)
    simp only [hcollect, hslots]
    apply ih hrest
    intro j ks hj
    by_cases hnil : kills = []
    · rw [if_pos hnil] at hj
      exact hout j ks hj
    · rw [if_neg hnil, OrdMap.get?_insert] at hj
      split_ifs at hj with hij
      · rw [← hij, ← Option.some.inj hj]
        exact KillEntry.sorted hk hi
      · exact hout j ks hj

/-- The groups are pages of dead tuples. -/
theorem by_page_page {g : PageId × List ℕ} (hg : g ∈ (HeapAM.by_page dead).toList) :
    ∃ tid ∈ dead, tid.page_id = g.1 := by
  have hfold : ∀ (l : List Tid) (m : OrdMap PageId (List ℕ)),
      (∀ i ks, m.get? i = some ks → ∃ tid ∈ dead, tid.page_id = i) → (∀ tid ∈ l, tid ∈ dead) →
      ∀ i ks, (l.foldl (fun m tid => m.insert tid.page_id
        ((m.get? tid.page_id).getD [] ++ [tid.slot_id])) m).get? i = some ks →
        ∃ tid ∈ dead, tid.page_id = i := by
    intro l
    induction l with
    | nil => exact fun m hm _ => hm
    | cons t rest ih =>
      intro m hm hl
      apply ih
      · intro i ks hi
        rw [OrdMap.get?_insert] at hi
        split_ifs at hi with hti
        · exact ⟨t, hl t (.head _), hti⟩
        · exact hm i ks hi
      · exact fun tid htid => hl tid (.tail _ htid)
  obtain ⟨i, ks⟩ := g
  exact hfold dead OrdMap.empty (by simp) (fun _ h => h) i ks (OrdMap.mem_toList.mp hg)

/-- **Classification** succeeds, and what it would kill are whole dead chains. -/
theorem classify_dead_tuples_spec (hp : ∀ i ∈ relation_pages, PageRows columns rows i (pages i))
    (hl : WellLinked rows rank) (hdead : ∀ tid ∈ dead, tid.page_id ∈ relation_pages) :
    ∃ c, HeapAM.classify_dead_tuples columns pages dead = .ok c ∧
      ∀ i ks, c.kills.get? i = some ks → KillEntry rows relation_pages dead i ks := by
  apply classify_pages_spec hp hl
  · intro g hg
    obtain ⟨tid, htid, heq⟩ := by_page_page hg
    rw [← heq]
    exact hdead tid htid
  · simp

/-! ## Compaction -/

/-- Killing listed rows of a page succeeds and leaves the others. -/
theorem KillEntry.compact (hk : KillEntry rows relation_pages dead page_id kills)
    (hp : PageRows columns rows page_id page) (hne : kills ≠ []) :
    ∃ q, SlottedPage.compact page kills = .ok q ∧
      PageRows columns (without rows page_id kills) page_id q := by
  have hnormal : ∀ s ∈ kills, HeapWf page ∧ s < slot_count page ∧
      (raw_line_pointer page s).flags = .Normal := by
    intro s hs
    obtain ⟨⟨h, v⟩, hr⟩ := hk.stored s hs
    obtain ⟨hwf, bytes, hc, -, -⟩ := hp.bytes_of_row hr
    rw [content] at hc
    split_ifs at hc with hn
    exact ⟨hwf, hn⟩
  obtain ⟨s, hs⟩ := List.exists_mem_of_ne_nil kills hne
  have hwf := (hnormal s hs).1
  have hcheck : check_dead_slots page none kills = .ok () :=
    (check_dead_slots_iff hwf.toGeometry).mpr ⟨by simp, hk.ascending, fun s hs =>
      ⟨(hnormal s hs).2.1, .inl (hnormal s hs).2.2⟩⟩
  obtain ⟨q, hq, -⟩ := compact_spec hwf.toInv hcheck
  obtain ⟨hsq, -, hrq⟩ := hp.sound.compact hq
  refine ⟨q, hq, hsq, fun slot => ?_⟩
  rw [hrq, without]
  by_cases hslot : slot ∈ kills
  · simp [hslot]
  · simp [hslot, hp.rows_eq]

end Classify

/-! ## Reclaim -/

/-- The rows left when the listed kill lists have been carried out. -/
def dropped (rows : Tid → Option Row) (done : List (PageId × List ℕ)) (tid : Tid) : Option Row :=
  if ∃ e ∈ done, tid.page_id = e.1 ∧ tid.slot_id ∈ e.2 then none else rows tid

section Reclaim

variable {columns : List ColumnType} {rows : Tid → Option Row} {pages t : PageId → Page}
  {relation_pages : List PageId} {page_id : PageId} {kills : List ℕ}

theorem dropped_nil : dropped rows [] = rows := by
  funext tid
  simp [dropped]

theorem dropped_cons (e : PageId × List ℕ) (done : List (PageId × List ℕ)) :
    dropped rows (e :: done) = dropped (without rows e.1 e.2) done := by
  funext tid
  unfold dropped without
  by_cases hd : ∃ e ∈ done, tid.page_id = e.1 ∧ tid.slot_id ∈ e.2
  · rw [if_pos hd, if_pos]
    obtain ⟨e', he', h⟩ := hd
    exact ⟨e', List.mem_cons_of_mem _ he', h⟩
  · rw [if_neg hd]
    by_cases he : tid.page_id = e.1 ∧ tid.slot_id ∈ e.2
    · rw [if_pos he, if_pos ⟨e, (.head _), he⟩]
    · rw [if_neg he, if_neg]
      rintro ⟨e', he', h⟩
      rcases List.mem_cons.mp he' with rfl | he'
      · exact he h
      · exact hd ⟨e', he', h⟩

theorem dropped_singleton : dropped rows [(page_id, kills)] = without rows page_id kills := by
  rw [dropped_cons, dropped_nil]

theorem relation_rows_without (h : view columns t = without (view columns pages) page_id kills) :
    relation_rows columns relation_pages t =
      without (relation_rows columns relation_pages pages) page_id kills := by
  funext tid
  simp only [relation_rows, h, without]
  by_cases hk : tid.page_id = page_id ∧ tid.slot_id ∈ kills
  · rw [if_pos hk, if_pos hk, ite_self]
  · rw [if_neg hk, if_neg hk]

/-- A page without rows can leave the page list. -/
theorem relation_rows_evict
    (h : ∀ slot, relation_rows columns relation_pages pages ⟨page_id, slot⟩ = none) :
    relation_rows columns (relation_pages.filter fun p => decide (p ≠ page_id)) pages =
      relation_rows columns relation_pages pages := by
  funext tid
  by_cases hp : tid.page_id = page_id
  · obtain ⟨i, s⟩ := tid
    obtain rfl : i = page_id := hp
    rw [h, relation_rows, if_neg (by simp)]
  · simp [relation_rows, hp]

theorem count_used_eq {page : Page} (hg : Geometry page) {slots : List ℕ}
    (hs : ∀ s ∈ slots, s < slot_count page) :
    HeapAM.count_used page slots =
      .ok (slots.filter fun s => decide ((raw_line_pointer page s).flags ≠ .Unused)).length := by
  induction slots with
  | nil => rfl
  | cons s rest ih =>
    rw [HeapAM.count_used, hg.line_pointer, if_pos (hs s (.head _)),
      ih fun r hr => hs r (.tail _ hr), List.filter_cons]
    by_cases hu : (raw_line_pointer page s).flags = .Unused
    · simp [hu, Except.map]
    · simp [hu, Except.map]

/-- Killing as many rows as a page has slots in use leaves it without rows. -/
theorem PageRows.emptied {page : Page} (hp : PageRows columns rows page_id page)
    (hstored : ∀ s ∈ kills, ∃ r, rows ⟨page_id, s⟩ = some r) (hnd : kills.Nodup)
    (hcount : HeapAM.count_used page (List.range (slot_count page)) = .ok kills.length) (slot : ℕ) :
    without rows page_id kills ⟨page_id, slot⟩ = none := by
  unfold without
  split_ifs with hslot
  · rfl
  by_contra hsome
  obtain ⟨⟨h, v⟩, hr⟩ := Option.ne_none_iff_exists'.mp hsome
  have hused : ∀ s h v, rows ⟨page_id, s⟩ = some (h, v) →
      s ∈ (List.range (slot_count page)).filter fun s =>
        decide ((raw_line_pointer page s).flags ≠ .Unused) := by
    intro s h v hs
    obtain ⟨-, bytes, hc, -, -⟩ := hp.bytes_of_row hs
    rw [content] at hc
    split_ifs at hc with hn
    rw [List.mem_filter, List.mem_range]
    exact ⟨hn.1, by simp [hn.2]⟩
  have hwf := (hp.bytes_of_row hr).1
  rw [count_used_eq hwf.toGeometry fun s hs => List.mem_range.mp hs] at hcount
  have hsub : kills ⊆ (List.range (slot_count page)).filter fun s =>
      decide ((raw_line_pointer page s).flags ≠ .Unused) := by
    intro s hs
    obtain ⟨⟨h, v⟩, hs⟩ := hstored s hs
    exact hused s h v hs
  have hperm := (hnd.subperm hsub).perm_of_length_le (le_of_eq (Except.ok.inj hcount))
  exact hslot ⟨rfl, hperm.mem_iff.mpr (hused slot h v hr)⟩

/-- One compaction of a pass: it is carried out or not, and it is if it returns. -/
theorem compact_page_rows (hs : ∀ i ∈ relation_pages, Sound columns (pages i))
    (hmem : page_id ∈ relation_pages) {prev next : PageId}
    (hprev : prev = PageId.INVALID ∨ prev ∈ relation_pages) {lsn : Lsn} {o : Outcome}
    (ho : HeapAM.compact_page pages lsn page_id kills prev next = some o) :
    (∀ i ∈ relation_pages, Sound columns (o.pages i)) ∧
    ∃ done, (∀ e ∈ done, e = (page_id, kills)) ∧
      relation_rows columns relation_pages o.pages =
        dropped (relation_rows columns relation_pages pages) done ∧
      ∀ out, o.result = .ok out → relation_rows columns relation_pages o.pages =
        without (relation_rows columns relation_pages pages) page_id kills := by
  obtain ⟨hsound, hview⟩ := compact_page_view hs hmem hprev ho
  refine ⟨hsound, ?_⟩
  rcases hview with hview | ⟨hview, e, herr⟩
  · have hrows : relation_rows columns relation_pages o.pages = _ := relation_rows_without hview
    exact ⟨[(page_id, kills)], by simp, by rw [dropped_singleton]; exact hrows, fun _ _ => hrows⟩
  · refine ⟨[], by simp, ?_, fun out hout => ?_⟩
    · rw [dropped_nil]
      unfold relation_rows
      rw [hview]
    · rw [herr] at hout
      simp at hout

/-- What a pass needs of its kill lists. -/
structure Reclaimable (rows : Tid → Option Row) (relation_pages : List PageId)
    (kills : List (PageId × List ℕ)) : Prop where
  page_mem : ∀ e ∈ kills, e.1 ∈ relation_pages
  stored : ∀ e ∈ kills, ∀ s ∈ e.2, ∃ r, rows ⟨e.1, s⟩ = some r
  nodup : ∀ e ∈ kills, e.2.Nodup
  pages_nodup : (kills.map Prod.fst).Nodup

/-- The kill lists of the other pages can still be carried out. -/
theorem Reclaimable.tail {rest : List (PageId × List ℕ)} {relation_pages' : List PageId}
    (hk : Reclaimable rows relation_pages ((page_id, kills) :: rest))
    (hpages : ∀ i ∈ relation_pages, i ≠ page_id → i ∈ relation_pages') :
    Reclaimable (without rows page_id kills) relation_pages' rest := by
  obtain ⟨hfresh, hnd⟩ := List.nodup_cons.mp hk.pages_nodup
  have hne : ∀ e ∈ rest, e.1 ≠ page_id := by
    intro e he heq
    exact hfresh (List.mem_map.mpr ⟨e, he, heq⟩)
  refine ⟨fun e he => ?_, fun e he s hs => ?_, fun e he => ?_, hnd⟩
  · exact hpages _ (hk.page_mem e (.tail _ he)) (hne e he)
  · rw [without, if_neg fun h => hne e he h.1]
    exact hk.stored e (.tail _ he) s hs
  · exact hk.nodup e (.tail _ he)

/-- What a pass comes to. -/
structure ReclaimEffect (columns : List ColumnType) (rows : Tid → Option Row) (first_page : PageId)
    (relation_pages : List PageId) (kills done : List (PageId × List ℕ)) (r : HeapAM.Reclaimed) :
    Prop where
  done_mem : ∀ e ∈ done, e ∈ kills
  rows_eq : relation_rows columns r.relation_pages r.pages = dropped rows done
  sound : ∀ i ∈ r.relation_pages, Sound columns (r.pages i)
  sublist : r.relation_pages.Sublist relation_pages
  first_page : first_page ∈ relation_pages → first_page ∈ r.relation_pages

variable {first_page : PageId} {r : HeapAM.Reclaimed}

/-- A pass that does one page and then the rest. -/
theorem ReclaimEffect.cons {relation_pages' : List PageId} {rest done : List (PageId × List ℕ)}
    (hr : ReclaimEffect columns (without rows page_id kills) first_page relation_pages' rest done r)
    (hsub : relation_pages'.Sublist relation_pages)
    (hfirst : first_page ∈ relation_pages → first_page ∈ relation_pages') :
    ReclaimEffect columns rows first_page relation_pages ((page_id, kills) :: rest)
      ((page_id, kills) :: done) r := by
  refine ⟨fun e he => ?_, ?_, hr.sound, hr.sublist.trans hsub, fun h => hr.first_page (hfirst h)⟩
  · rcases List.mem_cons.mp he with rfl | he
    · exact .head _
    · exact List.mem_cons_of_mem _ (hr.done_mem e he)
  · rw [hr.rows_eq, dropped_cons]

/-- **Reclaim, page by page.** However far a pass gets, it has carried out some of the
kill lists and nothing else. -/
theorem reclaim_pages_spec {rel_oid : Oid} {chain_pages : List PageId} {lsn : PageId → Lsn}
    {free_page : PageId → Except HeapError Unit} {kills : List (PageId × List ℕ)}
    {pages : PageId → Page} {relation_pages removed : List PageId}
    (hs : ∀ i ∈ relation_pages, Sound columns (pages i))
    (hk : Reclaimable (relation_rows columns relation_pages pages) relation_pages kills)
    (hrel : ∀ i ∈ chain_pages, i ∉ removed → i ∈ relation_pages)
    (h : HeapAM.reclaim_pages rel_oid first_page chain_pages lsn free_page kills pages
      relation_pages removed = some r) :
    ∃ done, ReclaimEffect columns (relation_rows columns relation_pages pages) first_page
      relation_pages kills done r := by
  induction kills generalizing pages relation_pages removed with
  | nil =>
    rw [HeapAM.reclaim_pages, Option.some.injEq] at h
    subst h
    exact ⟨[], by simp, by rw [dropped_nil], hs, List.Sublist.refl _, id⟩
  | cons e rest ih =>
    obtain ⟨page_id, slots⟩ := e
    have hmem := hk.page_mem _ (.head _)
    have hstop : ∀ e, ReclaimEffect columns (relation_rows columns relation_pages pages) first_page
        relation_pages ((page_id, slots) :: rest) [] ⟨pages, relation_pages, .error e⟩ :=
      fun e => ⟨by simp, by rw [dropped_nil], hs, List.Sublist.refl _, id⟩
    -- stopping after the compaction of this page
    have hlast : ∀ (o : Outcome) (e : HeapError) done, (∀ e ∈ done, e = (page_id, slots)) →
        relation_rows columns relation_pages o.pages =
          dropped (relation_rows columns relation_pages pages) done →
        (∀ i ∈ relation_pages, Sound columns (o.pages i)) →
        ReclaimEffect columns (relation_rows columns relation_pages pages) first_page
          relation_pages ((page_id, slots) :: rest) done ⟨o.pages, relation_pages, .error e⟩ :=
      fun o e done hdone hrows hsound => ⟨fun e he => by rw [hdone e he]; exact .head _,
        hrows, hsound, List.Sublist.refl _, id⟩
    simp only [HeapAM.reclaim_pages] at h
    split at h
    · rw [← Option.some.inj h]
      exact ⟨[], hstop _⟩
    next live hlive =>
    split at h
    · rw [← Option.some.inj h]
      exact ⟨[], hstop _⟩
    next next hnext =>
    split_ifs at h with hempty
    · -- the page is spliced out behind its nearest predecessor that is left
      split at h
      · rw [← Option.some.inj h]
        exact ⟨[], hstop _⟩
      next pos hpos =>
      split at h
      · rw [← Option.some.inj h]
        exact ⟨[], hstop _⟩
      next prev hprev =>
      have hprev_mem : prev ∈ relation_pages := by
        have hin := List.mem_of_mem_take (List.mem_reverse.mp (List.mem_of_find?_eq_some hprev))
        have hleft := List.find?_some hprev
        exact hrel prev hin (of_decide_eq_true hleft)
      split at h
      · simp at h
      next o ho =>
      obtain ⟨hsound, done, hdone, hrows, hok⟩ := compact_page_rows hs hmem (.inr hprev_mem) ho
      split at h
      · rw [← Option.some.inj h]
        exact ⟨done, hlast o _ done hdone hrows hsound⟩
      next out hout =>
      have hrows' := hok out hout
      have hgone := (pageRows_relation (hs _ hmem) hmem).emptied
        (fun s hs => hk.stored _ (.head _) s hs) (hk.nodup _ (.head _))
        (by rw [hlive, hempty.1])
      have hevict := @relation_rows_evict columns o.pages relation_pages page_id
        (by rw [hrows']; exact hgone)
      rw [hrows'] at hevict
      have hsub : (relation_pages.filter fun p => decide (p ≠ page_id)).Sublist relation_pages :=
        List.filter_sublist
      have hfirst : first_page ∈ relation_pages →
          first_page ∈ relation_pages.filter fun p => decide (p ≠ page_id) := fun hf =>
        List.mem_filter.mpr ⟨hf, decide_eq_true (Ne.symm hempty.2)⟩
      have hsound' : ∀ i ∈ relation_pages.filter fun p => decide (p ≠ page_id),
          Sound columns (o.pages i) := fun i hi => hsound i (List.mem_of_mem_filter hi)
      split at h
      · rw [← Option.some.inj h]
        refine ⟨[(page_id, slots)], by simp, ?_, hsound', hsub, hfirst⟩
        rw [dropped_singleton, hevict]
      have hk' : Reclaimable (relation_rows columns (relation_pages.filter fun p =>
          decide (p ≠ page_id)) o.pages) (relation_pages.filter fun p => decide (p ≠ page_id))
          rest := by
        rw [hevict]
        exact hk.tail fun i hi hne => List.mem_filter.mpr ⟨hi, decide_eq_true hne⟩
      obtain ⟨done', hr⟩ := ih hsound' hk' (fun i hi hrem => by
        rw [List.mem_cons, not_or] at hrem
        exact List.mem_filter.mpr ⟨hrel i hi hrem.2, decide_eq_true hrem.1⟩) h
      rw [hevict] at hr
      exact ⟨_, hr.cons hsub hfirst⟩
    · split at h
      · simp at h
      next o ho =>
      obtain ⟨hsound, done, hdone, hrows, hok⟩ := compact_page_rows hs hmem (.inl rfl) ho
      split at h
      · rw [← Option.some.inj h]
        exact ⟨done, hlast o _ done hdone hrows hsound⟩
      next out hout =>
      have hrows' := hok out hout
      have hk' : Reclaimable (relation_rows columns relation_pages o.pages) relation_pages rest := by
        rw [hrows']
        exact hk.tail fun i hi _ => hi
      obtain ⟨done', hr⟩ := ih hsound hk' hrel h
      rw [hrows'] at hr
      exact ⟨_, hr.cons (List.Sublist.refl _) id⟩

/-- **Reclaim.** A pass over a dead list carries out kill lists of whole dead chains. -/
theorem reclaim_spec {rank : Tid → ℕ} {rel_oid : Oid} {lsn : PageId → Lsn}
    {free_page : PageId → Except HeapError Unit} {dead : List Tid}
    (hs : ∀ i ∈ relation_pages, Sound columns (pages i))
    (hl : WellLinked (relation_rows columns relation_pages pages) rank)
    (hdead : ∀ tid ∈ dead, tid.page_id ∈ relation_pages)
    (h : HeapAM.reclaim columns rel_oid first_page lsn free_page pages relation_pages dead = some r) :
    ∃ kills done, (∀ e ∈ done,
        Killable (relation_rows columns relation_pages pages) dead e.1 e.2) ∧
      ReclaimEffect columns (relation_rows columns relation_pages pages) first_page relation_pages
        kills done r := by
  obtain ⟨c, hc, hkills⟩ := classify_dead_tuples_spec
    (fun i hi => pageRows_relation (hs i hi) hi) hl hdead
  have hentry : ∀ e ∈ c.kills.toList, KillEntry (relation_rows columns relation_pages pages)
      relation_pages dead e.1 e.2 := fun e he => hkills e.1 e.2 (OrdMap.mem_toList.mp he)
  rw [HeapAM.reclaim, hc] at h
  have hk : Reclaimable (relation_rows columns relation_pages pages) relation_pages c.kills.toList := by
    refine ⟨fun e he => (hentry e he).page_mem, fun e he => (hentry e he).stored, fun e he => ?_, ?_⟩
    · exact (hentry e he).ascending.imp fun {a b} hab => hab.ne
    · exact List.pairwise_map.mpr (c.kills.sorted.imp fun {a b} hab => hab.ne)
  obtain ⟨done, hr⟩ := reclaim_pages_spec hs hk (fun i hi _ => hi) h
  exact ⟨_, done, fun e he => (hentry e (hr.done_mem e he)).toKillable, hr⟩

end Reclaim

end Ams
