/-
What a scan returns and what vacuum may take: the two results about whole runs.

`heap_scan_shows_history` compares a scan, bytes and all, with the history of the calls.
`hot_chains_survive_vacuum` is about one vacuum pass at any horizon. Both ask that no
transaction HOT-updates the same version twice. Nothing in the heap prevents it: within
one command the old version stays visible to its own updater, whose second update
overwrites the link to the version the first one made, and that version is lost to every
later reader although its transaction commits.
-/
import Ams.HeapRelation

set_option autoImplicit false

namespace Ams

open Ams.Lib SlottedPage Relation

/-! ## Scans -/

/-- **Snapshot semantics.** A scan under a live snapshot returns the versions the
snapshot shows, each once and with its values, and nothing else. -/
theorem heap_scan_shows_history {rel : RelationDesc} {clock : TxnId} {clog : Clog}
    {pages : PageId → Page} {lsn : Lsn} (hset : (TxnManager.new clock clog).Settled)
    (hinv : ¬ (clog TxnId.INVALID).Terminal) (hfirst : rel.first_page < 256 ^ 8)
    {ops : List RelOp} {s : HeapRelation}
    (hrun : run (HeapRelation.step rel) (HeapRelation.new rel clock clog pages lsn) ops = some s)
    (hot : s.HotOnce) {S : Snapshot} (hlive : S ∈ s.txn.live) {curcid : ℕ}
    (hwrote : ∀ c, s.Wrote S.current_xid c → c < curcid)
    (hrunning : ¬ (s.txn.mgr.clog S.current_xid).Terminal)
    (hupdated : ∀ V ∈ s.versions, V.creator = S.current_xid → ∀ p, V.hot_prev = some p →
      ∀ P, s.versions[p]? = some P → S.effective s.txn.mgr.clog P.creator) :
    ∃ out, s.scan rel S curcid = .ok out ∧ (out.map fun r => s.held r.1).Nodup ∧
      ∀ x, x ∈ out.map (fun r => (s.held r.1, r.2)) ↔
        ∃ v V, x = (some v, V.values) ∧ s.versions[v]? = some V ∧ s.Shown s.txn.mgr.clog S v := by
  have hI : RelInv rel s := (RelInv.new hset hinv hfirst pages lsn).run hrun
  have hs := hI.store
  have hR : Reader (s.store rel) { S with curcid } := ⟨hwrote, hrunning, hupdated⟩
  obtain ⟨out, hout, hnd, hmem⟩ := scan_spec hI.pageRows RelInv.rows_out hI.nodup hs.wellLinked
    { S with curcid } s.txn.mgr.clog
  have hfound : ∀ {tid h v V}, (s.store rel).At tid h v V →
      ((∃ root, FirstVisible (s.store rel).rows { S with curcid } s.txn.mgr.clog root tid) ↔
        s.Shown s.txn.mgr.clog S v) := fun hat =>
    @StoreInv.found_iff (s.store rel) S { S with curcid } _ _ _ _ hs hot hlive (fun _ => Iff.rfl)
      hR hat
  -- every row that is returned holds a version
  have hrow : ∀ tid values, (tid, values) ∈ out → ∃ h v V, (s.store rel).At tid h v V ∧
      V.values = values := by
    intro tid values hr
    obtain ⟨-, h, hrow⟩ := (hmem tid values).mp hr
    obtain ⟨v, V, hat, hval⟩ := hs.row_at tid h values hrow
    exact ⟨h, v, V, hat, hval⟩
  refine ⟨out, hout, ?_, fun x => ?_⟩
  · -- distinct rows hold distinct versions
    have hpair : out.Pairwise fun r r' => r.1 ≠ r'.1 := List.pairwise_map.mp hnd
    apply List.pairwise_map.mpr
    refine hpair.imp_of_mem fun {r r'} hr hr' hne heq => hne ?_
    obtain ⟨h, v, V, hat, -⟩ := hrow r.1 r.2 hr
    have hheld : s.held r.1 = some v := hat.held
    exact hs.injective r.1 r'.1 v hheld (heq.symm.trans hheld)
  · rw [List.mem_map]
    constructor
    · rintro ⟨⟨tid, values⟩, hr, rfl⟩
      obtain ⟨h, v, V, hat, rfl⟩ := hrow tid values hr
      have hheld : s.held tid = some v := hat.held
      refine ⟨v, V, by rw [hheld], hat.version, (hfound hat).mp ((hmem _ _).mp hr).1⟩
    · rintro ⟨v, V, rfl, hV, hshown⟩
      obtain ⟨tid, hheld⟩ := hs.held_of_shown hlive (S := { S with curcid }) (fun _ h => h) hR hshown
      obtain ⟨h, W, hat⟩ := hs.held_at tid v hheld
      obtain rfl : V = W := Option.mem_unique hV hat.version
      refine ⟨(tid, V.values), (hmem _ _).mpr ⟨(hfound hat).mpr hshown, h, hat.row⟩, ?_⟩
      have hheld' : s.held tid = some v := hheld
      rw [hheld']

/-- A relation of one integer column, on page 5. -/
def counter_rel : RelationDesc := ⟨16384, 5, [.Int4]⟩

/-- A fresh tuple for it, written at command 0. -/
def counter_tuple (value : BitVec 32) : List UInt8 :=
  match encode_tuple (TupleHeader.new 0 0 0 (Vector.replicate 16 0) ⟨0, 0⟩ 0) [.Int4]
    [some (.Int4 value)] with
  | .ok bytes => bytes
  | .error _ => []

/-- Transaction 1 inserts a row and commits; transaction 2 scans and HOT-updates it. -/
def insert_then_hot_update : List RelOp :=
  [.txn .begin_txn, .txn (.snapshot 1), .insert 0 0 10 (counter_tuple 7),
   .txn (.commit_set_state 1), .txn (.remove_active 1),
   .txn .begin_txn, .txn (.snapshot 2), .scan 1 0,
   .update 1 0 20 ⟨5, 0⟩ (counter_tuple 8) true none]

def counter_start : HeapRelation :=
  HeapRelation.new counter_rel 1 (fun _ => .InProgress) (fun _ => Page.zero) 1

theorem counter_settled : (TxnManager.new 1 fun _ => .InProgress).Settled := by
  intro x hx hlt
  exact absurd (Nat.lt_one_iff.mp hlt) hx

/-- Two versions of which only the second comes from a HOT update. -/
theorem hot_once_of_one_update {H : History} {V₀ V₁ : Version}
    (hversions : H.versions = [V₀, V₁]) (hnone : V₀.hot_prev = none) : H.HotOnce := by
  intro i j V W p hi hj _ hV hW
  have hone : ∀ (k : ℕ) (U : Version), H.versions[k]? = some U → U.hot_prev = some p → k = 1 := by
    intro k U hk hU
    rw [hversions] at hk
    match k with
    | 0 =>
      cases hk
      rw [hnone] at hU
      simp at hU
    | 1 => rfl
    | _ + 2 => simp at hk
  rw [hone i V hi hV, hone j W hj hW]

/-- Transaction 2, at its next command, sees the version it made and not the one before. -/
theorem heap_scan_shows_history_own_update :
    ∃ s out S, run (HeapRelation.step counter_rel) counter_start insert_then_hot_update = some s ∧
      S ∈ s.txn.live ∧ s.scan counter_rel S 1 = .ok out ∧
      (some 1, [some (.Int4 8)]) ∈ out.map (fun r => (s.held r.1, r.2)) := by
  have heval : (run (HeapRelation.step counter_rel) counter_start insert_then_hot_update).map
      (fun s => (s.versions, s.stamps, s.txn.live[1]?, s.txn.mgr.clog 1, s.txn.mgr.clog 2)) =
      some ([⟨1, 0, [some (.Int4 7)], none⟩, ⟨2, 0, [some (.Int4 8)], some 0⟩],
        [⟨2, 0, 0, false⟩], some ⟨2, 3, [2], 2, 0⟩, .Committed, .InProgress) := by decide +kernel
  obtain ⟨s, hs, hval⟩ := Option.map_eq_some_iff.mp heval
  obtain ⟨hversions, hstamps, hlive, hclog₁, hclog₂⟩ : _ ∧ _ ∧ _ ∧ _ ∧ _ := by
    simpa only [Prod.mk.injEq] using hval
  have hmem := List.mem_of_getElem? hlive
  have hcom : Snapshot.counts_committed ⟨2, 3, [2], 2, 0⟩ s.txn.mgr.clog 1 :=
    ⟨by decide, by decide, hclog₁⟩
  have hwrote : ∀ c, s.Wrote 2 c → c < 1 := by
    rintro c (⟨V, hV, -, rfl⟩ | ⟨w, hw, -, rfl⟩)
    · rw [hversions] at hV
      rcases List.mem_cons.mp hV with rfl | hV
      · decide
      · rw [List.mem_singleton.mp hV]
        decide
    · rw [hstamps] at hw
      rw [List.mem_singleton.mp hw]
      decide
  have hupdated : ∀ V ∈ s.versions, V.creator = 2 → ∀ p, V.hot_prev = some p →
      ∀ P, s.versions[p]? = some P →
      Snapshot.effective ⟨2, 3, [2], 2, 0⟩ s.txn.mgr.clog P.creator := by
    intro V hV _ p hp P hP
    rw [hversions] at hV hP
    rcases List.mem_cons.mp hV with rfl | hV
    · simp at hp
    · obtain rfl := List.mem_singleton.mp hV
      cases hp
      cases hP
      exact .inr hcom
  obtain ⟨out, hout, -, hspec⟩ := @heap_scan_shows_history counter_rel 1 (fun _ => .InProgress)
    (fun _ => Page.zero) 1 counter_settled (by decide) (by decide) insert_then_hot_update s hs
    (hot_once_of_one_update hversions rfl) ⟨2, 3, [2], 2, 0⟩ hmem 1 hwrote (by rw [hclog₂]; decide) hupdated
  refine ⟨s, out, _, hs, hmem, hout, (hspec _).mpr ⟨1, ⟨2, 0, [some (.Int4 8)], some 0⟩, rfl, ?_, ?_⟩⟩
  · rw [hversions]
    rfl
  · refine ⟨⟨2, 0, [some (.Int4 8)], some 0⟩, by rw [hversions]; rfl, .inl rfl, fun w hw hv => ?_⟩
    rw [hstamps] at hw
    rw [List.mem_singleton.mp hw] at hv
    exact absurd hv (by decide)

/-- Transaction 2 updates the row once more, within the same command and after another
scan returned it, and commits; transaction 3 starts. -/
def hot_update_twice : List RelOp :=
  insert_then_hot_update ++
    [.scan 1 0, .update 1 0 30 ⟨5, 0⟩ (counter_tuple 9) true none,
     .txn (.commit_set_state 2), .txn (.remove_active 2), .txn .begin_txn, .txn (.snapshot 3)]

/-- **A committed version that no scan finds.** Version 1 is shown to transaction 3, which
has written nothing, and its scan returns version 2 alone. -/
theorem heap_scan_misses_version :
    ∃ s S, run (HeapRelation.step counter_rel) counter_start hot_update_twice = some s ∧
      S ∈ s.txn.live ∧ S.current_xid = 3 ∧ (∀ c, ¬ s.Wrote 3 c) ∧
      ¬ (s.txn.mgr.clog 3).Terminal ∧ s.Shown s.txn.mgr.clog S 1 ∧
      (∃ tid, s.scan counter_rel S 0 = .ok [(tid, [some (.Int4 9)])] ∧ s.held tid = some 2) := by
  have heval : (run (HeapRelation.step counter_rel) counter_start hot_update_twice).map
      (fun s => (s.versions, s.stamps, s.txn.live[2]?, s.txn.mgr.clog 2, s.txn.mgr.clog 3)) =
      some ([⟨1, 0, [some (.Int4 7)], none⟩, ⟨2, 0, [some (.Int4 8)], some 0⟩,
        ⟨2, 0, [some (.Int4 9)], some 0⟩], [⟨2, 0, 0, false⟩, ⟨2, 0, 0, false⟩],
        some ⟨3, 4, [3], 3, 0⟩, .Committed, .InProgress) := by decide +kernel
  have hscan : (run (HeapRelation.step counter_rel) counter_start hot_update_twice).map
      (fun s => (s.scan counter_rel ⟨3, 4, [3], 3, 0⟩ 0).toOption) =
      some (some [(⟨5, 2⟩, [some (.Int4 9)])]) := by decide +kernel
  have hheld : (run (HeapRelation.step counter_rel) counter_start hot_update_twice).map
      (fun s => s.held ⟨5, 2⟩) = some (some 2) := by decide +kernel
  obtain ⟨s, hs, hval⟩ := Option.map_eq_some_iff.mp heval
  obtain ⟨hversions, hstamps, hlive, hclog₂, hclog₃⟩ : _ ∧ _ ∧ _ ∧ _ ∧ _ := by
    simpa only [Prod.mk.injEq] using hval
  rw [hs, Option.map_some, Option.some.injEq] at hscan hheld
  refine ⟨s, ⟨3, 4, [3], 3, 0⟩, hs, List.mem_of_getElem? hlive, rfl, ?_, by rw [hclog₃]; decide,
    ⟨⟨2, 0, [some (.Int4 8)], some 0⟩, by rw [hversions]; rfl,
      .inr ⟨by decide, by decide, hclog₂⟩, ?_⟩, ⟨5, 2⟩, ?_, hheld⟩
  · rintro c (⟨V, hV, hx, -⟩ | ⟨w, hw, hx, -⟩)
    · rw [hversions] at hV
      fin_cases hV <;> simp at hx
    · rw [hstamps] at hw
      fin_cases hw <;> simp at hx
  · intro w hw hv
    rw [hstamps] at hw
    fin_cases hw <;> simp at hv
  · cases hres : s.scan counter_rel ⟨3, 4, [3], 3, 0⟩ 0 with
    | error e => simp [hres, Except.toOption] at hscan
    | ok out =>
      rw [hres] at hscan
      rw [← Option.some.inj hscan]

/-! ## Vacuum -/

/-- What one page must look like once the listed slots are gone: no link leads to a slot
that was killed, and a chain member that was not reported dead hangs on a root. -/
structure ChainsIntact (columns : List ColumnType) (dead : List Tid) (page_id : PageId)
    (kills : List ℕ) (page : Page) : Prop where
  sound : Sound columns page
  not_killed : ∀ slot h values, row_at columns page slot = some (h, values) →
    h.hot_updated = true → h.t_ctid ≠ ⟨page_id, slot⟩ →
    ¬ (h.t_ctid.page_id = page_id ∧ h.t_ctid.slot_id ∈ kills)
  rooted : ∀ slot h values, row_at columns page slot = some (h, values) → h.heap_only = true →
    (⟨page_id, slot⟩ : Tid) ∉ dead →
    ∃ root, (∃ r, row_at columns page root = some r ∧ r.1.heap_only = false) ∧
      Reach (hot_link (relation_rows columns [page_id] fun _ => page)) ⟨page_id, root⟩
        ⟨page_id, slot⟩

section Kill

variable {columns : List ColumnType} {rows : Tid → Option Row} {rank : Tid → ℕ}
  {dead : List Tid} {page_id : PageId} {kills : List ℕ} {page : Page}

/-- A chain that has one row off the kill list is off it altogether. -/
theorem Killable.reach_iff (hk : Killable rows dead page_id kills) (hl : WellLinked rows rank)
    {a b : Tid} (hab : Reach (hot_link rows) a b) (ha : a.page_id = page_id) :
    a.slot_id ∈ kills ↔ b.slot_id ∈ kills := by
  induction hab with
  | refl => exact Iff.rfl
  | tail hab hbc ih => exact ih.trans (hk.closed _ _ hbc ((hl.reach_page hab).trans ha))

/-- The page with the kill list carried out, row by row. -/
theorem PageRows.after_kill (hp : PageRows columns (without rows page_id kills) page_id page)
    {slot : ℕ} {h : TupleHeader} {values : List (Option Datum)} :
    row_at columns page slot = some (h, values) ↔
      slot ∉ kills ∧ rows ⟨page_id, slot⟩ = some (h, values) := by
  rw [← hp.rows_eq, without]
  by_cases hs : slot ∈ kills
  · simp [hs]
  · simp [hs]

/-- A link between rows off the kill list is a link of the new page. -/
theorem PageRows.reach_after_kill
    (hp : PageRows columns (without rows page_id kills) page_id page)
    (hk : Killable rows dead page_id kills) (hl : WellLinked rows rank) {a b : Tid}
    (hab : Reach (hot_link rows) a b) (ha : a.page_id = page_id) (hb : b.slot_id ∉ kills) :
    Reach (hot_link (relation_rows columns [page_id] fun _ => page)) a b := by
  induction hab with
  | refl => exact ReflTransGen.refl
  | @tail b c hab hbc ih =>
    have hbp : b.page_id = page_id := (hl.reach_page hab).trans ha
    have hbk : b.slot_id ∉ kills := fun h => hb ((hk.closed b c hbc hbp).mp h)
    refine (ih hbk).tail ?_
    obtain ⟨h, values, hrow, hu, hct⟩ := hot_link_eq_some.mp hbc
    have hb' : b = ⟨page_id, b.slot_id⟩ := by rw [← hbp]
    rw [hb'] at hrow
    refine hot_link_eq_some.mpr ⟨h, values, ?_, hu, hct⟩
    rw [relation_rows, if_pos (by rw [hbp]; exact List.mem_singleton.mpr rfl)]
    exact hp.after_kill.mpr ⟨hbk, hrow⟩

/-- Carrying out a kill list of whole chains leaves the others intact, as long as what
is not dead was rooted before. -/
theorem Killable.chainsIntact (hk : Killable rows dead page_id kills) (hl : WellLinked rows rank)
    (hp : PageRows columns (without rows page_id kills) page_id page)
    (hroot : ∀ tid h values, rows tid = some (h, values) → tid ∉ dead →
      ∃ root, heap_only_at rows root = false ∧ (∃ r, rows root = some r) ∧
        Reach (hot_link rows) root tid) :
    ChainsIntact columns dead page_id kills page := by
  refine ⟨hp.sound, fun slot h values hrow hu hne hkill => ?_, fun slot h values hrow ho hdead => ?_⟩
  · obtain ⟨hslot, hr⟩ := hp.after_kill.mp hrow
    have hlink := hot_link_eq_some.mpr ⟨h, values, hr, hu, rfl⟩
    exact hslot ((hk.closed _ _ hlink rfl).mpr hkill.2)
  · obtain ⟨hslot, hr⟩ := hp.after_kill.mp hrow
    obtain ⟨root, hnot, ⟨⟨rh, rv⟩, hrr⟩, hreach⟩ := hroot _ h values hr hdead
    have hpage : root.page_id = page_id := (hl.reach_page hreach).symm
    have hroot' : root = ⟨page_id, root.slot_id⟩ := by rw [← hpage]
    have hrk : root.slot_id ∉ kills := fun h' => hslot ((hk.reach_iff hl hreach hpage).mp h')
    refine ⟨root.slot_id, ⟨(rh, rv), hp.after_kill.mpr ⟨hrk, ?_⟩, ?_⟩, ?_⟩
    · rw [← hroot']
      exact hrr
    · rw [← heap_only_at_of_row hrr]
      exact hnot
    · rw [← hroot']
      exact hp.reach_after_kill hk hl hreach hpage hslot

end Kill

/-- **HOT chains survive vacuum.** At any horizon, what classification would kill was
reported dead, the kill list of each page can be carried out, and the chains of what is
left are intact. -/
theorem hot_chains_survive_vacuum {rel : RelationDesc} {clock : TxnId} {clog : Clog}
    {pages : PageId → Page} {lsn : Lsn} (hset : (TxnManager.new clock clog).Settled)
    (hinv : ¬ (clog TxnId.INVALID).Terminal) (hfirst : rel.first_page < 256 ^ 8)
    {ops : List RelOp} {s : HeapRelation}
    (hrun : run (HeapRelation.step rel) (HeapRelation.new rel clock clog pages lsn) ops = some s)
    (hot : s.HotOnce) (oldest_xmin : TxnId) :
    ∃ dead c, HeapAM.scan_dead_tuples s.pages s.relation_pages oldest_xmin s.txn.mgr.clog =
        .ok dead ∧
      HeapAM.classify_dead_tuples rel.columns s.pages dead = .ok c ∧
      ∀ page_id ∈ s.relation_pages, ∀ kills, (c.kills.get? page_id).getD [] = kills →
        (∀ slot ∈ kills, (⟨page_id, slot⟩ : Tid) ∈ dead) ∧
        ∃ page, (if kills = [] then page = s.pages page_id
            else SlottedPage.compact (s.pages page_id) kills = .ok page) ∧
          ChainsIntact rel.columns dead page_id kills page := by
  have hI : RelInv rel s := (RelInv.new hset hinv hfirst pages lsn).run hrun
  have hl := hI.store.wellLinked
  obtain ⟨dead, hdead, hmem⟩ := scan_dead_tuples_spec hI.pageRows RelInv.rows_out oldest_xmin
    s.txn.mgr.clog
  have hpages : ∀ tid ∈ dead, tid.page_id ∈ s.relation_pages := by
    intro tid htid
    obtain ⟨h, values, hrow, -⟩ := (hmem tid).mp htid
    exact mem_relation_pages RelInv.rows_out hrow
  obtain ⟨c, hc, hkills⟩ := classify_dead_tuples_spec hI.pageRows hl hpages
  -- a row that is not reported dead has a creator that did not abort
  have hroot : ∀ tid h values, (s.store rel).rows tid = some (h, values) → tid ∉ dead →
      ∃ root, heap_only_at (s.store rel).rows root = false ∧
        (∃ r, (s.store rel).rows root = some r) ∧
        Reach (hot_link (s.store rel).rows) root tid := by
    intro tid h values hrow htid
    obtain ⟨v, V, hat, -⟩ := hI.store.row_at tid h values hrow
    refine hI.store.rooted hot hat fun hab => htid ((hmem tid).mpr ⟨h, values, hrow, ?_⟩)
    rw [tuple_is_dead_iff, (hI.store.ok _ _ _ _ hat).xmin]
    exact .inl hab
  refine ⟨dead, c, hdead, hc, fun page_id hpage kills hks => ?_⟩
  have hp := hI.pageRows page_id hpage
  by_cases hnil : kills = []
  · subst hnil
    have hwithout : without (s.store rel).rows page_id [] = (s.store rel).rows := by
      funext tid
      simp [without]
    rw [← hwithout] at hp
    exact ⟨by simp, s.pages page_id, by rw [if_pos rfl],
      (Killable.nil dead page_id).chainsIntact hl hp hroot⟩
  · have hentry : KillEntry (s.store rel).rows s.relation_pages dead page_id kills := by
      cases hget : c.kills.get? page_id with
      | none =>
        rw [hget] at hks
        exact absurd hks.symm hnil
      | some ks =>
        rw [hget] at hks
        obtain rfl : ks = kills := hks
        exact hkills page_id ks hget
    obtain ⟨q, hq, hpq⟩ := hentry.compact hp hnil
    refine ⟨hentry.dead, q, ?_, hentry.toKillable.chainsIntact hl hpq hroot⟩
    rw [if_neg hnil]
    exact hq

/-- A pass while transaction 2 is still running. -/
theorem hot_chains_survive_vacuum_after_update :
    ∃ s dead c page,
      run (HeapRelation.step counter_rel) counter_start insert_then_hot_update = some s ∧
      HeapAM.scan_dead_tuples s.pages s.relation_pages 3 s.txn.mgr.clog = .ok dead ∧
      HeapAM.classify_dead_tuples counter_rel.columns s.pages dead = .ok c ∧
      ChainsIntact counter_rel.columns dead 5 ((c.kills.get? 5).getD []) page := by
  have heval : (run (HeapRelation.step counter_rel) counter_start insert_then_hot_update).map
      (fun s => (s.versions, s.relation_pages)) =
      some ([⟨1, 0, [some (.Int4 7)], none⟩, ⟨2, 0, [some (.Int4 8)], some 0⟩], [5]) := by
    decide +kernel
  obtain ⟨s, hs, hval⟩ := Option.map_eq_some_iff.mp heval
  obtain ⟨hversions, hpages⟩ := Prod.mk.inj hval
  obtain ⟨dead, c, hdead, hc, hall⟩ := @hot_chains_survive_vacuum counter_rel 1
    (fun _ => .InProgress) (fun _ => Page.zero) 1 counter_settled (by decide) (by decide)
    insert_then_hot_update s hs (hot_once_of_one_update hversions rfl) 3
  obtain ⟨-, page, -, hintact⟩ := hall 5 (by rw [hpages]; decide) _ rfl
  exact ⟨s, dead, c, page, hs, hdead, hc, hintact⟩

/-- **An orphan chain member.** After the second HOT update in one command the version of
the first one is heap-only, not dead, and nothing on its page links to it. -/
theorem hot_update_twice_orphans :
    ∃ s, run (HeapRelation.step counter_rel) counter_start hot_update_twice = some s ∧
      s.relation_pages = [5] ∧
      (HeapAM.scan_dead_tuples s.pages s.relation_pages s.txn.mgr.oldest_snapshot_xmin
        s.txn.mgr.clog).toOption = some [] ∧
      ((row_at counter_rel.columns (s.pages 5) 1).map fun r => r.1.heap_only) = some true ∧
      (List.range (slot_count (s.pages 5))).map (fun slot =>
        hot_link (relation_rows counter_rel.columns [5] s.pages) ⟨5, slot⟩) =
        [some ⟨5, 2⟩, none, none] := by
  refine exists_of_map_eq (fun s => (s.relation_pages,
        (HeapAM.scan_dead_tuples s.pages s.relation_pages s.txn.mgr.oldest_snapshot_xmin
          s.txn.mgr.clog).toOption,
        (row_at counter_rel.columns (s.pages 5) 1).map fun r => r.1.heap_only,
        (List.range (slot_count (s.pages 5))).map fun slot =>
          hot_link (relation_rows counter_rel.columns [5] s.pages) ⟨5, slot⟩))
    (b := ([5], some [], some true, [some ⟨5, 2⟩, none, none])) (by decide +kernel)
    fun s _ hval => ?_
  simpa only [Prod.mk.injEq] using hval

end Ams
