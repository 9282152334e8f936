/-
The rows of a heap against its history.

The heap has one header per row to answer what a snapshot shows. `t_xmax` and `t_cid`
are overwritten by the next stamp, HOT links survive the updates that made them, aborted
ones included, and vacuum takes rows away. `StoreInv` says how a header still stands for
the writes to its version: the last real stamp that did not abort is the one in the
header (`stamped`), a link leads to a version made from this one (`link`), and a version
that is not there is one that no live snapshot shows (`gone`). A store changes in five
ways, and each preserves it: a transaction step, a new row, a stamp, a HOT successor, and
the removal of whole dead chains.

One more thing is asked of the callers here: a transaction HOT-updates a version at most
once. The second update would overwrite the only link to the version that the first one
made, and `linked` is what fails.
-/
import Ams.History
import Ams.HeapVacuum

set_option autoImplicit false

namespace Ams

open Ams.Lib Relation
open Function (update update_self update_of_ne)

/-- The rows of a relation, the version each of them holds, and the history. -/
structure Store extends History where
  txn : TxnSys
  rows : Tid → Option Row
  held : Tid → Option ℕ

namespace Store

abbrev clog (s : Store) : Clog := s.txn.mgr.clog

/-- At `tid` stands version `v`, which is `V`, under the header `h`. -/
structure At (s : Store) (tid : Tid) (h : TupleHeader) (v : ℕ) (V : Version) : Prop where
  row : s.rows tid = some (h, V.values)
  held : s.held tid = some v
  version : s.versions[v]? = some V

/-- How a header stands for the writes to its version. -/
structure RowOk (s : Store) (tid : Tid) (h : TupleHeader) (v : ℕ) (V : Version) : Prop where
  xmin : h.t_xmin = V.creator
  heap_only : h.heap_only = V.hot_prev.isSome
  xmax_lt : h.t_xmax < s.txn.mgr.txn_id_clock
  share : h.is_share = true → h.lock_only = true
  /-- A real stamp in the header was made. -/
  real : h.lock_only = false → h.t_xmax ≠ TxnId.INVALID →
    ∃ w ∈ s.stamps, w.version = v ∧ w.xid = h.t_xmax ∧ w.lock = false
  /-- A real stamp that did not abort is in the header. -/
  stamped : ∀ w ∈ s.stamps, w.version = v → w.lock = false →
    s.clog w.xid = .Aborted ∨ (h.t_xmax = w.xid ∧ h.lock_only = false)
  /-- While the creator runs, `t_cid` is the command of one of its writes. -/
  cid_xmin : ¬ (s.clog h.t_xmin).Terminal → s.Wrote h.t_xmin h.t_cid
  cid_xmax : h.lock_only = false → h.t_xmax ≠ TxnId.INVALID → ¬ (s.clog h.t_xmax).Terminal →
    s.Wrote h.t_xmax h.t_cid
  link : h.hot_updated = true → h.t_ctid.page_id = tid.page_id ∧
    ∃ u U, s.held h.t_ctid = some u ∧ s.versions[u]? = some U ∧ U.hot_prev = some v

end Store

/-- **The invariant of the store.** -/
structure StoreInv (s : Store) : Prop where
  txn : TxnInv s.txn
  history : HistoryInv s.txn s.toHistory
  row_at : ∀ tid h values, s.rows tid = some (h, values) →
    ∃ v V, s.At tid h v V ∧ V.values = values
  held_at : ∀ tid v, s.held tid = some v → ∃ h V, s.At tid h v V
  injective : ∀ a b v, s.held a = some v → s.held b = some v → a = b
  ok : ∀ tid h v V, s.At tid h v V → s.RowOk tid h v V
  /-- A version made by a HOT update that did not abort is linked. -/
  linked : s.HotOnce → ∀ tid h v V p, s.At tid h v V → V.hot_prev = some p →
    s.clog V.creator ≠ .Aborted → ∃ a, s.held a = some p ∧ hot_link s.rows a = some tid
  /-- A version without a row was never there for any live snapshot, or no longer is. -/
  gone : ∀ v V, s.versions[v]? = some V → (∀ tid, s.held tid ≠ some v) →
    s.clog V.creator = .Aborted ∨ ∃ w ∈ s.stamps, w.version = v ∧ w.lock = false ∧
      s.clog w.xid = .Committed ∧ w.xid ∉ s.txn.mgr.active ∧ ∀ S ∈ s.txn.live, S.before w.xid

section Basics

variable {s s' : Store} {tid a b : Tid} {h : TupleHeader} {v : ℕ} {V : Version}

theorem StoreInv.held_ne (hs : StoreInv s) (hr : s.rows a = none) (hv : s.held tid = some v) :
    tid ≠ a := by
  rintro rfl
  obtain ⟨h, V, hat⟩ := hs.held_at tid v hv
  rw [hat.row] at hr
  simp at hr

theorem StoreInv.held_lt (hs : StoreInv s) (hv : s.held tid = some v) :
    v < s.versions.length := by
  obtain ⟨h, V, hat⟩ := hs.held_at tid v hv
  exact (List.getElem?_eq_some_iff.mp hat.version).1

theorem Store.At.unique {h' : TupleHeader} {v' : ℕ} {V' : Version} (h1 : s.At tid h v V)
    (h2 : s.At tid h' v' V') : h = h' ∧ v = v' ∧ V = V' := by
  obtain rfl : v = v' := Option.mem_unique h1.held h2.held
  have hrow := Option.mem_unique h1.row h2.row
  exact ⟨congrArg Prod.fst hrow, rfl, Option.mem_unique h1.version h2.version⟩

/-- The link of a row, in terms of versions. -/
theorem StoreInv.hot_link_held (hs : StoreInv s) (hab : hot_link s.rows a = some b) :
    b.page_id = a.page_id ∧ ∃ v u U, s.held a = some v ∧ s.held b = some u ∧
      s.versions[u]? = some U ∧ U.hot_prev = some v := by
  obtain ⟨h, values, hr, hu, rfl⟩ := hot_link_eq_some.mp hab
  obtain ⟨v, V, hat, -⟩ := hs.row_at a h values hr
  obtain ⟨hpage, u, U, hheld, hU, hprev⟩ := (hs.ok _ _ _ _ hat).link hu
  exact ⟨hpage, v, u, U, hat.held, hheld, hU, hprev⟩

/-- Links are well formed: versions climb along them. -/
theorem StoreInv.wellLinked (hs : StoreInv s) :
    WellLinked s.rows fun tid => (s.held tid).getD 0 where
  same_page a b hab := (hs.hot_link_held hab).1
  stored a b hab := by
    obtain ⟨-, v, u, U, -, hu, -⟩ := hs.hot_link_held hab
    obtain ⟨h, V, hat⟩ := hs.held_at b u hu
    exact ⟨_, hat.row⟩
  heap_only a b hab := by
    obtain ⟨-, v, u, U, -, hu, hU, hprev⟩ := hs.hot_link_held hab
    obtain ⟨h, V, hat⟩ := hs.held_at b u hu
    obtain rfl : U = V := Option.mem_unique hU hat.version
    rw [heap_only_at_of_row hat.row, (hs.ok _ _ _ _ hat).heap_only, hprev]
    rfl
  climbs a b hab := by
    obtain ⟨-, v, u, U, hv, hu, hU, hprev⟩ := hs.hot_link_held hab
    rw [hv, hu]
    exact (hs.history.hot_prev u U v hU hprev).1
  injective a b c hac hbc := by
    obtain ⟨-, v, u, U, hv, hu, hU, hprev⟩ := hs.hot_link_held hac
    obtain ⟨-, v', u', U', hv', hu', hU', hprev'⟩ := hs.hot_link_held hbc
    obtain rfl : u = u' := Option.mem_unique hu hu'
    obtain rfl : U = U' := Option.mem_unique hU hU'
    obtain rfl : v = v' := Option.mem_unique hprev hprev'
    exact hs.injective a b v hv hv'

/-- Outcomes stay, and the history grows. -/
structure Store.Grows (s s' : Store) : Prop where
  clock_le : s.txn.mgr.txn_id_clock ≤ s'.txn.mgr.txn_id_clock
  terminal : ∀ x, (s.clog x).Terminal → s'.clog x = s.clog x
  versions : ∀ (i : ℕ) (W : Version), s.versions[i]? = some W → s'.versions[i]? = some W
  stamps : ∀ w ∈ s.stamps, w ∈ s'.stamps

theorem Store.Grows.trans {s'' : Store} (h1 : s.Grows s') (h2 : s'.Grows s'') : s.Grows s'' where
  clock_le := h1.clock_le.trans h2.clock_le
  terminal x hx := by
    have h := h1.terminal x hx
    rw [h2.terminal x (by rw [h]; exact hx), h]
  versions i W hW := h2.versions i W (h1.versions i W hW)
  stamps w hw := h2.stamps w (h1.stamps w hw)

variable {x : TxnId}

theorem Store.Grows.outcome (hg : s.Grows s') {state : TxnState} (hterm : state.Terminal)
    (hx : s.clog x = state) : s'.clog x = state := by
  rw [hg.terminal x (by rw [hx]; exact hterm), hx]

theorem Store.Grows.aborted (hg : s.Grows s') (hx : s.clog x = .Aborted) :
    s'.clog x = .Aborted := hg.outcome trivial hx

theorem Store.Grows.not_terminal (hg : s.Grows s') (hx : ¬ (s'.clog x).Terminal) :
    ¬ (s.clog x).Terminal := by
  intro hterm
  apply hx
  rw [hg.terminal x hterm]
  exact hterm

theorem Store.Grows.wrote (hg : s.Grows s') {c : ℕ} (hw : s.Wrote x c) :
    s'.Wrote x c := by
  rcases hw with ⟨W, hW, hx⟩ | ⟨w, hw, hx⟩
  · obtain ⟨i, hi⟩ := List.getElem?_of_mem hW
    exact .inl ⟨W, List.mem_of_getElem? (hg.versions i W hi), hx⟩
  · exact .inr ⟨w, hg.stamps w hw, hx⟩

/-- Rows and held versions belong together. -/
structure Store.Housed (s : Store) : Prop where
  row_at : ∀ tid h values, s.rows tid = some (h, values) →
    ∃ v V, s.At tid h v V ∧ V.values = values
  held_at : ∀ tid v, s.held tid = some v → ∃ h V, s.At tid h v V

/-- A change leaves a slot as it was, or puts a row there with its version. -/
theorem StoreInv.housed (hs : StoreInv s) (hg : s.Grows s')
    (hslot : ∀ tid, (s'.rows tid = s.rows tid ∧ s'.held tid = s.held tid) ∨
      ∃ h v V, s'.At tid h v V) : s'.Housed where
  row_at tid h values hr := by
    rcases hslot tid with ⟨hrow, hheld⟩ | ⟨h', v, V, hat⟩
    · obtain ⟨v, V, hat, hval⟩ := hs.row_at tid h values (hrow.symm.trans hr)
      exact ⟨v, V, ⟨hrow.trans hat.row, hheld.trans hat.held, hg.versions v V hat.version⟩, hval⟩
    · obtain ⟨rfl, rfl⟩ := Prod.mk.injEq .. ▸ Option.mem_unique hat.row hr
      exact ⟨v, V, hat, rfl⟩
  held_at tid v hv := by
    rcases hslot tid with ⟨hrow, hheld⟩ | ⟨h, u, V, hat⟩
    · obtain ⟨h, V, hat⟩ := hs.held_at tid v (hheld.symm.trans hv)
      exact ⟨h, V, hrow.trans hat.row, hheld.trans hat.held, hg.versions v V hat.version⟩
    · obtain rfl : u = v := Option.mem_unique hat.held hv
      exact ⟨h, V, hat⟩

/-- The row of a slot that was left as it was. -/
theorem StoreInv.at_of_slot (hs : StoreInv s) (hg : s.Grows s') (hrow : s'.rows tid = s.rows tid)
    (hheld : s'.held tid = s.held tid) (hat : s'.At tid h v V) : s.At tid h v V := by
  obtain ⟨_, W, hatW⟩ := hs.held_at tid v (hheld.symm.trans hat.held)
  obtain rfl : W = V := Option.mem_unique (hg.versions v W hatW.version) hat.version
  exact ⟨hrow.symm.trans hat.row, hatW.held, hatW.version⟩

/-- A row that is left alone, and whose version got no new real stamp. -/
theorem Store.RowOk.mono (hr : s.RowOk tid h v V) (hg : s.Grows s')
    (hnew : ∀ w ∈ s'.stamps, w.version = v → w.lock = false → w ∈ s.stamps)
    (hheld : ∀ u, h.hot_updated = true → s.held h.t_ctid = some u → s'.held h.t_ctid = some u) :
    s'.RowOk tid h v V where
  xmin := hr.xmin
  heap_only := hr.heap_only
  xmax_lt := lt_of_lt_of_le hr.xmax_lt hg.clock_le
  share := hr.share
  real hl hx := by
    obtain ⟨w, hw, hrest⟩ := hr.real hl hx
    exact ⟨w, hg.stamps w hw, hrest⟩
  stamped w hw hv hlock := (hr.stamped w (hnew w hw hv hlock) hv hlock).imp_left hg.aborted
  cid_xmin hx := hg.wrote (hr.cid_xmin (hg.not_terminal hx))
  cid_xmax hl hinv hx := hg.wrote (hr.cid_xmax hl hinv (hg.not_terminal hx))
  link hu := by
    obtain ⟨hpage, u, U, hheldu, hU, hprev⟩ := hr.link hu
    exact ⟨hpage, u, U, hheld u hu hheldu, hg.versions u U hU, hprev⟩

/-- A row is linked to whatever its own header says. -/
theorem hot_link_update_of_ne {rows : Tid → Option Row} {r : Option Row} (hne : a ≠ tid) :
    hot_link (update rows tid r) a = hot_link rows a := by
  rw [hot_link, hot_link, update_of_ne hne]

end Basics

/-! ## Transaction steps -/

theorem StoreInv.txn_step {s : Store} (hs : StoreInv s) {op : TxnOp} {t' : TxnSys}
    (h : TxnSys.step s.txn op = some t') : StoreInv { s with txn := t' } := by
  have hl := hs.txn.later h
  have hg : s.Grows { s with txn := t' } :=
    ⟨hl.clock_le, hl.terminal, fun _ _ h => h, fun _ h => h⟩
  have hat : ∀ {tid h v V}, Store.At { s with txn := t' } tid h v V → s.At tid h v V :=
    fun hat => ⟨hat.row, hat.held, hat.version⟩
  have hh := hs.housed hg fun _ => .inl ⟨rfl, rfl⟩
  refine ⟨hs.txn.step h, hs.history.txn hs.txn h, hh.row_at, hh.held_at, hs.injective,
    fun tid hd v V hA => ?_, fun hot tid hd v V p hA hp hc => ?_, fun v V hV hno => ?_⟩
  · exact (hs.ok tid hd v V (hat hA)).mono hg (fun _ hw _ _ => hw) fun _ _ hu => hu
  · exact hs.linked hot tid hd v V p (hat hA) hp fun hab => hc (hg.aborted hab)
  · rcases hs.gone v V hV hno with hab | ⟨w, hw, hwv, hlock, hcom, hact, hlive⟩
    · exact .inl (hg.aborted hab)
    · have hlt := (hs.history.stamper w hw).2
      refine .inr ⟨w, hw, hwv, hlock, hg.outcome trivial hcom, (hl.gone _ hlt hact).2,
        fun S hS => ?_⟩
      rcases TxnSys.live_cases h hS with hS | hS
      · exact hlive S hS
      · exact (hS _).mpr ⟨hlt, hact⟩

/-! ## New rows -/

/-- The header of a new row, before anything was applied to it. -/
structure FreshHeader (h : TupleHeader) (V : Version) : Prop where
  xmin : h.t_xmin = V.creator
  xmax : h.t_xmax = TxnId.INVALID
  cid : h.t_cid = V.cid
  heap_only : h.heap_only = V.hot_prev.isSome
  hot_updated : h.hot_updated = false
  lock_only : h.lock_only = false
  is_share : h.is_share = false

/-- Put a new version into a free slot. -/
def Store.place (s : Store) (tid : Tid) (h : TupleHeader) (V : Version) : Store where
  toHistory := s.toHistory.create V
  txn := s.txn
  rows := update s.rows tid (some (h, V.values))
  held := update s.held tid (some s.versions.length)

section Place

variable {s : Store} {tid : Tid} {h : TupleHeader} {V : Version}

theorem Store.grows_place : s.Grows (s.place tid h V) :=
  ⟨le_refl _, fun _ _ => rfl, fun _ _ hi => History.create_of_lt hi, fun _ hw => hw⟩

theorem Store.at_place_self : (s.place tid h V).At tid h s.versions.length V :=
  ⟨update_self .., update_self .., History.create_self _ _⟩

/-- The other rows are those of before. -/
theorem StoreInv.at_place (hs : StoreInv s) {tid' : Tid} {h' : TupleHeader} {v : ℕ} {W : Version}
    (hat : (s.place tid h V).At tid' h' v W) :
    (tid' = tid ∧ h' = h ∧ v = s.versions.length ∧ W = V) ∨ tid' ≠ tid ∧ s.At tid' h' v W := by
  by_cases hne : tid' = tid
  · subst hne
    exact .inl ⟨rfl, hat.unique Store.at_place_self⟩
  · exact .inr ⟨hne, hs.at_of_slot Store.grows_place (update_of_ne hne _ _)
      (update_of_ne hne _ _) hat⟩

/-- The new version is not held anywhere else. -/
theorem StoreInv.injective_update (hs : StoreInv s) (a b : Tid) (v : ℕ)
    (ha : update s.held tid (some s.versions.length) a = some v)
    (hb : update s.held tid (some s.versions.length) b = some v) : a = b := by
  have hcase : ∀ c, update s.held tid (some s.versions.length) c = some v →
      c = tid ∧ v = s.versions.length ∨ c ≠ tid ∧ s.held c = some v := by
    intro c hc
    by_cases hne : c = tid
    · rw [hne, update_self, Option.some.injEq] at hc
      exact .inl ⟨hne, hc.symm⟩
    · rw [update_of_ne hne] at hc
      exact .inr ⟨hne, hc⟩
  rcases hcase a ha with ⟨ha, hv⟩ | ⟨-, ha⟩
  · rcases hcase b hb with ⟨hb, -⟩ | ⟨-, hb⟩
    · rw [ha, hb]
    · exact absurd (hs.held_lt hb) (by rw [hv]; exact lt_irrefl _)
  · rcases hcase b hb with ⟨-, hv⟩ | ⟨-, hb⟩
    · exact absurd (hs.held_lt ha) (by rw [hv]; exact lt_irrefl _)
    · exact hs.injective a b v ha hb

/-- A new row has nothing to answer for yet. -/
theorem StoreInv.rowOk_fresh (hs : StoreInv s) {s' : Store}
    (hstamps : s'.stamps = s.stamps) (hV : V ∈ s'.versions) (hf : FreshHeader h V)
    (hx : TxnSys.Unfinished s'.txn.mgr V.creator) :
    s'.RowOk tid h s.versions.length V where
  xmin := hf.xmin
  heap_only := hf.heap_only
  xmax_lt := by
    rw [hf.xmax]
    exact Nat.zero_lt_of_lt hx.2.1
  share hsh := by
    rw [hf.is_share] at hsh
    exact absurd hsh (by decide)
  real _ hne := absurd hf.xmax hne
  stamped w hw hv _ := by
    -- stamps are on versions that were there
    rw [hstamps] at hw
    obtain ⟨W, hW, -⟩ := hs.history.settled w hw
    rw [hv, List.getElem?_eq_none (le_refl _)] at hW
    simp at hW
  cid_xmin _ := .inl ⟨V, hV, hf.xmin.symm, hf.cid.symm⟩
  cid_xmax _ hne := absurd hf.xmax hne
  link hu := by
    rw [hf.hot_updated] at hu
    exact absurd hu (by decide)

/-- **An insert**, and the new row of an update that is not HOT. -/
theorem StoreInv.place (hs : StoreInv s) (hfree : s.rows tid = none) (hf : FreshHeader h V)
    (hprev : V.hot_prev = none) (hx : TxnSys.Unfinished s.txn.mgr V.creator) :
    StoreInv (s.place tid h V) := by
  have hg : s.Grows (s.place tid h V) := Store.grows_place
  have hold : ∀ {tid' v}, s.held tid' = some v → tid' ≠ tid := hs.held_ne hfree
  have hh := hs.housed hg fun tid' => by
    rcases eq_or_ne tid' tid with rfl | hne
    · exact .inr ⟨h, _, V, Store.at_place_self⟩
    · exact .inl ⟨update_of_ne hne _ _, update_of_ne hne _ _⟩
  refine ⟨hs.txn, ?_, hh.row_at, hh.held_at, hs.injective_update, fun tid' h' v W hat => ?_,
    fun hot tid' h' v W p hat hp hc => ?_, fun v W hW hno => ?_⟩
  · exact hs.history.create ⟨hx.1, hx.2.1⟩ fun p hp => by rw [hprev] at hp; simp at hp
  · rcases hs.at_place hat with ⟨rfl, rfl, rfl, rfl⟩ | ⟨hne, hat'⟩
    · exact hs.rowOk_fresh rfl (List.mem_append_right _ (List.mem_singleton_self _)) hf hx
    · refine (hs.ok _ _ _ _ hat').mono hg (fun _ hw _ _ => hw) fun u _ hu => ?_
      exact (update_of_ne (hold hu) _ _).trans hu
  · rcases hs.at_place hat with ⟨-, -, -, rfl⟩ | ⟨hne, hat'⟩
    · rw [hprev] at hp
      simp at hp
    · obtain ⟨a, ha, hlink⟩ := hs.linked hot.of_create tid' h' v W p hat' hp hc
      refine ⟨a, (update_of_ne (hold ha) _ _).trans ha, ?_⟩
      exact (hot_link_update_of_ne (hold ha)).trans hlink
  · rcases History.create_cases hW with ⟨rfl, rfl⟩ | hW
    · exact absurd (update_self ..) (hno tid)
    · refine hs.gone v W hW fun tid' hv => hno tid' ?_
      exact (update_of_ne (hold hv) _ _).trans hv

end Place

/-! ## Stamps -/

/-- The header a stamp leaves: `t_xmax` and `t_cid` are the stamp's, and what makes the
chain stays. -/
structure Restamped (h h' : TupleHeader) (w : Stamp) : Prop where
  xmin : h'.t_xmin = h.t_xmin
  ctid : h'.t_ctid = h.t_ctid
  heap_only : h'.heap_only = h.heap_only
  hot_updated : h'.hot_updated = h.hot_updated
  xmax : h'.t_xmax = w.xid
  cid : h'.t_cid = w.cid
  lock_only : h'.lock_only = w.lock
  share : h'.is_share = true → h'.lock_only = true

/-- What the gate lets a stamp overwrite: nothing, a lock, an own write if it is a write
itself, or a write that aborted. -/
def Overwritable (clog : Clog) (h : TupleHeader) (w : Stamp) : Prop :=
  h.t_xmax = TxnId.INVALID ∨ h.lock_only = true ∨ (h.t_xmax = w.xid ∧ w.lock = false) ∨
    clog h.t_xmax = .Aborted

/-- Replace the header of a row. -/
def Store.stamp (s : Store) (tid : Tid) (h : TupleHeader) (values : List (Option Datum))
    (w : Stamp) : Store where
  toHistory := s.toHistory.apply w
  txn := s.txn
  rows := update s.rows tid (some (h, values))
  held := s.held

section StampRow

variable {s : Store} {tid : Tid} {h h' : TupleHeader} {v : ℕ} {V : Version} {w : Stamp}

variable {values : List (Option Datum)}

theorem Store.stamp_rows :
    (s.stamp tid h values w).rows = update s.rows tid (some (h, values)) := rfl

theorem Store.grows_stamp : s.Grows (s.stamp tid h values w) :=
  ⟨le_refl _, fun _ _ => rfl, fun _ _ hi => hi, fun _ hw => List.mem_append_left _ hw⟩

theorem Store.At.stamp_self (hat : s.At tid h v V) : (s.stamp tid h' V.values w).At tid h' v V :=
  ⟨by rw [Store.stamp_rows, update_self], hat.held, hat.version⟩

theorem Store.At.stamp_cases (hat : s.At tid h v V) {tid' : Tid} {hd : TupleHeader} {u : ℕ}
    {U : Version} (hat' : (s.stamp tid h' V.values w).At tid' hd u U) :
    (tid' = tid ∧ hd = h' ∧ u = v ∧ U = V) ∨ tid' ≠ tid ∧ s.At tid' hd u U := by
  by_cases hne : tid' = tid
  · subst hne
    exact .inl ⟨rfl, hat'.unique hat.stamp_self⟩
  · have hrow := hat'.row
    rw [Store.stamp_rows, update_of_ne hne] at hrow
    exact .inr ⟨hne, hrow, hat'.held, hat'.version⟩

/-- Stamps leave the links. -/
theorem Restamped.hot_link_eq {rows : Tid → Option Row} (hr : rows tid = some (h, values))
    (hst : Restamped h h' w) :
    hot_link (update rows tid (some (h', values))) = hot_link rows := by
  funext a
  by_cases hne : a = tid
  · subst hne
    rw [hot_link_of_row hr, hot_link_of_row (update_self _ _ _), hst.hot_updated, hst.ctid]
  · exact hot_link_update_of_ne hne

/-- The stamped row: an earlier real stamp aborted, or it was the same transaction's. -/
theorem Store.RowOk.stamp (hr : s.RowOk tid h v V)
    (hstamper : ∀ w ∈ s.stamps, w.xid ≠ TxnId.INVALID) (hw : w.version = v)
    (hst : Restamped h h' w) (hov : Overwritable s.clog h w)
    (hx : TxnSys.Unfinished s.txn.mgr w.xid)
    (hover : V.creator = w.xid ∨ s.clog V.creator = .Committed) :
    (s.stamp tid h' V.values w).RowOk tid h' v V where
  xmin := hst.xmin.trans hr.xmin
  heap_only := hst.heap_only.trans hr.heap_only
  xmax_lt := by
    rw [hst.xmax]
    exact hx.2.1
  share := hst.share
  real hl _ := by
    rw [hst.lock_only] at hl
    exact ⟨w, History.apply_self _ _, hw, hst.xmax.symm, hl⟩
  stamped w' hw' hv hlock := by
    rcases History.mem_apply hw' with rfl | hw'
    · exact .inr ⟨hst.xmax, hst.lock_only.trans hlock⟩
    · rcases hr.stamped w' hw' hv hlock with hab | ⟨hxm, hl⟩
      · exact .inl hab
      · -- the header held this stamp, so the gate has judged it
        rcases hov with hinv | hl' | ⟨hself, hwr⟩ | hab
        · exact absurd (hxm.symm.trans hinv) (hstamper w' hw')
        · rw [hl] at hl'
          exact absurd hl' (by decide)
        · exact .inr ⟨by rw [hst.xmax, ← hself, hxm], hst.lock_only.trans hwr⟩
        · rw [hxm] at hab
          exact .inl hab
  cid_xmin hterm := by
    -- a creator that still runs is the writer
    rw [hst.xmin, hr.xmin] at hterm ⊢
    rcases hover with heq | hcom
    · exact .inr ⟨w, History.apply_self _ _, heq.symm, hst.cid.symm⟩
    · have hcom' : (s.stamp tid h' V.values w).clog V.creator = .Committed := hcom
      rw [hcom'] at hterm
      exact absurd trivial hterm
  cid_xmax _ _ _ := by
    rw [hst.xmax]
    exact .inr ⟨w, History.apply_self _ _, rfl, hst.cid.symm⟩
  link hu := by
    rw [hst.hot_updated] at hu
    rw [hst.ctid]
    exact hr.link hu

/-- **A delete, a row lock**, and the old row of an update. -/
theorem StoreInv.stamp (hs : StoreInv s) (hat : s.At tid h v V) (hw : w.version = v)
    (hst : Restamped h h' w) (hov : Overwritable s.clog h w)
    (hx : TxnSys.Unfinished s.txn.mgr w.xid)
    (hover : V.creator = w.xid ∨ s.clog V.creator = .Committed ∧ V.creator ∉ s.txn.mgr.active) :
    StoreInv (s.stamp tid h' V.values w) := by
  have hg : s.Grows (s.stamp tid h' V.values w) := Store.grows_stamp
  have hlinks : hot_link (s.stamp tid h' V.values w).rows = hot_link s.rows :=
    hst.hot_link_eq hat.row
  have hh := hs.housed hg fun a => by
    rcases eq_or_ne a tid with rfl | hne
    · exact .inr ⟨h', v, V, hat.stamp_self⟩
    · exact .inl ⟨update_of_ne hne _ _, rfl⟩
  refine ⟨hs.txn, ?_, hh.row_at, hh.held_at, hs.injective, fun a hd u U hat' => ?_,
    fun hot a hd u U p hat' hp hc => ?_, fun u U hU hno => ?_⟩
  · exact hs.history.apply hs.txn hx (by rw [hw]; exact hat.version) hover
  · rcases hat.stamp_cases hat' with ⟨rfl, rfl, rfl, rfl⟩ | ⟨hne, hatu⟩
    · exact (hs.ok _ _ _ _ hat).stamp (fun w hw => (hs.history.stamper w hw).1) hw hst hov hx
        (hover.imp_right And.left)
    · refine (hs.ok _ _ _ _ hatu).mono hg (fun w' hw' hv _ => ?_) fun _ _ hu => hu
      -- the new stamp is on another version
      rcases History.mem_apply hw' with rfl | hw'
      · refine absurd (hs.injective a tid u hatu.held ?_) hne
        rw [hat.held, ← hw, hv]
      · exact hw'
  · obtain ⟨hd0, hat0⟩ : ∃ hd0, s.At a hd0 u U := by
      rcases hat.stamp_cases hat' with ⟨rfl, -, rfl, rfl⟩ | ⟨-, hatu⟩
      · exact ⟨h, hat⟩
      · exact ⟨hd, hatu⟩
    rw [hlinks]
    exact hs.linked hot a hd0 u U p hat0 hp hc
  · rcases hs.gone u U hU hno with hab | ⟨w', hw', hrest⟩
    · exact .inl hab
    · exact .inr ⟨w', List.mem_append_left _ hw', hrest⟩

/-- A row lock that is granted without a stamp. -/
theorem StoreInv.apply_lock (hs : StoreInv s) (hV : s.versions[w.version]? = some V)
    (hlock : w.lock = true) (hx : TxnSys.Unfinished s.txn.mgr w.xid)
    (hover : V.creator = w.xid ∨ s.clog V.creator = .Committed ∧ V.creator ∉ s.txn.mgr.active) :
    StoreInv { s with toHistory := s.toHistory.apply w } := by
  have hg : s.Grows { s with toHistory := s.toHistory.apply w } :=
    ⟨le_refl _, fun _ _ => rfl, fun _ _ hi => hi, fun _ hw => List.mem_append_left _ hw⟩
  have hh := hs.housed hg fun _ => .inl ⟨rfl, rfl⟩
  refine ⟨hs.txn, hs.history.apply hs.txn hx hV hover, hh.row_at, hh.held_at, hs.injective,
    fun a hd u U hat => ?_, fun hot a hd u U p hat => ?_, fun u U hU hno => ?_⟩
  · refine (hs.ok a hd u U ⟨hat.row, hat.held, hat.version⟩).mono hg (fun w' hw' _ hl => ?_)
      fun _ _ hu => hu
    rcases History.mem_apply hw' with rfl | hw'
    · rw [hlock] at hl
      exact absurd hl (by decide)
    · exact hw'
  · exact hs.linked hot a hd u U p ⟨hat.row, hat.held, hat.version⟩
  · rcases hs.gone u U hU hno with hab | ⟨w', hw', hrest⟩
    · exact .inl hab
    · exact .inr ⟨w', List.mem_append_left _ hw', hrest⟩

end StampRow

/-! ## HOT successors -/

/-- The header of a row that got a HOT successor at `tid`. -/
structure Relinked (h h' : TupleHeader) (tid : Tid) : Prop where
  xmin : h'.t_xmin = h.t_xmin
  xmax : h'.t_xmax = h.t_xmax
  cid : h'.t_cid = h.t_cid
  heap_only : h'.heap_only = h.heap_only
  lock_only : h'.lock_only = h.lock_only
  is_share : h'.is_share = h.is_share
  hot_updated : h'.hot_updated = true
  ctid : h'.t_ctid = tid

/-- Put a new version into a free slot and link the row at `a` to it. -/
def Store.link (s : Store) (a : Tid) (h' : TupleHeader) (values : List (Option Datum)) (b : Tid)
    (hb : TupleHeader) (U : Version) : Store where
  toHistory := s.toHistory.create U
  txn := s.txn
  rows := update (update s.rows a (some (h', values))) b (some (hb, U.values))
  held := update s.held b (some s.versions.length)

section Link

variable {s : Store} {a b : Tid} {h h' hb : TupleHeader} {v : ℕ} {V U : Version}

variable {values : List (Option Datum)}

theorem Store.link_rows : (s.link a h' values b hb U).rows =
    update (update s.rows a (some (h', values))) b (some (hb, U.values)) := rfl

theorem Store.link_held : (s.link a h' values b hb U).held =
    update s.held b (some s.versions.length) := rfl

theorem Store.grows_link : s.Grows (s.link a h' values b hb U) :=
  ⟨le_refl _, fun _ _ => rfl, fun _ _ hi => History.create_of_lt hi, fun _ hw => hw⟩

theorem Store.at_link_new :
    (s.link a h' values b hb U).At b hb s.versions.length U :=
  ⟨by rw [Store.link_rows, update_self], by rw [Store.link_held, update_self],
    History.create_self _ _⟩

theorem Store.At.link_old (hat : s.At a h v V) (hne : a ≠ b) :
    (s.link a h' V.values b hb U).At a h' v V :=
  ⟨by rw [Store.link_rows, update_of_ne hne, update_self],
    by rw [Store.link_held, update_of_ne hne, hat.held], History.create_of_lt hat.version⟩

theorem Store.link_rows_of_ne {c : Tid} (hca : c ≠ a) (hcb : c ≠ b) :
    (s.link a h' values b hb U).rows c = s.rows c :=
  (update_of_ne hcb _ _).trans (update_of_ne hca _ _)

/-- The rows afterwards: the new one, the one linked to it, and the others. -/
theorem StoreInv.at_link (hs : StoreInv s) (hat : s.At a h v V) (hab : a ≠ b) {c : Tid}
    {hc : TupleHeader} {u : ℕ} {W : Version} (hatc : (s.link a h' V.values b hb U).At c hc u W) :
    (c = b ∧ hc = hb ∧ u = s.versions.length ∧ W = U) ∨ (c = a ∧ hc = h' ∧ u = v ∧ W = V) ∨
      (c ≠ b ∧ c ≠ a ∧ s.At c hc u W) := by
  by_cases hcb : c = b
  · subst hcb
    exact .inl ⟨rfl, hatc.unique Store.at_link_new⟩
  by_cases hca : c = a
  · subst hca
    exact .inr (.inl ⟨rfl, hatc.unique (hat.link_old hab)⟩)
  · exact .inr (.inr ⟨hcb, hca, hs.at_of_slot Store.grows_link (Store.link_rows_of_ne hca hcb)
      (update_of_ne hcb _ _) hatc⟩)

/-- **A HOT update**, after the old row got its stamp. -/
theorem StoreInv.link (hs : StoreInv s) (hat : s.At a h v V) (hfree : s.rows b = none)
    (hpage : b.page_id = a.page_id) (hre : Relinked h h' b) (hf : FreshHeader hb U)
    (hprev : U.hot_prev = some v) (hxm : h.t_xmax = U.creator) (hreal : h.lock_only = false)
    (hx : TxnSys.Unfinished s.txn.mgr U.creator) : StoreInv (s.link a h' V.values b hb U) := by
  have hg : s.Grows (s.link a h' V.values b hb U) := Store.grows_link
  have hold : ∀ {c u}, s.held c = some u → c ≠ b := hs.held_ne hfree
  have hab : a ≠ b := hold hat.held
  have hok := hs.ok _ _ _ _ hat
  have hvlt := hs.held_lt hat.held
  have hh := hs.housed hg fun c => by
    rcases eq_or_ne c b with rfl | hcb
    · exact .inr ⟨hb, _, U, Store.at_link_new⟩
    rcases eq_or_ne c a with rfl | hca
    · exact .inr ⟨h', v, V, hat.link_old hab⟩
    · exact .inl ⟨Store.link_rows_of_ne hca hcb, update_of_ne hcb _ _⟩
  refine ⟨hs.txn, ?_, hh.row_at, hh.held_at, hs.injective_update, fun c hc u W hatc => ?_,
    fun hot c hc u W p hatc hp hnab => ?_, fun u W hW hno => ?_⟩
  · refine hs.history.create ⟨hx.1, hx.2.1⟩ fun p hp => ?_
    obtain rfl : v = p := Option.mem_unique hprev hp
    obtain ⟨w, hw, hwv, hwx, hwl⟩ := hok.real hreal (by rw [hxm]; exact hx.1)
    exact ⟨hvlt, w, hw, hwv, hwx.trans hxm, hwl⟩
  · rcases hs.at_link hat hab hatc with ⟨rfl, rfl, rfl, rfl⟩ | ⟨rfl, rfl, rfl, rfl⟩ | ⟨hcb, hca, hatc⟩
    · exact hs.rowOk_fresh rfl (List.mem_append_right _ (List.mem_singleton_self _)) hf hx
    · -- the same stamp under a header with the new link
      refine ⟨hre.xmin.trans hok.xmin, hre.heap_only.trans hok.heap_only, ?_, fun hsh => ?_,
        fun hl hne => ?_, fun w hw hwv hwl => ?_, fun hterm => ?_, fun hl hne hterm => ?_, fun _ => ?_⟩
      · rw [hre.xmax]
        exact hok.xmax_lt
      · rw [hre.lock_only]
        exact hok.share (hre.is_share ▸ hsh)
      · rw [hre.xmax] at hne ⊢
        exact hok.real hreal hne
      · rw [hre.xmax, hre.lock_only]
        exact hok.stamped w hw hwv hwl
      · rw [hre.xmin] at hterm ⊢
        rw [hre.cid]
        exact (hok.cid_xmin hterm).create U
      · rw [hre.xmax] at hterm hne ⊢
        rw [hre.cid]
        exact (hok.cid_xmax hreal hne hterm).create U
      · rw [hre.ctid]
        refine ⟨hpage, s.versions.length, U, ?_, History.create_self _ _, hprev⟩
        rw [Store.link_held, update_self]
    · refine (hs.ok _ _ _ _ hatc).mono hg (fun _ hw _ _ => hw) fun u _ hu => ?_
      rw [Store.link_held, update_of_ne (hold hu), hu]
  · rcases hs.at_link hat hab hatc with ⟨rfl, rfl, rfl, rfl⟩ | hrest
    · obtain rfl : v = p := Option.mem_unique hprev hp
      refine ⟨a, by rw [Store.link_held, update_of_ne hab, hat.held], ?_⟩
      rw [Store.link_rows, hot_link_update_of_ne hab, hot_link_of_row (update_self _ _ _),
        hre.hot_updated, if_pos rfl, hre.ctid]
    · -- an old member: its link is still there unless it was the one at `a`
      have hatc0 : ∃ hc0, s.At c hc0 u W := by
        rcases hrest with ⟨rfl, -, rfl, rfl⟩ | ⟨-, -, hatc⟩
        · exact ⟨h, hat⟩
        · exact ⟨hc, hatc⟩
      obtain ⟨hc0, hatc0⟩ := hatc0
      obtain ⟨d, hd, hlink⟩ := hs.linked hot.of_create c hc0 u W p hatc0 hp hnab
      have hdb := hold hd
      refine ⟨d, by rw [Store.link_held, update_of_ne hdb, hd], ?_⟩
      rw [Store.link_rows, hot_link_update_of_ne hdb]
      by_cases hda : d = a
      · -- then its creator is the stamp in the header: a second HOT update of the row
        exfalso
        subst hda
        obtain rfl : v = p := Option.mem_unique hat.held hd
        obtain ⟨-, w, hw, hwv, hwx, hwl⟩ := hs.history.hot_prev u W v hatc0.version hp
        rcases hok.stamped w hw hwv hwl with habt | ⟨hxw, -⟩
        · rw [hwx] at habt
          exact hnab habt
        · have hsame : W.creator = U.creator := by rw [← hwx, ← hxw, hxm]
          have heq := hot u s.versions.length W U v (History.create_of_lt hatc0.version)
            (History.create_self _ _) hsame hp hprev
          exact absurd (hs.held_lt hatc0.held) (by rw [heq]; exact lt_irrefl _)
      · rw [hot_link_update_of_ne hda]
        exact hlink
  · rcases History.create_cases hW with ⟨rfl, rfl⟩ | hW
    · exact absurd (by rw [Store.link_held, update_self]) (hno b)
    · refine hs.gone u W hW fun c hc => hno c ?_
      rw [Store.link_held, update_of_ne (hold hc), hc]

end Link

/-! ## Removal -/

/-- Take rows away. -/
def Store.remove (s : Store) (rows : Tid → Option Row) : Store where
  toHistory := s.toHistory
  txn := s.txn
  rows := rows
  held := fun tid => if (rows tid).isSome then s.held tid else none

section Remove

variable {s : Store} {rows : Tid → Option Row} {horizon : TxnId}

theorem StoreInv.at_remove {tid : Tid} {h : TupleHeader} {v : ℕ} {V : Version}
    (hkept : ∀ tid, rows tid = none ∨ rows tid = s.rows tid) :
    (s.remove rows).At tid h v V ↔ s.At tid h v V ∧ rows tid = s.rows tid := by
  constructor
  · intro hat
    have hrow : rows tid = some (h, V.values) := hat.row
    have hheld : (if (rows tid).isSome then s.held tid else none) = some v := hat.held
    rw [hrow, Option.isSome_some, if_pos rfl] at hheld
    rcases hkept tid with hn | hk
    · rw [hn] at hrow
      simp at hrow
    · exact ⟨⟨hk.symm.trans hrow, hheld, hat.version⟩, hk⟩
  · rintro ⟨hat, hk⟩
    refine ⟨hk.trans hat.row, ?_, hat.version⟩
    show (if (rows tid).isSome then s.held tid else none) = some v
    rw [hk, hat.row, Option.isSome_some, if_pos rfl, hat.held]

/-- **Vacuum.** Dead rows are taken away in whole chains. -/
theorem StoreInv.remove (hs : StoreInv s) (hhor : horizon ≤ s.txn.mgr.oldest_snapshot_xmin)
    (hkept : ∀ tid, rows tid = none ∨ rows tid = s.rows tid)
    (hdead : ∀ tid h values, s.rows tid = some (h, values) → rows tid = none →
      tuple_is_dead horizon s.clog h = true)
    (hclosed : ∀ a b, hot_link s.rows a = some b → (rows a = none ↔ rows b = none)) :
    StoreInv (s.remove rows) := by
  have hg : s.Grows (s.remove rows) :=
    ⟨le_refl _, fun _ _ => rfl, fun _ _ hi => hi, fun _ hw => hw⟩
  have hstay : ∀ {tid h v V}, s.At tid h v V → rows tid ≠ none → (s.remove rows).At tid h v V :=
    fun hat hne => (StoreInv.at_remove hkept).mpr ⟨hat, (hkept _).resolve_left hne⟩
  have hheld_of : ∀ {tid v}, (s.remove rows).held tid = some v →
      s.held tid = some v ∧ rows tid ≠ none := by
    intro tid v hv
    change (if (rows tid).isSome then s.held tid else none) = some v at hv
    split_ifs at hv with hsome
    exact ⟨hv, fun hn => by rw [hn] at hsome; exact absurd hsome (by decide)⟩
  have hheld_mk : ∀ {tid v}, s.held tid = some v → rows tid ≠ none →
      (s.remove rows).held tid = some v := by
    intro tid v hv hne
    show (if (rows tid).isSome then s.held tid else none) = some v
    rw [if_pos (Option.isSome_iff_ne_none.mpr hne), hv]
  refine ⟨hs.txn, hs.history, fun tid h values hr => ?_, fun tid v hv => ?_,
    fun a b v ha hb => hs.injective a b v (hheld_of ha).1 (hheld_of hb).1,
    fun tid h v V hat => ?_, fun hot tid h v V p hat hp hc => ?_, fun v V hV hno => ?_⟩
  · change rows tid = some (h, values) at hr
    have hne : rows tid ≠ none := by rw [hr]; simp
    obtain ⟨v, V, hat, hval⟩ := hs.row_at tid h values
      (((hkept tid).resolve_left hne).symm.trans hr)
    exact ⟨v, V, hstay hat hne, hval⟩
  · obtain ⟨hv, hne⟩ := hheld_of hv
    obtain ⟨h, V, hat⟩ := hs.held_at tid v hv
    exact ⟨h, V, hstay hat hne⟩
  · obtain ⟨hat0, hk⟩ := (StoreInv.at_remove hkept).mp hat
    refine (hs.ok _ _ _ _ hat0).mono hg (fun _ hw _ _ => hw) fun u hu hheld => hheld_mk hheld ?_
    -- a link of a row that stays leads to one that stays
    have hlink := hot_link_eq_some.mpr ⟨h, V.values, hat0.row, hu, rfl⟩
    rw [ne_eq, ← hclosed _ _ hlink, hk, hat0.row]
    simp
  · obtain ⟨hat0, hk⟩ := (StoreInv.at_remove hkept).mp hat
    obtain ⟨a, ha, hlink⟩ := hs.linked hot tid h v V p hat0 hp hc
    have hne : rows a ≠ none := by
      rw [ne_eq, hclosed _ _ hlink, hk, hat0.row]
      simp
    refine ⟨a, hheld_mk ha hne, ?_⟩
    show hot_link rows a = some tid
    rw [hot_link, (hkept a).resolve_left hne]
    exact hlink
  · by_cases hheld : ∃ tid, s.held tid = some v
    · -- taken away just now
      obtain ⟨tid, hv⟩ := hheld
      obtain ⟨h, W, hat⟩ := hs.held_at tid v hv
      obtain rfl : V = W := Option.mem_unique hV hat.version
      have hnone : rows tid = none := by
        by_contra hne
        exact hno tid (hheld_mk hv hne)
      have hok := hs.ok _ _ _ _ hat
      rcases (tuple_is_dead_iff _ _ _).mp (hdead tid h _ hat.row hnone) with hab |
        ⟨hlock, hinv, hlt, hcom⟩
      · rw [hok.xmin] at hab
        exact .inl hab
      · obtain ⟨w, hw, hwv, hwx, hwl⟩ := hok.real hlock hinv
        obtain ⟨hact, hlive⟩ := hs.txn.below_horizon (lt_of_lt_of_le hlt hhor)
        exact .inr ⟨w, hw, hwv, hwl, by rw [hwx]; exact hcom, by rw [hwx]; exact hact,
          by rw [hwx]; exact hlive⟩
    · exact hs.gone v V hV fun tid hv => hheld ⟨tid, hv⟩

end Remove

/-! ## Reads -/

/-- What a reader has to observe for its scan to show the history. Its own writes came at
earlier commands, its transaction is not over, and it HOT-updated only versions it
shows. -/
structure Reader (s : Store) (S : Snapshot) : Prop where
  wrote : ∀ c, s.Wrote S.current_xid c → c < S.curcid
  running : ¬ (s.clog S.current_xid).Terminal
  hot : ∀ V ∈ s.versions, V.creator = S.current_xid → ∀ p, V.hot_prev = some p →
    ∀ P, s.versions[p]? = some P → S.effective s.clog P.creator

section Reads

variable {s : Store} {S₀ S : Snapshot} {tid : Tid} {h : TupleHeader} {v : ℕ} {V : Version}

/-- The effects of a transaction that aborted are never effective. -/
theorem Reader.not_aborted (hR : Reader s S) {x : TxnId} (hx : S.effective s.clog x) :
    s.clog x ≠ .Aborted := by
  intro hab
  rcases hx with rfl | ⟨-, -, hcom⟩
  · exact hR.running (by rw [hab]; trivial)
  · rw [hab] at hcom
    exact absurd hcom (by decide)

/-- What a header shows of a transaction is what is effective, given the command. -/
theorem shows_iff_effective {clog : Clog} {x : TxnId} {c : ℕ}
    (hc : x = S.current_xid → c < S.curcid) : S.shows clog x c ↔ S.effective clog x := by
  unfold Snapshot.shows Snapshot.effective
  by_cases hx : x = S.current_xid
  · simp [hx, hc hx]
  · simp [hx]

/-- **A row is visible when its version is shown.** -/
theorem StoreInv.visible_iff (hs : StoreInv s) (hR : Reader s S) (hat : s.At tid h v V) :
    visible S s.clog h = true ↔ s.Shown s.clog S v := by
  have hok := hs.ok _ _ _ _ hat
  have hxmin : S.shows s.clog h.t_xmin h.t_cid ↔ S.effective s.clog V.creator := by
    rw [hok.xmin]
    apply shows_iff_effective
    intro hx
    have hw := hok.cid_xmin (by rw [hok.xmin, hx]; exact hR.running)
    rw [hok.xmin, hx] at hw
    exact hR.wrote _ hw
  have hxmax : h.lock_only = false → h.t_xmax ≠ TxnId.INVALID →
      (S.shows s.clog h.t_xmax h.t_cid ↔ S.effective s.clog h.t_xmax) := by
    intro hl hne
    apply shows_iff_effective
    intro hx
    have hw := hok.cid_xmax hl hne (by rw [hx]; exact hR.running)
    rw [hx] at hw
    exact hR.wrote _ hw
  rw [visible, is_visible_iff, hxmin]
  constructor
  · rintro ⟨heff, hnot⟩
    refine ⟨V, hat.version, heff, fun w hw hwv hwl hweff => ?_⟩
    -- an effective stamp did not abort, so it is in the header
    obtain ⟨hxw, hl⟩ := (hok.stamped w hw hwv hwl).resolve_left (hR.not_aborted hweff)
    have hne : h.t_xmax ≠ TxnId.INVALID := by
      rw [hxw]
      exact (hs.history.stamper w hw).1
    rw [TupleHeader.visibility_xmax, hl] at hnot
    rcases hnot with h0 | hns
    · exact hne h0
    · exact hns ((hxmax hl hne).mpr (by rw [hxw]; exact hweff))
  · rintro ⟨W, hW, heff, hnone⟩
    obtain rfl : V = W := Option.mem_unique hat.version hW
    refine ⟨heff, ?_⟩
    by_cases hl : h.lock_only = true
    · left
      rw [TupleHeader.visibility_xmax, if_pos hl]
    · rw [TupleHeader.visibility_xmax, if_neg hl]
      have hl' := Bool.eq_false_iff.mpr hl
      by_cases hne : h.t_xmax = TxnId.INVALID
      · exact .inl hne
      · right
        rw [hxmax hl' hne]
        obtain ⟨w, hw, hwv, hwx, hwl⟩ := hok.real hl' hne
        rw [← hwx]
        exact hnone w hw hwv hwl

/-- A version that is shown has a row. -/
theorem StoreInv.held_of_shown (hs : StoreInv s) (hS0 : S₀ ∈ s.txn.live)
    (hbefore : ∀ x, S₀.before x → S.before x) (hR : Reader s S) (hshown : s.Shown s.clog S v) :
    ∃ tid, s.held tid = some v := by
  by_contra hno
  obtain ⟨V, hV, heff, hnone⟩ := hshown
  rcases hs.gone v V hV fun tid hv => hno ⟨tid, hv⟩ with hab | ⟨w, hw, hwv, hwl, hcom, -, hlive⟩
  · exact hR.not_aborted heff hab
  · obtain ⟨hlt, hxip⟩ := hbefore _ (hlive S₀ hS0)
    exact hnone w hw hwv hwl (.inr ⟨hlt, hxip, hcom⟩)

/-- The version a shown one was made from by a HOT update was effective, and is hidden. -/
theorem StoreInv.hot_prev_effective (hs : StoreInv s) (hS0 : S₀ ∈ s.txn.live)
    (hbefore : ∀ x, S₀.before x ↔ S.before x) (hR : Reader s S) (hV : s.versions[v]? = some V)
    (heff : S.effective s.clog V.creator) {p : ℕ} (hp : V.hot_prev = some p) :
    (∃ P, s.versions[p]? = some P ∧ S.effective s.clog P.creator) ∧ ¬ s.Shown s.clog S p := by
  obtain ⟨-, w, hw, hwv, hwx, hwl⟩ := hs.history.hot_prev v V p hV hp
  constructor
  · obtain ⟨P, hP, hover⟩ := hs.history.settled w hw
    refine ⟨P, by rw [← hwv]; exact hP, ?_⟩
    rw [hwx] at hover
    rcases heff with hself | ⟨hlt, hxip, hcom⟩
    · exact hR.hot V (List.mem_of_getElem? hV) hself p hp P (by rw [← hwv]; exact hP)
    · rcases hover with heq | ⟨hPcom, -⟩
      · rw [heq]
        exact .inr ⟨hlt, hxip, hcom⟩
      · rcases hs.history.before S₀ hS0 w hw (by rw [hwx]; exact (hbefore _).mpr ⟨hlt, hxip⟩) P hP
          with heq | hb
        · rw [heq, hwx]
          exact .inr ⟨hlt, hxip, hcom⟩
        · obtain ⟨hlt', hxip'⟩ := (hbefore _).mp hb
          exact .inr ⟨hlt', hxip', hPcom⟩
  · rintro ⟨P, -, -, hnone⟩
    exact hnone w hw hwv hwl (by rw [hwx]; exact heff)

/-- **Every shown version is found.** The chain it is on leads from a root through
versions that the snapshot does not show. -/
theorem StoreInv.root_of_effective (hs : StoreInv s) (hot : s.HotOnce) (hS0 : S₀ ∈ s.txn.live)
    (hbefore : ∀ x, S₀.before x ↔ S.before x) (hR : Reader s S) (hat : s.At tid h v V)
    (heff : S.effective s.clog V.creator) :
    ∃ root, heap_only_at s.rows root = false ∧ (∃ r, s.rows root = some r) ∧
      Reach (hot_link s.rows) root tid ∧
      ∀ b d, Reach (hot_link s.rows) root b → hot_link s.rows b = some d →
        Reach (hot_link s.rows) d tid → visible_at s.rows S s.clog b = false := by
  have hl := hs.wellLinked
  -- by induction on the version, back along `hot_prev`
  induction v using Nat.strong_induction_on generalizing tid h V with
  | _ v ih =>
  cases hp : V.hot_prev with
  | none =>
    have hroot : heap_only_at s.rows tid = false := by
      rw [heap_only_at_of_row hat.row, (hs.ok _ _ _ _ hat).heap_only, hp]
      rfl
    refine ⟨tid, hroot, ⟨_, hat.row⟩, ReflTransGen.refl, fun b d _ hbd hdt => ?_⟩
    -- nothing comes back to a root
    rcases hdt.cases_tail with rfl | ⟨z, -, hz⟩
    · exact absurd hbd (hl.head_of_not_heap_only hroot b)
    · exact absurd hz (hl.head_of_not_heap_only hroot z)
  | some p =>
    obtain ⟨⟨P, hP, hPeff⟩, hhidden⟩ :=
      hs.hot_prev_effective hS0 hbefore hR hat.version heff hp
    have hplt := (hs.history.hot_prev v V p hat.version hp).1
    obtain ⟨a, ha, hlink⟩ := hs.linked hot tid h v V p hat hp (hR.not_aborted heff)
    obtain ⟨ha', P', hata⟩ := hs.held_at a p ha
    obtain rfl : P = P' := Option.mem_unique hP hata.version
    obtain ⟨root, hroot, hstored, hreach, hfirst⟩ := ih p hplt hata hPeff
    refine ⟨root, hroot, hstored, hreach.tail hlink, fun b d hrb hbd hdt => ?_⟩
    have hinvis : visible_at s.rows S s.clog a = false := by
      rw [visible_at_of_row hata.row, Bool.eq_false_iff]
      exact fun hvis => hhidden ((hs.visible_iff hR hata).mp hvis)
    rcases hdt.cases_tail with rfl | ⟨z, hdz, hzt⟩
    · rw [hl.injective b a tid hbd hlink]
      exact hinvis
    · rw [hl.injective z a tid hzt hlink] at hdz
      exact hfirst b d hrb hbd hdz

/-- What a scan finds are the rows of the shown versions. -/
theorem StoreInv.found_iff (hs : StoreInv s) (hot : s.HotOnce) (hS0 : S₀ ∈ s.txn.live)
    (hbefore : ∀ x, S₀.before x ↔ S.before x) (hR : Reader s S) (hat : s.At tid h v V) :
    (∃ root, FirstVisible s.rows S s.clog root tid) ↔ s.Shown s.clog S v := by
  constructor
  · rintro ⟨root, hf⟩
    have hvis := hf.visible
    rw [visible_at_of_row hat.row] at hvis
    exact (hs.visible_iff hR hat).mp hvis
  · intro hshown
    obtain ⟨W, hW, heff, hnone⟩ := hshown
    obtain rfl : V = W := Option.mem_unique hat.version hW
    obtain ⟨root, hroot, hstored, hreach, hfirst⟩ :=
      hs.root_of_effective hot hS0 hbefore hR hat heff
    refine ⟨root, hstored, hroot, hreach, ?_, hfirst⟩
    rw [visible_at_of_row hat.row]
    exact (hs.visible_iff hR hat).mpr ⟨V, hW, heff, hnone⟩

end Reads

/-! ## Chains under vacuum -/

/-- A chain member whose creator did not abort hangs on a root. -/
theorem StoreInv.rooted {s : Store} (hs : StoreInv s) (hot : s.HotOnce) {tid : Tid}
    {h : TupleHeader} {v : ℕ} {V : Version} (hat : s.At tid h v V)
    (hna : s.clog V.creator ≠ .Aborted) :
    ∃ root, heap_only_at s.rows root = false ∧ (∃ r, s.rows root = some r) ∧
      Reach (hot_link s.rows) root tid := by
  induction v using Nat.strong_induction_on generalizing tid h V with
  | _ v ih =>
  cases hp : V.hot_prev with
  | none =>
    refine ⟨tid, ?_, ⟨_, hat.row⟩, ReflTransGen.refl⟩
    rw [heap_only_at_of_row hat.row, (hs.ok _ _ _ _ hat).heap_only, hp]
    rfl
  | some p =>
    obtain ⟨hplt, w, hw, hwv, hwx, -⟩ := hs.history.hot_prev v V p hat.version hp
    obtain ⟨a, ha, hlink⟩ := hs.linked hot tid h v V p hat hp hna
    obtain ⟨ha', P, hata⟩ := hs.held_at a p ha
    -- the creator of the previous version is the same, or has committed
    have hPna : s.clog P.creator ≠ .Aborted := by
      obtain ⟨P', hP', hover⟩ := hs.history.settled w hw
      rw [hwv] at hP'
      obtain rfl : P = P' := Option.mem_unique hata.version hP'
      rcases hover with heq | ⟨hcom, -⟩
      · rw [heq, hwx]
        exact hna
      · show s.txn.mgr.clog P.creator ≠ .Aborted
        rw [hcom]
        decide
    obtain ⟨root, hroot, hstored, hreach⟩ := ih p hplt hata hPna
    exact ⟨root, hroot, hstored, hreach.tail hlink⟩

end Ams
