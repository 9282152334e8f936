/-
The history of a relation: what a heap is for, before there are pages.

Every insert and update that returned created a version, and every update, delete and
row lock that returned was applied to one. A snapshot shows the versions whose creation
is effective for it and that no effective update or delete was applied to
(`History.Shown`). Nothing is ever forgotten here, and there are no rows, chains or
command ids.

The callers' discipline enters in one place. A transaction only writes to versions its
own scans returned, so the creator of a written version is the writer itself or had
committed by then. `HistoryInv` says what follows for snapshots: one that has a write
before it also has the creation of the written version before it.
-/
import Ams.TupleCodec
import Ams.VacuumHorizon
import Ams.RowLock

set_option autoImplicit false

namespace Ams

open Ams.Lib

/-! ## Histories -/

/-- What an insert or an update created. -/
structure Version where
  creator : TxnId
  cid : ℕ
  values : List (Option Datum)
  /-- The version this one was made from by a HOT update. -/
  hot_prev : Option ℕ
deriving DecidableEq

/-- What an update, a delete or a row lock applied to a version. -/
structure Stamp where
  xid : TxnId
  cid : ℕ
  version : ℕ
  /-- A row lock, which takes nothing away. -/
  lock : Bool
deriving DecidableEq, Repr

/-- The calls that returned, in order. Versions are named by their position. -/
structure History where
  versions : List Version
  stamps : List Stamp

/-- `x` began before the snapshot and was over when it was taken. -/
def Snapshot.before (S : Snapshot) (x : TxnId) : Prop := x < S.xmax ∧ x ∉ S.xip

/-- The calls of `x` are effective for the snapshot. -/
def Snapshot.effective (S : Snapshot) (clog : Clog) (x : TxnId) : Prop :=
  x = S.current_xid ∨ S.counts_committed clog x

instance (S : Snapshot) (clog : Clog) (x : TxnId) : Decidable (S.effective clog x) :=
  inferInstanceAs (Decidable (_ ∨ _))

namespace History

/-- **What a snapshot shows**: created by an effective call, and neither updated nor
deleted by one. -/
def Shown (H : History) (clog : Clog) (S : Snapshot) (v : ℕ) : Prop :=
  ∃ V, H.versions[v]? = some V ∧ S.effective clog V.creator ∧
    ∀ w ∈ H.stamps, w.version = v → w.lock = false → ¬ S.effective clog w.xid

/-- A call of `x` wrote at command `c`. -/
def Wrote (H : History) (x : TxnId) (c : ℕ) : Prop :=
  (∃ V ∈ H.versions, V.creator = x ∧ V.cid = c) ∨ ∃ w ∈ H.stamps, w.xid = x ∧ w.cid = c

/-- No transaction made two versions from the same one by HOT updates. -/
def HotOnce (H : History) : Prop :=
  ∀ (i j : ℕ) (V W : Version) (p : ℕ), H.versions[i]? = some V → H.versions[j]? = some W →
    V.creator = W.creator →
    V.hot_prev = some p → W.hot_prev = some p → i = j

/-- The history with one more version. -/
def create (H : History) (V : Version) : History := { H with versions := H.versions ++ [V] }

/-- The history with one more stamp. -/
def apply (H : History) (w : Stamp) : History := { H with stamps := H.stamps ++ [w] }

variable {H : History}

theorem create_of_lt {V W : Version} {i : ℕ} (h : H.versions[i]? = some W) :
    (H.create V).versions[i]? = some W := by
  obtain ⟨hlt, -⟩ := List.getElem?_eq_some_iff.mp h
  show (H.versions ++ [V])[i]? = some W
  rw [List.getElem?_append_left hlt, h]

/-- The versions of the longer history: the new one, or an old one. -/
theorem create_cases {V W : Version} {i : ℕ} (h : (H.create V).versions[i]? = some W) :
    i = H.versions.length ∧ W = V ∨ H.versions[i]? = some W := by
  change (H.versions ++ [V])[i]? = some W at h
  rcases lt_trichotomy i H.versions.length with hi | hi | hi
  · rw [List.getElem?_append_left hi] at h
    exact .inr h
  · rw [hi, List.getElem?_concat_length] at h
    exact .inl ⟨hi, (Option.some.inj h).symm⟩
  · rw [List.getElem?_eq_none (by simp; omega)] at h
    simp at h

theorem create_self (H : History) (V : Version) :
    (H.create V).versions[H.versions.length]? = some V := List.getElem?_concat_length

theorem HotOnce.of_create {V : Version} (h : (H.create V).HotOnce) : H.HotOnce :=
  fun i j W W' p hi hj => h i j W W' p (create_of_lt hi) (create_of_lt hj)

theorem Wrote.create {x : TxnId} {c : ℕ} (h : H.Wrote x c) (V : Version) :
    (H.create V).Wrote x c := by
  rcases h with ⟨W, hW, hx⟩ | hw
  · exact .inl ⟨W, List.mem_append_left _ hW, hx⟩
  · exact .inr hw

theorem mem_apply {w w' : Stamp} (h : w' ∈ (H.apply w).stamps) :
    w' = w ∨ w' ∈ H.stamps := by
  rcases List.mem_append.mp h with h | h
  · exact .inr h
  · exact .inl (List.mem_singleton.mp h)

theorem apply_self (H : History) (w : Stamp) : w ∈ (H.apply w).stamps :=
  List.mem_append_right _ (List.mem_singleton_self w)

end History

/-! ## Transactions -/

/-- What the store uses of the transaction manager. -/
structure TxnInv (t : TxnSys) : Prop extends HorizonInv t where
  settled : t.mgr.Settled
  invalid : ¬ (t.mgr.clog TxnId.INVALID).Terminal
  live_before : ∀ S ∈ t.live, ∀ x, S.before x → x < t.mgr.txn_id_clock ∧ x ∉ t.mgr.active

section Txn

variable {t t' : TxnSys} {op : TxnOp}

/-- A transaction that writes is running. -/
theorem TxnInv.active (ht : TxnInv t) {x : TxnId} (hx : TxnSys.Unfinished t.mgr x) :
    x ∈ t.mgr.active :=
  (ht.settled x hx.1 hx.2.1).resolve_right hx.2.2

theorem TxnInv.later (ht : TxnInv t) (h : TxnSys.step t op = some t') : t.mgr.Later t'.mgr := by
  obtain ⟨-, rfl⟩ | ⟨y, -, rfl⟩ | ⟨i, snap, -, -, rfl⟩ | ⟨y, st, -, hy, rfl⟩ | ⟨y, -, hy, rfl⟩ :=
    TxnSys.step_cases h
  · exact TxnManager.later_begin_txn t.mgr
  · exact ⟨le_refl _, fun _ _ => rfl, fun _ _ h => ⟨rfl, h⟩, fun _ h h' => absurd h h'⟩
  · exact ⟨le_refl _, fun _ _ => rfl, fun _ _ h => ⟨rfl, h⟩, fun _ h h' => absurd h h'⟩
  · exact TxnManager.later_set_state ⟨ht.active hy, hy.2.2⟩ st
  · exact TxnManager.later_remove_active hy

/-- A snapshot is an old one, or has just been taken and has before it what is over. -/
theorem TxnSys.live_cases (h : TxnSys.step t op = some t') {S : Snapshot} (hS : S ∈ t'.live) :
    S ∈ t.live ∨ ∀ x, S.before x ↔ x < t.mgr.txn_id_clock ∧ x ∉ t.mgr.active := by
  obtain ⟨-, rfl⟩ | ⟨y, -, rfl⟩ | ⟨i, snap, -, -, rfl⟩ | ⟨y, st, -, -, rfl⟩ | ⟨y, -, -, rfl⟩ :=
    TxnSys.step_cases h
  · exact .inl hS
  · rcases List.mem_append.mp hS with hS | hS
    · exact .inl hS
    · right
      intro x
      rw [List.mem_singleton.mp hS, Snapshot.before, TxnManager.snapshot_xmax,
        TxnManager.mem_snapshot_xip]
  · exact .inl (List.mem_of_mem_eraseIdx hS)
  · exact .inl hS
  · exact .inl hS

theorem TxnInv.step (ht : TxnInv t) (h : TxnSys.step t op = some t') : TxnInv t' := by
  have hl := ht.later h
  refine ⟨ht.toHorizonInv.step h, TxnSys.step_settled ht.settled h, ?_, fun S hS x hx => ?_⟩
  · have hrun : run TxnSys.step t [op] = some t' := run_cons_eq_some.mpr ⟨t', h, rfl⟩
    rw [TxnSys.run_clog_invalid hrun]
    exact ht.invalid
  · have hover : x < t.mgr.txn_id_clock ∧ x ∉ t.mgr.active := by
      rcases TxnSys.live_cases h hS with hS | hS
      · exact ht.live_before S hS x hx
      · exact (hS x).mp hx
    exact ⟨lt_of_lt_of_le hover.1 hl.clock_le, (hl.gone x hover.1 hover.2).2⟩

theorem TxnInv.new {clock : TxnId} {clog : Clog} (hs : (TxnManager.new clock clog).Settled)
    (hi : ¬ (clog TxnId.INVALID).Terminal) : TxnInv (TxnSys.new clock clog) :=
  ⟨HorizonInv.new clock clog, hs, hi, fun _ hS => absurd hS List.not_mem_nil⟩

/-- What lies below the vacuum horizon is over for every snapshot in use. -/
theorem TxnInv.below_horizon (ht : TxnInv t) {x : TxnId} (hx : x < t.mgr.oldest_snapshot_xmin) :
    x ∉ t.mgr.active ∧ ∀ S ∈ t.live, S.before x := by
  obtain ⟨habove, hlive⟩ := ht.toHorizonInv.horizon
  refine ⟨fun hact => absurd (habove.2 x hact) (not_le.mpr hx), fun S hS => ?_⟩
  have hlow : x < S.xmin := lt_of_lt_of_le hx (hlive S hS)
  have hwf := ht.live_wf S hS
  exact ⟨lt_of_lt_of_le hlow hwf.xmin_le_xmax,
    fun hxip => absurd (hwf.xmin_le_xip x hxip) (not_le.mpr hlow)⟩

end Txn

/-! ## The history and the transactions -/

/-- What holds of a history under the callers' discipline: a stamp is on a version of
its own transaction or of one that had committed, and a snapshot that has the stamp
before it has the version before it. -/
structure HistoryInv (t : TxnSys) (H : History) : Prop where
  creator : ∀ V ∈ H.versions, V.creator ≠ TxnId.INVALID ∧ V.creator < t.mgr.txn_id_clock
  stamper : ∀ w ∈ H.stamps, w.xid ≠ TxnId.INVALID ∧ w.xid < t.mgr.txn_id_clock
  settled : ∀ w ∈ H.stamps, ∃ V, H.versions[w.version]? = some V ∧
    (V.creator = w.xid ∨ t.mgr.clog V.creator = .Committed ∧ V.creator ∉ t.mgr.active)
  before : ∀ S ∈ t.live, ∀ w ∈ H.stamps, S.before w.xid → ∀ V, H.versions[w.version]? = some V →
    V.creator = w.xid ∨ S.before V.creator
  hot_prev : ∀ u V p, H.versions[u]? = some V → V.hot_prev = some p →
    p < u ∧ ∃ w ∈ H.stamps, w.version = p ∧ w.xid = V.creator ∧ w.lock = false

section HistoryInv

variable {t t' : TxnSys} {H : History}

theorem HistoryInv.creator_of (hh : HistoryInv t H) {v : ℕ} {V : Version}
    (hV : H.versions[v]? = some V) :
    V.creator ≠ TxnId.INVALID ∧ V.creator < t.mgr.txn_id_clock :=
  hh.creator V (List.mem_of_getElem? hV)

theorem HistoryInv.txn (hh : HistoryInv t H) (ht : TxnInv t) {op : TxnOp}
    (h : TxnSys.step t op = some t') : HistoryInv t' H := by
  have hl := ht.later h
  refine ⟨fun V hV => ?_, fun w hw => ?_, fun w hw => ?_, fun S hS w hw hb V hV => ?_, hh.hot_prev⟩
  · exact ⟨(hh.creator V hV).1, lt_of_lt_of_le (hh.creator V hV).2 hl.clock_le⟩
  · exact ⟨(hh.stamper w hw).1, lt_of_lt_of_le (hh.stamper w hw).2 hl.clock_le⟩
  · obtain ⟨V, hV, hover⟩ := hh.settled w hw
    refine ⟨V, hV, hover.imp_right fun ⟨hc, ha⟩ => ⟨?_, ?_⟩⟩
    · rw [hl.terminal _ (by rw [hc]; trivial), hc]
    · exact (hl.gone _ (hh.creator_of hV).2 ha).2
  · rcases TxnSys.live_cases h hS with hS | hS
    · exact hh.before S hS w hw hb V hV
    · -- a fresh snapshot has before it what is over, and the creator is
      obtain ⟨V', hV', hover⟩ := hh.settled w hw
      obtain rfl : V = V' := Option.mem_unique hV hV'
      exact hover.imp_right fun ⟨_, ha⟩ => (hS _).mpr ⟨(hh.creator_of hV).2, ha⟩

theorem HistoryInv.create (hh : HistoryInv t H) {V : Version}
    (hV : V.creator ≠ TxnId.INVALID ∧ V.creator < t.mgr.txn_id_clock)
    (hprev : ∀ p, V.hot_prev = some p → p < H.versions.length ∧
      ∃ w ∈ H.stamps, w.version = p ∧ w.xid = V.creator ∧ w.lock = false) :
    HistoryInv t (H.create V) := by
  refine ⟨fun W hW => ?_, hh.stamper, fun w hw => ?_, fun S hS w hw hb W hW => ?_,
    fun u W p hW hp => ?_⟩
  · rcases List.mem_append.mp hW with hW | hW
    · exact hh.creator W hW
    · rw [List.mem_singleton.mp hW]
      exact hV
  · obtain ⟨W, hW, hover⟩ := hh.settled w hw
    exact ⟨W, History.create_of_lt hW, hover⟩
  · obtain ⟨W', hW', -⟩ := hh.settled w hw
    obtain rfl : W = W' := Option.some.inj (hW.symm.trans (History.create_of_lt hW'))
    exact hh.before S hS w hw hb W hW'
  · rcases History.create_cases hW with ⟨rfl, rfl⟩ | hW
    · exact hprev p hp
    · exact hh.hot_prev u W p hW hp

theorem HistoryInv.apply (hh : HistoryInv t H) (ht : TxnInv t) {w : Stamp}
    (hx : TxnSys.Unfinished t.mgr w.xid) {V : Version} (hV : H.versions[w.version]? = some V)
    (hover : V.creator = w.xid ∨ t.mgr.clog V.creator = .Committed ∧ V.creator ∉ t.mgr.active) :
    HistoryInv t (H.apply w) := by
  refine ⟨hh.creator, fun w' hw' => ?_, fun w' hw' => ?_, fun S hS w' hw' hb W hW => ?_,
    fun u W p hW hp => ?_⟩
  · rcases History.mem_apply hw' with rfl | hw'
    · exact ⟨hx.1, hx.2.1⟩
    · exact hh.stamper w' hw'
  · rcases History.mem_apply hw' with rfl | hw'
    · exact ⟨V, hV, hover⟩
    · exact hh.settled w' hw'
  · rcases History.mem_apply hw' with rfl | hw'
    · -- no snapshot has a running transaction before it
      exact absurd (ht.active hx) (ht.live_before S hS _ hb).2
    · exact hh.before S hS w' hw' hb W hW
  · obtain ⟨hlt, w', hw', h⟩ := hh.hot_prev u W p hW hp
    exact ⟨hlt, w', List.mem_append_left _ hw', h⟩

end HistoryInv

end Ams
