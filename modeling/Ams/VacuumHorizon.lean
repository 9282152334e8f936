/-
Vacuum safety: what `scan_dead_tuples` reports dead at a horizon is invisible to
every snapshot that can still be used.

Four mechanisms meet here. The registry counts the live snapshots at each
`xmin`; with an empty registry the horizon falls back to the active set, because
a transaction between `begin_txn` and `snapshot` is registered nowhere; the clock
bounds what a later begin can hand out; and the visibility judgment compares
against `xmax` and `xip`. The argument is that the horizon `h` lies at or below
every active XID and the clock (`AboveHorizon`), which steps preserve, so no
snapshot live at the sample or taken afterwards has an `xmin` below `h`.
-/
import Ams.Visibility
import Ams.TupleHeader

set_option autoImplicit false

namespace Ams

open Ams.Lib

/-- The per-tuple test of `HeapAM::scan_dead_tuples`: an aborted inserter, or a
committed real deleter below the horizon. -/
def tuple_is_dead (oldest_xmin : TxnId) (clog : Clog) (header : TupleHeader) : Bool :=
  if clog header.t_xmin = .Aborted then true
  else
    !header.lock_only && decide (header.t_xmax ≠ TxnId.INVALID)
      && decide (header.t_xmax < oldest_xmin) && decide (clog header.t_xmax = .Committed)

theorem tuple_is_dead_iff (h : TxnId) (clog : Clog) (t : TupleHeader) :
    tuple_is_dead h clog t = true ↔
      clog t.t_xmin = .Aborted ∨
        (t.lock_only = false ∧ t.t_xmax ≠ TxnId.INVALID ∧ t.t_xmax < h ∧
          clog t.t_xmax = .Committed) := by
  unfold tuple_is_dead
  split_ifs with hx
  · simp [hx]
  · simp [hx, and_assoc]

/-! ## Snapshots and the horizon -/

/-- The bounds a snapshot is built with. -/
structure Snapshot.Wf (snap : Snapshot) : Prop where
  xmin_le_xmax : snap.xmin ≤ snap.xmax
  xmin_le_xip : ∀ x ∈ snap.xip, snap.xmin ≤ x

/-- `xmin` is the smallest active XID, or the clock. -/
theorem TxnManager.snapshot_xmin_cases (m : TxnManager) (x : TxnId) :
    ((m.snapshot x).1.xmin ∈ m.active ∧ ∀ y ∈ m.active, (m.snapshot x).1.xmin ≤ y) ∨
      (m.active = [] ∧ (m.snapshot x).1.xmin = m.txn_id_clock) := by
  have hsorted : (m.active.insertionSort (· ≤ ·)).Pairwise (· ≤ ·) :=
    List.pairwise_insertionSort (· ≤ ·) m.active
  have hmem : ∀ y, y ∈ m.active.insertionSort (· ≤ ·) ↔ y ∈ m.active :=
    fun y => List.mem_insertionSort (· ≤ ·)
  show ((m.active.insertionSort (· ≤ ·)).head?.getD m.txn_id_clock ∈ m.active ∧ _) ∨ _
  cases hl : m.active.insertionSort (· ≤ ·) with
  | nil =>
    right
    refine ⟨List.eq_nil_iff_forall_not_mem.mpr fun y hy => ?_, ?_⟩
    · have := (hmem y).mpr hy
      rw [hl] at this
      exact List.not_mem_nil this
    · show (m.active.insertionSort (· ≤ ·)).head?.getD m.txn_id_clock = m.txn_id_clock
      rw [hl]; rfl
  | cons a l =>
    left
    have hxmin : (m.snapshot x).1.xmin = a := by
      show (m.active.insertionSort (· ≤ ·)).head?.getD m.txn_id_clock = a
      rw [hl]; rfl
    rw [hl] at hsorted
    refine ⟨(hmem a).mp (by rw [hl]; exact .head _), fun y hy => ?_⟩
    rw [hxmin]
    have hy' := (hmem y).mpr hy
    rw [hl] at hy'
    rcases List.mem_cons.mp hy' with rfl | hy'
    · exact le_refl _
    · exact (List.pairwise_cons.mp hsorted).1 y hy'

theorem TxnManager.snapshot_xmin_le_active (m : TxnManager) (x : TxnId) :
    ∀ y ∈ m.active, (m.snapshot x).1.xmin ≤ y := by
  intro y hy
  rcases m.snapshot_xmin_cases x with ⟨-, h⟩ | ⟨h, -⟩
  · exact h y hy
  · rw [h] at hy; simp at hy

theorem TxnManager.snapshot_xmin_le_clock (m : TxnManager) (x : TxnId)
    (hlt : ∀ y ∈ m.active, y < m.txn_id_clock) : (m.snapshot x).1.xmin ≤ m.txn_id_clock := by
  rcases m.snapshot_xmin_cases x with ⟨h, -⟩ | ⟨-, h⟩
  · exact le_of_lt (hlt _ h)
  · exact le_of_eq h

theorem TxnManager.snapshot_wf (m : TxnManager) (x : TxnId)
    (hlt : ∀ y ∈ m.active, y < m.txn_id_clock) : (m.snapshot x).1.Wf where
  xmin_le_xmax := m.snapshot_xmin_le_clock x hlt
  xmin_le_xip y hy := m.snapshot_xmin_le_active x y (TxnManager.mem_snapshot_xip.mp hy)

/-- `h` is at or below everything a snapshot taken now could use as its `xmin`. -/
def AboveHorizon (h : TxnId) (m : TxnManager) : Prop :=
  h ≤ m.txn_id_clock ∧ ∀ x ∈ m.active, h ≤ x

variable {h : TxnId}

theorem AboveHorizon.le_snapshot_xmin {m : TxnManager} (ha : AboveHorizon h m) (x : TxnId) :
    h ≤ (m.snapshot x).1.xmin := by
  rcases m.snapshot_xmin_cases x with ⟨hmem, -⟩ | ⟨-, heq⟩
  · exact ha.2 _ hmem
  · rw [heq]; exact ha.1

/-! ## The registry -/

/-- What holds between the registry and the snapshots whose guard is alive. -/
structure HorizonInv (s : TxnSys) : Prop where
  active_lt : ∀ x ∈ s.mgr.active, x < s.mgr.txn_id_clock
  /-- The refcount of `k` is the number of live snapshots registered at `k`. -/
  registry : ∀ k, s.mgr.snapshot_xmins.get? k =
    if s.live.countP (·.xmin = k) = 0 then none else some (s.live.countP (·.xmin = k))
  live_wf : ∀ S ∈ s.live, S.Wf
  live_above : ∀ S ∈ s.live, AboveHorizon S.xmin s.mgr

variable {s t : TxnSys}

theorem AboveHorizon.step {op : TxnOp} (ha : AboveHorizon h s.mgr)
    (hstep : TxnSys.step s op = some t) : AboveHorizon h t.mgr := by
  obtain ⟨-, rfl⟩ | ⟨y, -, rfl⟩ | ⟨i, snap, -, -, rfl⟩ | ⟨y, st, -, -, rfl⟩ | ⟨y, -, -, rfl⟩ :=
    TxnSys.step_cases hstep
  · refine ⟨le_trans ha.1 (Nat.le_succ _), fun x hx => ?_⟩
    rcases List.mem_insert_iff.mp hx with rfl | hx
    · exact ha.1
    · exact ha.2 x hx
  · exact ha
  · exact ha
  · exact ha
  · exact ⟨ha.1, fun x hx => ha.2 x (List.mem_filter.mp hx).1⟩

/-- Registering a snapshot raises exactly its own refcount. -/
theorem HorizonInv.registry_snapshot (hs : HorizonInv s) (x : TxnId) (k : TxnId) :
    (s.mgr.snapshot x).2.snapshot_xmins.get? k =
      if (s.live ++ [(s.mgr.snapshot x).1]).countP (·.xmin = k) = 0 then none
      else some ((s.live ++ [(s.mgr.snapshot x).1]).countP (·.xmin = k)) := by
  show (s.mgr.snapshot_xmins.insert (s.mgr.snapshot x).1.xmin
    ((s.mgr.snapshot_xmins.get? (s.mgr.snapshot x).1.xmin).getD 0 + 1)).get? k = _
  rw [OrdMap.get?_insert, List.countP_append, List.countP_singleton]
  by_cases hk : (s.mgr.snapshot x).1.xmin = k
  · rw [if_pos hk, hk, hs.registry k, if_pos (decide_eq_true rfl), if_neg (Nat.succ_ne_zero _)]
    split_ifs with h0
    · rw [h0]; rfl
    · rfl
  · simp [hk, hs.registry k]

/-- Dropping the guard of the `i`-th live snapshot lowers exactly its refcount. -/
theorem HorizonInv.registry_drop (hs : HorizonInv s) {i : ℕ} {snap : Snapshot}
    (hi : s.live[i]? = some snap) (k : TxnId) :
    (s.mgr.drop_guard snap.xmin).snapshot_xmins.get? k =
      if (s.live.eraseIdx i).countP (·.xmin = k) = 0 then none
      else some ((s.live.eraseIdx i).countP (·.xmin = k)) := by
  obtain ⟨hlt, hget⟩ := List.getElem?_eq_some_iff.mp hi
  have hperm : (snap :: s.live.eraseIdx i).Perm s.live :=
    hget ▸ List.getElem_cons_eraseIdx_perm hlt
  have hcount : ∀ k, s.live.countP (·.xmin = k) =
      (s.live.eraseIdx i).countP (·.xmin = k) + if snap.xmin = k then 1 else 0 := by
    intro k
    rw [← hperm.countP_eq, List.countP_cons]
    simp only [decide_eq_true_eq]
  have hself := hs.registry snap.xmin
  rw [hcount, if_pos rfl, if_neg (Nat.succ_ne_zero _)] at hself
  unfold TxnManager.drop_guard
  rw [hself]
  simp only [Nat.add_sub_cancel]
  by_cases hk : snap.xmin = k
  · subst hk
    split_ifs with h0 <;> simp
  · have hother := hs.registry k
    rw [hcount, if_neg hk, Nat.add_zero] at hother
    split_ifs with h0 h1 <;> simp_all

theorem HorizonInv.step {op : TxnOp} (hs : HorizonInv s) (hstep : TxnSys.step s op = some t) :
    HorizonInv t := by
  have habove : ∀ S ∈ s.live, AboveHorizon S.xmin t.mgr :=
    fun S hS => (hs.live_above S hS).step hstep
  obtain ⟨-, rfl⟩ | ⟨y, -, rfl⟩ | ⟨i, snap, -, hi, rfl⟩ | ⟨y, st, -, -, rfl⟩ | ⟨y, -, -, rfl⟩ :=
    TxnSys.step_cases hstep
  · refine ⟨fun x hx => ?_, hs.registry, hs.live_wf, habove⟩
    rcases List.mem_insert_iff.mp hx with rfl | hx
    · exact Nat.lt_succ_self _
    · exact Nat.lt_succ_of_lt (hs.active_lt x hx)
  · refine ⟨hs.active_lt, hs.registry_snapshot y, fun S hS => ?_, fun S hS => ?_⟩
    · rcases List.mem_append.mp hS with hS | hS
      · exact hs.live_wf S hS
      · rw [List.mem_singleton.mp hS]
        exact s.mgr.snapshot_wf y hs.active_lt
    · rcases List.mem_append.mp hS with hS | hS
      · exact habove S hS
      · rw [List.mem_singleton.mp hS]
        exact ⟨s.mgr.snapshot_xmin_le_clock y hs.active_lt, s.mgr.snapshot_xmin_le_active y⟩
  · exact ⟨hs.active_lt, hs.registry_drop hi,
      fun S hS => hs.live_wf S (List.mem_of_mem_eraseIdx hS),
      fun S hS => habove S (List.mem_of_mem_eraseIdx hS)⟩
  · exact ⟨hs.active_lt, hs.registry, hs.live_wf, habove⟩
  · exact ⟨fun x hx => hs.active_lt x (List.mem_filter.mp hx).1, hs.registry, hs.live_wf, habove⟩

theorem HorizonInv.new (clock : TxnId) (clog : Clog) : HorizonInv (TxnSys.new clock clog) where
  active_lt _ hx := absurd hx List.not_mem_nil
  registry _ := rfl
  live_wf _ hS := absurd hS List.not_mem_nil
  live_above _ hS := absurd hS List.not_mem_nil

theorem HorizonInv.run {ops : List TxnOp} (hs : HorizonInv s) (h : run TxnSys.step s ops = some t) :
    HorizonInv t :=
  run_invariant HorizonInv (fun _ _ _ hs h => hs.step h) hs h

/-- A key of the registry is the `xmin` of a live snapshot, and conversely. -/
theorem HorizonInv.mem_keys_iff (hs : HorizonInv s) {k : TxnId} :
    k ∈ s.mgr.snapshot_xmins.keys ↔ ∃ S ∈ s.live, S.xmin = k := by
  rw [OrdMap.mem_keys]
  constructor
  · rintro ⟨n, hn⟩
    rw [hs.registry k] at hn
    split_ifs at hn with h0
    obtain ⟨S, hS, hk⟩ := List.countP_pos_iff.mp (Nat.pos_of_ne_zero h0)
    exact ⟨S, hS, of_decide_eq_true hk⟩
  · rintro ⟨S, hS, rfl⟩
    have hpos : 0 < s.live.countP (·.xmin = S.xmin) :=
      List.countP_pos_iff.mpr ⟨S, hS, decide_eq_true rfl⟩
    exact ⟨_, by rw [hs.registry, if_neg hpos.ne']⟩

/-- **The horizon is safe when sampled**: it is at or below every live
snapshot's `xmin`, every active XID and the clock. -/
theorem HorizonInv.horizon (hs : HorizonInv s) :
    AboveHorizon s.mgr.oldest_snapshot_xmin s.mgr ∧
      ∀ S ∈ s.live, s.mgr.oldest_snapshot_xmin ≤ S.xmin := by
  unfold TxnManager.oldest_snapshot_xmin
  cases hk : s.mgr.snapshot_xmins.keys.head? with
  | some k =>
    obtain ⟨S₀, hS0, rfl⟩ := hs.mem_keys_iff.mp (OrdMap.head?_keys_mem hk)
    exact ⟨hs.live_above S₀ hS0,
      fun S hS => OrdMap.head?_keys_le hk (hs.mem_keys_iff.mpr ⟨S, hS, rfl⟩)⟩
  | none =>
    have hempty : ∀ S, S ∉ s.live := by
      intro S hS
      have hmem := hs.mem_keys_iff.mpr ⟨S, hS, rfl⟩
      rw [List.head?_eq_none_iff.mp hk] at hmem
      exact List.not_mem_nil hmem
    refine ⟨?_, fun S hS => absurd hS (hempty S)⟩
    cases hmin : s.mgr.active.min? with
    | some a =>
      obtain ⟨ha, hle⟩ := List.min?_eq_some_iff.mp hmin
      exact ⟨le_of_lt (hs.active_lt a ha), hle⟩
    | none =>
      rw [List.min?_eq_none_iff] at hmin
      exact ⟨le_refl _, fun x hx => by rw [hmin] at hx; exact absurd hx List.not_mem_nil⟩

/-- Along a run the log of snapshots grows by snapshots at or above the horizon. -/
theorem taken_above_horizon {ops : List TxnOp} (hs : HorizonInv s) (ha : AboveHorizon h s.mgr)
    (hrun : run TxnSys.step s ops = some t) :
    ∃ new, t.taken = s.taken ++ new ∧ ∀ S ∈ new, h ≤ S.xmin ∧ S.Wf := by
  refine run_relates
    (fun s : TxnSys => HorizonInv s ∧ AboveHorizon h s.mgr)
    (fun s t : TxnSys => ∃ new, t.taken = s.taken ++ new ∧ ∀ S ∈ new, h ≤ S.xmin ∧ S.Wf)
    (fun s => ⟨[], by simp, by simp⟩) ?_ (fun s l t hI hst => ⟨hI.1.step hst, hI.2.step hst⟩)
    ?_ ⟨hs, ha⟩ hrun
  · rintro s t u ⟨n₁, h1, hn1⟩ ⟨n₂, h2, hn2⟩
    refine ⟨n₁ ++ n₂, by rw [h2, h1, List.append_assoc], fun S hS => ?_⟩
    rcases List.mem_append.mp hS with hS | hS
    · exact hn1 S hS
    · exact hn2 S hS
  · intro s l t hI hst
    obtain ⟨-, rfl⟩ | ⟨y, -, rfl⟩ | ⟨i, snap, -, -, rfl⟩ | ⟨y, st, -, -, rfl⟩ | ⟨y, -, -, rfl⟩ :=
      TxnSys.step_cases hst
    · exact ⟨[], by simp, by simp⟩
    · refine ⟨[(s.mgr.snapshot y).1], rfl, fun S hS => ?_⟩
      rw [List.mem_singleton.mp hS]
      exact ⟨hI.2.le_snapshot_xmin y, s.mgr.snapshot_wf y hI.1.active_lt⟩
    · exact ⟨[], by simp, by simp⟩
    · exact ⟨[], by simp, by simp⟩
    · exact ⟨[], by simp, by simp⟩

/-! ## Dead tuples are invisible -/

/-- The judgment half of the argument: a dead tuple is invisible under a snapshot
at or above the horizon whose transaction is not itself the aborted inserter. -/
theorem dead_not_visible {clog : Clog} {t : TupleHeader} {S : Snapshot} (hS : S.Wf)
    (hh : h ≤ S.xmin) (hinv : clog TxnId.INVALID ≠ .Aborted)
    (hcur : S.current_xid = TxnId.INVALID ∨ (S.current_xid ∈ S.xip ∧ clog S.current_xid ≠ .Aborted)
    ) (hdead : tuple_is_dead h clog t = true) :
    is_visible t.t_xmin t.visibility_xmax t.t_cid S clog = false := by
  rw [Bool.eq_false_iff, ne_eq, is_visible_iff]
  rintro ⟨hxmin, hxmax⟩
  rcases (tuple_is_dead_iff h clog t).mp hdead with hab | ⟨hlock, hne, hlt, hcom⟩
  · -- an aborted inserter is neither the snapshot's own transaction nor committed
    rcases hxmin with ⟨heq, -⟩ | ⟨-, -, -, hc⟩
    · rw [heq] at hab
      rcases hcur with h0 | ⟨-, hna⟩
      · rw [h0] at hab; exact hinv hab
      · exact hna hab
    · rw [hab] at hc; cases hc
  · rw [TupleHeader.visibility_xmax, hlock] at hxmax
    simp only [Bool.false_eq_true, if_false] at hxmax
    have hlow : t.t_xmax < S.xmin := lt_of_lt_of_le hlt hh
    have hnot : t.t_xmax ∉ S.xip := fun hm => absurd (hS.xmin_le_xip _ hm) (not_le.mpr hlow)
    have hself : t.t_xmax ≠ S.current_xid := by
      intro heq
      rcases hcur with h0 | ⟨hm, -⟩
      · exact hne (heq.trans h0)
      · exact hnot (heq ▸ hm)
    rcases hxmax with h0 | hns
    · exact hne h0
    · exact hns (.inr ⟨hself, lt_of_lt_of_le hlow hS.xmin_le_xmax, hnot, hcom⟩)

/-- **Vacuum safety.** `h` is sampled in `s₁`, the dead-tuple scan runs in `s₂` and
the reader judges the tuple in `s₃`; between them the manager takes any steps. The
reader's snapshot was live at the sample or is taken at any later point. -/
theorem vacuum_safety {clock : TxnId} {clog : Clog} {s₁ s₂ s₃ : TxnSys}
    {ops₁ ops₂ ops₃ : List TxnOp} (hclog : clog TxnId.INVALID ≠ .Aborted)
    (h₁ : run TxnSys.step (TxnSys.new clock clog) ops₁ = some s₁)
    (h₂ : run TxnSys.step s₁ ops₂ = some s₂) (h₃ : run TxnSys.step s₂ ops₃ = some s₃)
    {t : TupleHeader}
    (hdead : tuple_is_dead s₁.mgr.oldest_snapshot_xmin s₂.mgr.clog t = true)
    {S : Snapshot} (hS : S ∈ s₁.live ∨ S ∈ s₃.taken.drop s₁.taken.length)
    (hcur : S.current_xid = TxnId.INVALID ∨
      (S.current_xid ∈ S.xip ∧ s₃.mgr.clog S.current_xid ≠ .Aborted)) (curcid : ℕ) :
    is_visible t.t_xmin t.visibility_xmax t.t_cid { S with curcid := curcid } s₃.mgr.clog
      = false := by
  have hI₁ : HorizonInv s₁ := (HorizonInv.new clock clog).run h₁
  obtain ⟨habove, hlive⟩ := hI₁.horizon
  have h₂₃ : run TxnSys.step s₁ (ops₂ ++ ops₃) = some s₃ :=
    run_append_eq_some.mpr ⟨s₂, h₂, h₃⟩
  have hsnap : s₁.mgr.oldest_snapshot_xmin ≤ S.xmin ∧ S.Wf := by
    rcases hS with hS | hS
    · exact ⟨hlive S hS, hI₁.live_wf S hS⟩
    · obtain ⟨new, htaken, hnew⟩ := taken_above_horizon hI₁ habove h₂₃
      rw [htaken, List.drop_left] at hS
      exact hnew S hS
  -- the verdict of the scan is about terminal states, which the later steps keep
  have hdead₃ : tuple_is_dead s₁.mgr.oldest_snapshot_xmin s₃.mgr.clog t = true := by
    rw [tuple_is_dead_iff] at hdead ⊢
    rcases hdead with hab | ⟨hlock, hne, hlt, hcom⟩
    · exact .inl (by rw [TxnSys.run_terminal h₃ (by rw [hab]; trivial), hab])
    · exact .inr ⟨hlock, hne, hlt,
        by rw [TxnSys.run_terminal h₃ (by rw [hcom]; trivial), hcom]⟩
  have hinv : s₃.mgr.clog TxnId.INVALID ≠ .Aborted := by
    rw [TxnSys.run_clog_invalid h₃, TxnSys.run_clog_invalid h₂, TxnSys.run_clog_invalid h₁]
    exact hclog
  exact dead_not_visible (S := { S with curcid := curcid })
    ⟨hsnap.2.xmin_le_xmax, hsnap.2.xmin_le_xip⟩ hsnap.1 hinv hcur hdead₃

/-- A row inserted by transaction 1 and deleted by transaction 2, both committed
when transaction 3 takes its snapshot: dead at the horizon 3, and invisible to the
snapshot transaction 4 takes after the scan. -/
theorem vacuum_safety_later_snapshot :
    ∃ s₁ s₂ s₃ : TxnSys,
      run TxnSys.step (TxnSys.new 1 fun _ => .InProgress)
        [.begin_txn, .begin_txn, .commit_set_state 1, .remove_active 1, .commit_set_state 2,
          .remove_active 2, .begin_txn, .snapshot 3] = some s₁ ∧
      run TxnSys.step s₁ [.begin_txn] = some s₂ ∧
      run TxnSys.step s₂ [.drop_guard 0, .snapshot 4] = some s₃ ∧
      s₁.mgr.oldest_snapshot_xmin = 3 ∧
      is_visible 1 2 0 { (s₂.mgr.snapshot 4).1 with curcid := 7 } s₃.mgr.clog = false := by
  refine ⟨_, _, _, rfl, rfl, rfl, rfl, ?_⟩
  exact @vacuum_safety 1 (fun _ => .InProgress) _ _ _
    [.begin_txn, .begin_txn, .commit_set_state 1, .remove_active 1, .commit_set_state 2,
      .remove_active 2, .begin_txn, .snapshot 3] [.begin_txn] [.drop_guard 0, .snapshot 4]
    (by decide) rfl rfl rfl
    (TupleHeader.new 1 2 0 (Vector.replicate 16 0) ⟨0, 0⟩ 0) rfl _
    (.inr (by decide)) (.inr (by decide)) 7

end Ams
