/-
Visibility, `pg-txn/src/visibility.rs`, and the fact it rests on: what a snapshot
counts as committed never changes after the snapshot is taken.

`is_visible` consults the commit log at the time of the scan, not at the time of
the snapshot, so a verdict could in principle move when a transaction ends in
between. It does not, because a snapshot's `xmax` and `xip` are read in one
critical section with the active set: an XID below `xmax` and outside `xip` has
already ended, whatever half-finished commits are around. `Settled` is the
invariant that says so and `snapshot_stability` the result.
-/
import Ams.TxnManager

set_option autoImplicit false

namespace Ams

open Ams.Lib

/-! ## The judgment -/

/-- `x` counts as committed for `snap`: it began before the snapshot, was not
running then, and the commit log says `Committed`. -/
def Snapshot.counts_committed (snap : Snapshot) (clog : Clog) (x : TxnId) : Prop :=
  x < snap.xmax ∧ x ∉ snap.xip ∧ clog x = .Committed

instance (snap : Snapshot) (clog : Clog) (x : TxnId) :
    Decidable (snap.counts_committed clog x) :=
  inferInstanceAs (Decidable (_ ∧ _ ∧ _))

/-- Step 2 of the judgment: `t_xmin` is acceptable, does `t_xmax` hide the tuple? -/
def is_visible_xmax (t_xmax : TxnId) (t_cid : ℕ) (snap : Snapshot) (clog : Clog) : Bool :=
  if t_xmax = TxnId.INVALID then true
  else if t_xmax = snap.current_xid then decide (t_cid ≥ snap.curcid)
  else if t_xmax ≥ snap.xmax then true
  else if t_xmax ∈ snap.xip then true
  else if clog t_xmax ≠ .Committed then true
  else false

/-- Is the tuple with these header fields visible under `snap`? -/
def is_visible (t_xmin t_xmax : TxnId) (t_cid : ℕ) (snap : Snapshot) (clog : Clog) : Bool :=
  if t_xmin = snap.current_xid then
    -- own write: only an earlier command's writes are seen
    if t_cid ≥ snap.curcid then false else is_visible_xmax t_xmax t_cid snap clog
  else if t_xmin ≥ snap.xmax then false
  else if t_xmin ∈ snap.xip then false
  else if clog t_xmin ≠ .Committed then false
  else is_visible_xmax t_xmax t_cid snap clog

/-- The effect of transaction `x`, written at command `t_cid`, is part of what
`snap` shows. -/
def Snapshot.shows (snap : Snapshot) (clog : Clog) (x : TxnId) (t_cid : ℕ) : Prop :=
  (x = snap.current_xid ∧ t_cid < snap.curcid) ∨
    (x ≠ snap.current_xid ∧ snap.counts_committed clog x)

theorem is_visible_xmax_iff (t_xmax : TxnId) (t_cid : ℕ) (snap : Snapshot) (clog : Clog) :
    is_visible_xmax t_xmax t_cid snap clog = true ↔
      (t_xmax = TxnId.INVALID ∨ ¬ snap.shows clog t_xmax t_cid) := by
  unfold is_visible_xmax Snapshot.shows Snapshot.counts_committed
  split_ifs with h1 h2 h3 h4 h5
  · simp [h1]
  · have h1' : snap.current_xid ≠ TxnId.INVALID := h2 ▸ h1
    simp [h2, h1']
  · simp [h1, h2, h3]
  · simp [h1, h2, h4]
  · simp [h1, h2, h5]
  · have h5' := not_not.mp h5
    simp [h1, h2, h5', h4, not_le.mp h3]

/-- **The judgment, read off.** A tuple is visible when its inserter is shown
and its deleter, if any, is not. -/
theorem is_visible_iff (t_xmin t_xmax : TxnId) (t_cid : ℕ) (snap : Snapshot) (clog : Clog) :
    is_visible t_xmin t_xmax t_cid snap clog = true ↔
      snap.shows clog t_xmin t_cid ∧
        (t_xmax = TxnId.INVALID ∨ ¬ snap.shows clog t_xmax t_cid) := by
  rw [← is_visible_xmax_iff]
  unfold is_visible
  unfold Snapshot.shows Snapshot.counts_committed
  split_ifs with h1 h2 h3 h4 h5
  · simp [h1, not_lt.mpr h2]
  · simp [h1, not_le.mp h2]
  · simp [h1, not_lt.mpr h3]
  · simp [h1, h4]
  · simp [h1, h5]
  · have h5' := not_not.mp h5
    simp [h1, h5', h4, not_le.mp h3]

/-! ## What a fresh snapshot looks like -/

namespace TxnManager

variable {m : TxnManager} {x y : TxnId}

@[simp] theorem snapshot_xmax : (m.snapshot x).1.xmax = m.txn_id_clock := rfl

/-- `xip` is the active set. -/
@[simp] theorem mem_snapshot_xip : y ∈ (m.snapshot x).1.xip ↔ y ∈ m.active :=
  List.mem_insertionSort _

/-- Every XID below the clock is running or has its outcome recorded. -/
def Settled (m : TxnManager) : Prop :=
  ∀ x, x ≠ TxnId.INVALID → x < m.txn_id_clock → x ∈ m.active ∨ (m.clog x).Terminal

end TxnManager

/-! ## Stability -/

/-- No step leaves an XID below the clock neither running nor ended: a begin adds
its XID to the active set with the clock advance, and a removal comes after the
CLOG write. -/
theorem TxnSys.step_settled {s t : TxnSys} {op : TxnOp} (hs : s.mgr.Settled)
    (h : TxnSys.step s op = some t) : t.mgr.Settled := by
  obtain ⟨-, rfl⟩ | ⟨y, -, rfl⟩ | ⟨i, snap, -, -, rfl⟩ | ⟨y, st, hst, hy, rfl⟩ | ⟨y, -, hy, rfl⟩ :=
    TxnSys.step_cases h
  · intro x hx hlt
    rcases Nat.lt_succ_iff_lt_or_eq.mp hlt with hlt | heq
    · rcases hs x hx hlt with h | h
      · exact .inl (List.mem_insert_iff.mpr (.inr h))
      · exact .inr h
    · exact .inl (List.mem_insert_iff.mpr (.inl heq))
  · exact hs
  · exact hs
  · intro x hx hlt
    by_cases hxy : x = y
    · right
      subst hxy
      rw [show (s.mgr.set_state x st).clog x = st from Clog.set_state_self ..]
      rcases hst with ⟨-, rfl⟩ | ⟨-, rfl⟩ <;> exact trivial
    · rcases hs x hx hlt with h | h
      · exact .inl h
      · right
        rwa [show (s.mgr.set_state y st).clog x = s.mgr.clog x from
          Clog.set_state_of_ne _ _ hxy]
  · intro x hx hlt
    by_cases hxy : x = y
    · exact .inr (hxy ▸ hy)
    · rcases hs x hx hlt with h | h
      · exact .inl (List.mem_filter.mpr ⟨h, by simpa using hxy⟩)
      · exact .inr h

theorem TxnSys.run_settled {s t : TxnSys} {ops : List TxnOp} (hs : s.mgr.Settled)
    (h : run TxnSys.step s ops = some t) : t.mgr.Settled :=
  run_invariant (fun s => s.mgr.Settled) (fun _ _ _ => TxnSys.step_settled) hs h

/-- The commit log never moves for an XID that a snapshot of a settled state
places before itself. -/
theorem clog_stable_of_settled {s t : TxnSys} {ops : List TxnOp} (hs : s.mgr.Settled)
    (h : run TxnSys.step s ops = some t) {x : TxnId} (hlt : x < s.mgr.txn_id_clock)
    (hact : x ∉ s.mgr.active) : t.mgr.clog x = s.mgr.clog x := by
  by_cases hx : x = TxnId.INVALID
  · subst hx
    exact TxnSys.run_clog_invalid h
  · rcases hs x hx hlt with hmem | hterm
    · exact absurd hmem hact
    · exact TxnSys.run_terminal h hterm

/-- **Snapshot stability.** In every run from a settled state, whatever the
interleaving of the half-steps of commits and aborts, what a snapshot counts as
committed at any later point is what it counted when it was taken. -/
theorem snapshot_stability {s₀ s₁ s₂ s₃ : TxnSys} {before after : List TxnOp} {xid : TxnId}
    (hs : s₀.mgr.Settled) (hbefore : run TxnSys.step s₀ before = some s₁)
    (htake : TxnSys.step s₁ (.snapshot xid) = some s₂)
    (hafter : run TxnSys.step s₂ after = some s₃) (x : TxnId) :
    (s₁.mgr.snapshot xid).1.counts_committed s₃.mgr.clog x ↔
      (s₁.mgr.snapshot xid).1.counts_committed s₁.mgr.clog x := by
  have hs₁ : s₁.mgr.Settled := TxnSys.run_settled hs hbefore
  have hrun : run TxnSys.step s₁ (.snapshot xid :: after) = some s₃ :=
    run_cons_eq_some.mpr ⟨s₂, htake, hafter⟩
  unfold Snapshot.counts_committed
  rw [TxnManager.snapshot_xmax, TxnManager.mem_snapshot_xip]
  constructor
  · rintro ⟨hlt, hact, hc⟩
    exact ⟨hlt, hact, by rw [← clog_stable_of_settled hs₁ hrun hlt hact]; exact hc⟩
  · rintro ⟨hlt, hact, hc⟩
    exact ⟨hlt, hact, by rw [clog_stable_of_settled hs₁ hrun hlt hact]; exact hc⟩

/-- Two transactions, the first half-way through its commit when the snapshot is
taken: it stays uncounted after the removal. -/
theorem snapshot_stability_half_commit :
    (TxnManager.new 1 fun _ => .InProgress).Settled ∧
    ∃ s₁ s₂ s₃, run TxnSys.step (TxnSys.new 1 fun _ => .InProgress)
        [.begin_txn, .begin_txn, .commit_set_state 1] = some s₁ ∧
      TxnSys.step s₁ (.snapshot 2) = some s₂ ∧
      run TxnSys.step s₂ [.remove_active 1, .commit_set_state 2] = some s₃ ∧
      ((s₁.mgr.snapshot 2).1.counts_committed s₃.mgr.clog 1 ↔
        (s₁.mgr.snapshot 2).1.counts_committed s₁.mgr.clog 1) := by
  have h0 : (TxnManager.new 1 fun _ => .InProgress).Settled := by
    intro x hx hlt
    exact absurd (Nat.lt_one_iff.mp hlt) hx
  refine ⟨h0, _, _, _, rfl, rfl, rfl, ?_⟩
  exact @snapshot_stability (TxnSys.new 1 fun _ => .InProgress) _ _ _
    [.begin_txn, .begin_txn, .commit_set_state 1] [.remove_active 1, .commit_set_state 2] 2
    h0 rfl rfl rfl 1

end Ams
