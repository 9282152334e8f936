/-
Row locking as a protocol: any number of transactions run `delete`, `update`,
`lock_tuple` and `lock_tuple_shared` of `heap_am.rs` on one tuple version, with a
row waiter installed, while they and others commit and abort.

Each transaction is one thread. A call takes the page latch, runs a gate pass and
acts on the verdict. A pass is not one step: every read it makes of the CLOG or of
the active set is a step of its own, so the two halves of a commit can fall
anywhere between them. On `Proceed` the caller stamps the tuple under the same
latch, with two exceptions, both spelled out in the step's label: the cross-page
path of `update` drops the latch to find room on another page and starts the gate
again later, and the log append that precedes a write's stamp can fail. On `Wait`
the latch is dropped and the pass starts over, whenever the caller wakes up.

`shared` and `stamps` record which calls returned and which stamps were written.
They are bookkeeping for the statements; no call reads them.

What the system keeps is one invariant, `RowInv`, and every clause of it about a
pass in flight is the gate's own guarantee, `GateSpec`.
-/
import Ams.RowLock

set_option autoImplicit false

namespace Ams

open Ams.Lib
open Function (update update_self update_of_ne)

/-- The calls that go through the gate, with the caller's command id. -/
inductive RowCall where
  | lock_tuple (curcid : ℕ)
  | lock_tuple_shared (curcid : ℕ)
  | delete (curcid : ℕ)
  | update (curcid : ℕ)
deriving DecidableEq, Repr

/-- The gate request of a call. -/
def RowCall.request : RowCall → LockRequest
  | .lock_tuple _ => .Exclusive
  | .lock_tuple_shared _ => .Shared
  | .delete _ => .Writer
  | .update _ => .Writer

/-- What a call does after a pass that proceeds. -/
inductive AfterProceed where
  /-- Stamp the tuple. -/
  | stamp
  /-- Stamp it with the link of a HOT update. -/
  | stamp_hot (new_tid : Tid)
  /-- The cross-page path: drop the latch and run the gate again later. -/
  | drop_latch
  /-- Give up with an error before the stamp. -/
  | fail
deriving DecidableEq, Repr

/-- The stamp of a call, for the choices that make one. -/
def RowCall.stamped (xid : TxnId) (h : TupleHeader) : RowCall → AfterProceed → Option TupleHeader
  | .lock_tuple curcid, .stamp => some (h.stamp_lock_only xid curcid false)
  | .lock_tuple_shared curcid, .stamp => some (h.stamp_lock_only xid curcid true)
  | .delete curcid, .stamp => some (h.stamp_deleted xid curcid false)
  | .update curcid, .stamp => some (h.stamp_deleted xid curcid true)
  | .update curcid, .stamp_hot new_tid => some (h.stamp_hot_update xid curcid new_tid)
  | _, _ => none

/-- Where a transaction's thread is. -/
inductive Proc where
  /-- Not in a call on this tuple. -/
  | idle
  /-- In a call, without the latch: before the first pass, asleep after a `Wait`, or
  looking for another page. -/
  | calling (call : RowCall)
  /-- In a gate pass, with the latch. -/
  | gating (call : RowCall) (g : Gate GateResult)

/-- The tuple, its registry entry, the page latch and the threads. -/
structure RowSys where
  mgr : TxnManager
  tuple : TupleHeader
  entry : Option HolderSet
  proc : TxnId → Proc
  latch : Option TxnId
  /-- To whom `lock_tuple_shared` has returned `Ok`. -/
  shared : List TxnId
  /-- Who stamped the tuple, and for what. -/
  stamps : List (TxnId × LockRequest)

/-- The steps. A commit or an abort is two of them. -/
inductive RowOp where
  | begin_txn
  | commit_set_state (xid : TxnId)
  | abort_set_state (xid : TxnId)
  | remove_active (xid : TxnId)
  | call (xid : TxnId) (call : RowCall)
  | latch (xid : TxnId)
  | read (xid : TxnId)
  | finish (xid : TxnId) (choice : AfterProceed)
  | interrupt (xid : TxnId)
deriving DecidableEq, Repr

namespace RowSys

/-- No call yet; the registry entry may be left over from an earlier tuple. -/
def start (mgr : TxnManager) (tuple : TupleHeader) (entry : Option HolderSet) : RowSys where
  mgr := mgr
  tuple := tuple
  entry := entry
  proc := fun _ => .idle
  latch := none
  shared := []
  stamps := []

/-- Move one thread. -/
def set_proc (s : RowSys) (xid : TxnId) (p : Proc) : RowSys :=
  { s with proc := update s.proc xid p }

/-- Write an outcome. The transaction's thread is not inside a call. -/
def end_txn (s : RowSys) (xid : TxnId) (state : TxnState) : Option RowSys :=
  match s.proc xid with
  | .idle => if s.mgr.Running xid then some { s with mgr := s.mgr.set_state xid state } else none
  | _ => none

/-- The end of a pass: act on the verdict and drop the latch. A `ProceedNoStamp` to
anything but a share request is `unreachable!` in the source. -/
def finish (s : RowSys) (xid : TxnId) (call : RowCall) (r : GateResult) (choice : AfterProceed) :
    Option RowSys :=
  let s' := { s with entry := r.entry, latch := none }
  match r.verdict with
  | .error _ => some (s'.set_proc xid .idle)
  | .ok (.Wait _) => some (s'.set_proc xid (.calling call))
  | .ok .ProceedNoStamp =>
    if call.request = .Shared then
      some { s'.set_proc xid .idle with shared := xid :: s.shared }
    else none
  | .ok .Proceed =>
    match call.stamped xid s.tuple choice with
    | some tuple =>
      some { s'.set_proc xid .idle with
        tuple := tuple
        stamps := (xid, call.request) :: s.stamps
        shared := if call.request = .Shared then xid :: s.shared else s.shared }
    | none =>
      match choice, call with
      | .drop_latch, .update _ => some (s'.set_proc xid (.calling call))
      | .fail, .delete _ => some (s'.set_proc xid .idle)
      | .fail, .update _ => some (s'.set_proc xid .idle)
      | _, _ => none

/-- One step on the tuple at `tid`. -/
def step (tid : Tid) (s : RowSys) : RowOp → Option RowSys
  | .begin_txn => some { s with mgr := s.mgr.begin_txn.2 }
  | .commit_set_state xid => s.end_txn xid .Committed
  | .abort_set_state xid => s.end_txn xid .Aborted
  | .remove_active xid =>
    if (s.mgr.clog xid).Terminal then some { s with mgr := s.mgr.remove_active xid } else none
  | .call xid call =>
    match s.proc xid with
    | .idle => if s.mgr.Running xid then some (s.set_proc xid (.calling call)) else none
    | _ => none
  | .latch xid =>
    match s.proc xid, s.latch with
    | .calling call, none =>
      some { s.set_proc xid
        (.gating call (row_lock_gate true tid s.tuple xid call.request s.entry)) with
        latch := some xid }
    | _, _ => none
  | .read xid =>
    match s.proc xid with
    | .gating call (.ask q k) => some (s.set_proc xid (.gating call (k (s.mgr.answer q))))
    | _ => none
  | .finish xid choice =>
    match s.proc xid with
    | .gating call (.ret r) => s.finish xid call r choice
    | _ => none
  | .interrupt xid =>
    match s.proc xid with
    | .calling _ => some (s.set_proc xid .idle)
    | _ => none

end RowSys

/-! ## What a step does -/

/-- The effect of a step, by what it is about. -/
inductive RowStep (tid : Tid) (s : RowSys) : RowOp → RowSys → Prop where
  /-- The manager moves on; transactions inside a call stay running. -/
  | manager {op : RowOp} {m : TxnManager} (later : s.mgr.Later m) (wf : s.mgr.Wf → m.Wf)
      (callers : ∀ x, s.proc x ≠ .idle → s.mgr.Running x → m.Running x) :
      RowStep tid s op { s with mgr := m }
  | call {x : TxnId} {call : RowCall} (running : s.mgr.Running x) (idle : s.proc x = .idle) :
      RowStep tid s (.call x call) (s.set_proc x (.calling call))
  | latch {x : TxnId} {call : RowCall} (calling : s.proc x = .calling call)
      (free : s.latch = none) :
      RowStep tid s (.latch x) { s.set_proc x
        (.gating call (row_lock_gate true tid s.tuple x call.request s.entry)) with
        latch := some x }
  | read {x : TxnId} {call : RowCall} {q : GateQuery} {k : q.Answer → Gate GateResult}
      (gating : s.proc x = .gating call (.ask q k)) :
      RowStep tid s (.read x) (s.set_proc x (.gating call (k (s.mgr.answer q))))
  | finish {x : TxnId} {choice : AfterProceed} {call : RowCall} {r : GateResult} {t : RowSys}
      (gating : s.proc x = .gating call (.ret r)) (eq : s.finish x call r choice = some t) :
      RowStep tid s (.finish x choice) t
  | interrupt {x : TxnId} {call : RowCall} (calling : s.proc x = .calling call) :
      RowStep tid s (.interrupt x) (s.set_proc x .idle)

variable {tid : Tid} {s t : RowSys} {op : RowOp} {x xid : TxnId}

theorem RowSys.end_txn_step {state : TxnState} (h : s.end_txn xid state = some t) :
    RowStep tid s op t := by
  unfold end_txn at h
  split at h
  · next hidle =>
    obtain ⟨hrun, rfl⟩ := guarded h
    refine .manager (TxnManager.later_set_state hrun state) (fun hwf => ⟨hwf.1, hwf.2⟩) ?_
    intro x hx hrunx
    have hne : x ≠ xid := by
      rintro rfl
      exact hx hidle
    refine ⟨hrunx.1, ?_⟩
    change ¬ (s.mgr.clog.set_state xid state x).Terminal
    rw [Clog.set_state_of_ne _ _ hne]
    exact hrunx.2
  · simp at h

theorem RowSys.step_cases (h : RowSys.step tid s op = some t) : RowStep tid s op t := by
  cases op with
  | begin_txn =>
    cases h
    refine .manager (TxnManager.later_begin_txn s.mgr) (fun hwf => ⟨Nat.succ_pos _, ?_⟩) ?_
    · intro x hx
      rcases List.mem_insert_iff.mp hx with rfl | hx
      · exact ⟨Nat.pos_iff_ne_zero.mp hwf.1, Nat.lt_succ_self _⟩
      · exact ⟨(hwf.2 x hx).1, Nat.lt_succ_of_lt (hwf.2 x hx).2⟩
    · exact fun x _ hrun => ⟨List.mem_insert_of_mem hrun.1, hrun.2⟩
  | commit_set_state xid => exact end_txn_step h
  | abort_set_state xid => exact end_txn_step h
  | remove_active xid =>
    obtain ⟨hterm, rfl⟩ := guarded h
    refine .manager (TxnManager.later_remove_active hterm) (fun hwf => ⟨hwf.1, ?_⟩) ?_
    · exact fun x hx => hwf.2 x (TxnManager.mem_remove_active.mp hx).1
    · intro x _ hrun
      refine ⟨TxnManager.mem_remove_active.mpr ⟨hrun.1, ?_⟩, hrun.2⟩
      rintro rfl
      exact hrun.2 hterm
  | call xid call =>
    simp only [step] at h
    split at h
    · next hidle =>
      obtain ⟨hrun, rfl⟩ := guarded h
      exact .call hrun hidle
    · simp at h
  | latch xid =>
    simp only [step] at h
    split at h
    · next call hcalling hfree =>
      cases h
      exact .latch hcalling hfree
    · simp at h
  | read xid =>
    simp only [step] at h
    split at h
    · next call q k hgating =>
      cases h
      exact .read hgating
    · simp at h
  | finish xid choice =>
    simp only [step] at h
    split at h
    · next call r hgating => exact .finish hgating h
    · simp at h
  | interrupt xid =>
    simp only [step] at h
    split at h
    · next call hcalling =>
      cases h
      exact .interrupt hcalling
    · simp at h

/-! ## The end of a pass -/

namespace RowCall

variable {xid : TxnId} {h h' : TupleHeader} {call : RowCall} {choice : AfterProceed}

/-- A stamp names its transaction, a share stamp is a lock, and a write's stamp is
not. -/
theorem stamped_spec (hst : call.stamped xid h choice = some h') :
    h'.t_xmax = xid ∧ (h'.is_share = true → h'.lock_only = true) ∧
      (call.request = .Writer → h'.lock_only = false) := by
  cases call <;> cases choice <;> simp only [stamped, Option.some.injEq, reduceCtorEq] at hst
  all_goals
    subst hst
    refine ⟨rfl, ?_, ?_⟩
    · simp
    · simp [request]

end RowCall

/-- What the end of a pass leaves, apart from the thread that made it. -/
inductive Finished (s : RowSys) (x : TxnId) (call : RowCall) (r : GateResult)
    (choice : AfterProceed) : RowSys → Prop where
  /-- The verdict was not `Proceed`: the tuple is untouched, and a share may have
  been granted without a stamp. -/
  | unstamped {t : RowSys} (verdict : r.verdict ≠ .ok .Proceed) (tuple : t.tuple = s.tuple)
      (stamps : t.stamps = s.stamps)
      (shared : t.shared = s.shared ∨
        (r.verdict = .ok .ProceedNoStamp ∧ t.shared = x :: s.shared)) : Finished s x call r choice t
  /-- The verdict was `Proceed` and no stamp followed. -/
  | abandoned {t : RowSys} (verdict : r.verdict = .ok .Proceed)
      (choice_eq : choice = .drop_latch ∨ choice = .fail) (tuple : t.tuple = s.tuple)
      (stamps : t.stamps = s.stamps) (shared : t.shared = s.shared) : Finished s x call r choice t
  /-- The verdict was `Proceed` and the tuple was stamped. -/
  | stamped {t : RowSys} (verdict : r.verdict = .ok .Proceed) (xmax : t.tuple.t_xmax = x)
      (share : t.tuple.is_share = true → t.tuple.lock_only = true)
      (write : call.request = .Writer → t.tuple.lock_only = false)
      (stamps : t.stamps = (x, call.request) :: s.stamps)
      (shared : t.shared = s.shared ∨ t.shared = x :: s.shared) :
      Finished s x call r choice t

variable {call : RowCall}

/-- The end of a pass, taken apart: what it always does, and what it did to the
tuple. -/
theorem RowSys.finish_cases {r : GateResult} {choice : AfterProceed}
    (h : s.finish x call r choice = some t) :
    t.mgr = s.mgr ∧ t.entry = r.entry ∧
      (∃ p, t.proc = update s.proc x p ∧ ∀ call g, p ≠ .gating call g) ∧
      Finished s x call r choice t := by
  have hidle : ∀ call g, Proc.idle ≠ .gating call g := by simp
  have hcalling : ∀ call' g, Proc.calling call ≠ .gating call' g := by simp
  unfold finish at h
  split at h
  · next e hv =>
    cases h
    exact ⟨rfl, rfl, ⟨_, rfl, hidle⟩, .unstamped (by rw [hv]; simp) rfl rfl (.inl rfl)⟩
  · next y hv =>
    cases h
    exact ⟨rfl, rfl, ⟨_, rfl, hcalling⟩, .unstamped (by rw [hv]; simp) rfl rfl (.inl rfl)⟩
  · next hv =>
    split_ifs at h
    cases h
    exact ⟨rfl, rfl, ⟨_, rfl, hidle⟩, .unstamped (by rw [hv]; simp) rfl rfl (.inr ⟨hv, rfl⟩)⟩
  · next hv =>
    split at h
    · next tuple hst =>
      cases h
      obtain ⟨hx, hs, hw⟩ := RowCall.stamped_spec hst
      refine ⟨rfl, rfl, ⟨_, rfl, hidle⟩, .stamped hv hx hs hw rfl ?_⟩
      change (if call.request = .Shared then x :: s.shared else s.shared) = _ ∨
        (if call.request = .Shared then x :: s.shared else s.shared) = _
      split_ifs
      · exact .inr rfl
      · exact .inl rfl
    · split at h
      · cases h
        exact ⟨rfl, rfl, ⟨_, rfl, hcalling⟩, .abandoned hv (.inl rfl) rfl rfl rfl⟩
      · cases h
        exact ⟨rfl, rfl, ⟨_, rfl, hidle⟩, .abandoned hv (.inr rfl) rfl rfl rfl⟩
      · cases h
        exact ⟨rfl, rfl, ⟨_, rfl, hidle⟩, .abandoned hv (.inr rfl) rfl rfl rfl⟩
      · simp at h

/-! ## The invariant -/

/-- `xid` has begun, and is in the active set until its outcome is written. -/
structure Known (m : TxnManager) (xid : TxnId) : Prop where
  ne_invalid : xid ≠ TxnId.INVALID
  lt_clock : xid < m.txn_id_clock
  active_or_ended : xid ∈ m.active ∨ (m.clog xid).Terminal

theorem Known.later {m m' : TxnManager} (h : Known m xid) (hl : m.Later m') :
    Known m' xid where
  ne_invalid := h.ne_invalid
  lt_clock := lt_of_lt_of_le h.lt_clock hl.clock_le
  active_or_ended := by
    rcases h.active_or_ended with hact | hterm
    · by_cases hact' : xid ∈ m'.active
      · exact .inl hact'
      · exact .inr (hl.leaves xid hact hact')
    · rw [hl.terminal xid hterm]
      exact .inr hterm

theorem Known.of_running {m : TxnManager} (hwf : m.Wf) (h : m.Running xid) :
    Known m xid :=
  ⟨(hwf.active_lt xid h.1).1, (hwf.active_lt xid h.1).2, .inl h.1⟩

theorem Known.running {m : TxnManager} (h : Known m xid) (hn : ¬ (m.clog xid).Terminal) :
    m.Running xid :=
  ⟨h.active_or_ended.resolve_right hn, hn⟩

/-- A pass in flight keeps the gate's guarantee. `m₀` is the manager when the pass
began; the stamp and the holders it protects are older. -/
def InPass (tid : Tid) (s : RowSys) (x : TxnId) (call : RowCall) (g : Gate GateResult) : Prop :=
  ∃ m₀ : TxnManager, s.tuple.t_xmax < m₀.txn_id_clock ∧ (∀ y ∈ s.shared, y < m₀.txn_id_clock) ∧
    Gate.Ensures (GateSpec m₀ tid s.tuple x call.request s.entry) g s.mgr

/-- **The protocol's invariant.** -/
structure RowInv (tid : Tid) (s : RowSys) : Prop where
  wf : s.mgr.Wf
  share_is_lock : s.tuple.is_share = true → s.tuple.lock_only = true
  xmax_lt : s.tuple.t_xmax < s.mgr.txn_id_clock
  callers : ∀ x, s.proc x ≠ .idle → s.mgr.Running x
  latched : ∀ x call g, s.proc x = .gating call g → s.latch = some x ∧ InPass tid s x call g
  shared_known : ∀ x ∈ s.shared, Known s.mgr x
  stamps_known : ∀ p ∈ s.stamps, Known s.mgr p.1
  /-- A write's stamp stays until its transaction aborts. -/
  write_kept : ∀ x, (x, .Writer) ∈ s.stamps → s.mgr.clog x ≠ .Aborted →
    s.tuple.t_xmax = x ∧ s.tuple.lock_only = false

namespace RowInv

variable {tid : Tid} {s t : RowSys} {op : RowOp}

theorem start {mgr : TxnManager} {tuple : TupleHeader} {entry : Option HolderSet}
    (hwf : mgr.Wf) (hshare : tuple.is_share = true → tuple.lock_only = true)
    (hxmax : tuple.t_xmax < mgr.txn_id_clock) : RowInv tid (.start mgr tuple entry) where
  wf := hwf
  share_is_lock := hshare
  xmax_lt := hxmax
  callers x h := absurd rfl h
  latched x call g h := by simp [RowSys.start] at h
  shared_known x h := absurd h List.not_mem_nil
  stamps_known p h := absurd h List.not_mem_nil
  write_kept x h := absurd h List.not_mem_nil

/-- The manager moves on. -/
theorem manager (hs : RowInv tid s) {m : TxnManager} (hlater : s.mgr.Later m)
    (hwf : s.mgr.Wf → m.Wf) (hcallers : ∀ x, s.proc x ≠ .idle → s.mgr.Running x → m.Running x) :
    RowInv tid { s with mgr := m } where
  wf := hwf hs.wf
  share_is_lock := hs.share_is_lock
  xmax_lt := lt_of_lt_of_le hs.xmax_lt hlater.clock_le
  callers x hx := hcallers x hx (hs.callers x hx)
  latched x call g h := by
    obtain ⟨hl, m₀, hx, hy, hg⟩ := hs.latched x call g h
    exact ⟨hl, m₀, hx, hy, hg.stable TxnManager.Later.trans hlater⟩
  shared_known x hx := (hs.shared_known x hx).later hlater
  stamps_known p hp := (hs.stamps_known p hp).later hlater
  write_kept x hx hab := by
    apply hs.write_kept x hx
    intro hold
    apply hab
    rw [← hold]
    exact hlater.terminal x (by rw [hold]; trivial)

variable {x : TxnId}

/-- A thread moves without touching the tuple or the registry. -/
theorem set_proc (hs : RowInv tid s) {p : Proc} {latch : Option TxnId} (hrun : s.mgr.Running x)
    (hp : ∀ call g, p = .gating call g → latch = some x ∧ InPass tid s x call g)
    (hother : ∀ y call g, y ≠ x → s.proc y = .gating call g → latch = s.latch) :
    RowInv tid { s.set_proc x p with latch := latch } where
  wf := hs.wf
  share_is_lock := hs.share_is_lock
  xmax_lt := hs.xmax_lt
  callers y hy := by
    by_cases hyx : y = x
    · rw [hyx]
      exact hrun
    · change update s.proc x p y ≠ .idle at hy
      rw [update_of_ne hyx] at hy
      exact hs.callers y hy
  latched y call g hy := by
    change update s.proc x p y = .gating call g at hy
    by_cases hyx : y = x
    · subst hyx
      rw [update_self] at hy
      exact hp call g hy
    · rw [update_of_ne hyx] at hy
      obtain ⟨hl, hpass⟩ := hs.latched y call g hy
      exact ⟨(hother y call g hyx hy).trans hl, hpass⟩
  shared_known := hs.shared_known
  stamps_known := hs.stamps_known
  write_kept := hs.write_kept

variable {call : RowCall} {r : GateResult}

/-- The guarantee of a pass that has just ended. -/
theorem gate_spec (hs : RowInv tid s) (h : s.proc x = .gating call (.ret r)) :
    ∃ m₀ : TxnManager, s.tuple.t_xmax < m₀.txn_id_clock ∧ (∀ y ∈ s.shared, y < m₀.txn_id_clock) ∧
      GateSpec m₀ tid s.tuple x call.request s.entry s.mgr r := by
  obtain ⟨-, m₀, hx, hy, hg⟩ := hs.latched x call _ h
  exact ⟨m₀, hx, hy, hg.returned TxnManager.Later.refl⟩

/-- Once a pass has ended nobody holds the latch. -/
theorem no_pass_after (hs : RowInv tid s) (hx : s.proc x = .gating call (.ret r)) {p : Proc}
    (hp : ∀ call g, p ≠ .gating call g) (y : TxnId) (call' : RowCall) (g : Gate GateResult) :
    update s.proc x p y ≠ .gating call' g := by
  intro hy
  by_cases hyx : y = x
  · rw [hyx, update_self] at hy
    exact hp _ _ hy
  · rw [update_of_ne hyx] at hy
    have hl := (hs.latched y call' g hy).1
    rw [(hs.latched x call _ hx).1] at hl
    exact hyx (Option.some.inj hl).symm

/-- A write's stamp survives whatever a pass does next: another transaction
proceeds past it only when its transaction aborted, and its own transaction only
to write again. -/
theorem write_kept_finish (hs : RowInv tid s) {choice : AfterProceed}
    (hx : s.proc x = .gating call (.ret r)) (hfin : Finished s x call r choice t) {y : TxnId}
    (hy : (y, .Writer) ∈ t.stamps) (hab : s.mgr.clog y ≠ .Aborted) :
    t.tuple.t_xmax = y ∧ t.tuple.lock_only = false := by
  obtain ⟨m₀, hlt, -, hspec⟩ := hs.gate_spec hx
  cases hfin with
  | unstamped _ htuple hstamps _ =>
    rw [htuple]
    rw [hstamps] at hy
    exact hs.write_kept y hy hab
  | abandoned _ _ htuple hstamps _ =>
    rw [htuple]
    rw [hstamps] at hy
    exact hs.write_kept y hy hab
  | stamped hv hxmax _ hwrite hstamps _ =>
    rw [hstamps] at hy
    rcases List.mem_cons.mp hy with heq | hy
    · obtain ⟨rfl, hreq⟩ := Prod.mk.inj heq
      exact ⟨hxmax, hwrite hreq.symm⟩
    · obtain ⟨hxm, hlock⟩ := hs.write_kept y hy hab
      have hknown := hs.stamps_known _ hy
      have hne : s.tuple.t_xmax ≠ TxnId.INVALID := by
        rw [hxm]
        exact hknown.ne_invalid
      by_cases hyx : y = x
      · have hw := hspec.own_write hv hne (hxm.trans hyx) hlock
        exact ⟨hxmax.trans hyx.symm, hwrite hw⟩
      · -- another transaction's real stamp is only overwritten after an abort
        have hshare : s.tuple.is_share = false := by
          rw [Bool.eq_false_iff]
          intro h
          rw [hs.share_is_lock h] at hlock
          exact absurd hlock (by decide)
        obtain ⟨hover, hcom⟩ := hspec.superseded hv hne (by rw [hxm]; exact hyx) hlt hshare
        rw [hxm] at hover hcom
        have hterm : (s.mgr.clog y).Terminal := by
          by_contra hn
          exact hover (hknown.running hn)
        exfalso
        revert hterm hab
        have := hcom hlock
        cases hst : s.mgr.clog y <;> simp_all [TxnState.Terminal]

theorem finish (hs : RowInv tid s) {choice : AfterProceed} (hx : s.proc x = .gating call (.ret r))
    (h : s.finish x call r choice = some t) : RowInv tid t := by
  obtain ⟨hmgr, hentry, ⟨p, hproc, hp⟩, hfin⟩ := RowSys.finish_cases h
  have hrun : s.mgr.Running x := hs.callers x (by rw [hx]; simp)
  have hknown : Known s.mgr x := Known.of_running hs.wf hrun
  refine ⟨?_, ?_, ?_, ?_, ?_, ?_, ?_, ?_⟩
  · rw [hmgr]
    exact hs.wf
  · cases hfin with
    | unstamped _ htuple => rw [htuple]; exact hs.share_is_lock
    | abandoned _ _ htuple => rw [htuple]; exact hs.share_is_lock
    | stamped _ _ hshare => exact hshare
  · rw [hmgr]
    cases hfin with
    | unstamped _ htuple => rw [htuple]; exact hs.xmax_lt
    | abandoned _ _ htuple => rw [htuple]; exact hs.xmax_lt
    | stamped _ hxmax => rw [hxmax]; exact hknown.lt_clock
  · intro y hy
    rw [hmgr]
    by_cases hyx : y = x
    · rw [hyx]
      exact hrun
    · apply hs.callers y
      rwa [hproc, update_of_ne hyx] at hy
  · intro y call' g hy
    rw [hproc] at hy
    exact absurd hy (hs.no_pass_after hx hp y call' g)
  · rw [hmgr]
    have hcases : t.shared = s.shared ∨ t.shared = x :: s.shared := by
      cases hfin with
      | unstamped _ _ _ hsh => exact hsh.imp_right And.right
      | abandoned _ _ _ _ hsh => exact .inl hsh
      | stamped _ _ _ _ _ hsh => exact hsh
    intro y hy
    rcases hcases with hsh | hsh
    · exact hs.shared_known y (hsh ▸ hy)
    · rw [hsh] at hy
      rcases List.mem_cons.mp hy with rfl | hy
      · exact hknown
      · exact hs.shared_known y hy
  · rw [hmgr]
    intro p hp
    cases hfin with
    | unstamped _ _ hstamps => exact hs.stamps_known p (hstamps ▸ hp)
    | abandoned _ _ _ hstamps => exact hs.stamps_known p (hstamps ▸ hp)
    | stamped _ _ _ _ hstamps =>
      rw [hstamps] at hp
      rcases List.mem_cons.mp hp with rfl | hp
      · exact hknown
      · exact hs.stamps_known p hp
  · rw [hmgr]
    exact fun y hy hab => hs.write_kept_finish hx hfin hy hab

/-- Every step keeps the invariant. -/
theorem step (hs : RowInv tid s) (h : RowSys.step tid s op = some t) : RowInv tid t := by
  cases RowSys.step_cases h with
  | manager hlater hwf hcallers => exact hs.manager hlater hwf hcallers
  | call hrun hidle =>
    exact hs.set_proc hrun (fun _ _ h => by simp at h) (fun _ _ _ _ _ => rfl)
  | @latch x call hcalling hfree =>
    have hrun : s.mgr.Running x := hs.callers x (by rw [hcalling]; simp)
    refine hs.set_proc hrun ?_ ?_
    · intro call' g hg
      obtain ⟨rfl, rfl⟩ := Proc.gating.inj hg
      exact ⟨rfl, s.mgr, hs.xmax_lt, fun y hy => (hs.shared_known y hy).lt_clock,
        row_lock_gate_spec hs.share_is_lock⟩
    · intro y call' g _ hy
      have hl := (hs.latched y call' g hy).1
      rw [hfree] at hl
      simp at hl
  | @read x call q k hgating =>
    have hrun : s.mgr.Running x := hs.callers x (by rw [hgating]; simp)
    obtain ⟨hl, m₀, hx, hy, hg⟩ := hs.latched x call _ hgating
    refine hs.set_proc hrun ?_ (fun _ _ _ _ _ => rfl)
    intro call' g' hg'
    obtain ⟨rfl, rfl⟩ := Proc.gating.inj hg'
    exact ⟨hl, m₀, hx, hy, hg.asked TxnManager.Later.refl⟩
  | finish hgating heq => exact hs.finish hgating heq
  | @interrupt x call hcalling =>
    have hrun : s.mgr.Running x := hs.callers x (by rw [hcalling]; simp)
    exact hs.set_proc hrun (fun _ _ h => by simp at h) (fun _ _ _ _ _ => rfl)

theorem run {ops : List RowOp} (hs : RowInv tid s)
    (h : Lib.run (RowSys.step tid) s ops = some t) : RowInv tid t :=
  run_invariant (RowInv tid) (fun _ _ _ => RowInv.step) hs h

end RowInv

/-! ## One pass, from the latch to the verdict -/

/-- A pass keeps its guarantee until it is finished, whatever the other threads do
meanwhile. -/
theorem RowSys.step_in_pass {Q : TxnManager → GateResult → Prop}
    (hs : ∃ g, s.proc x = .gating call g ∧ Gate.Ensures Q g s.mgr)
    (hop : ∀ choice, op ≠ .finish x choice) (h : RowSys.step tid s op = some t) :
    ∃ g, t.proc x = .gating call g ∧ Gate.Ensures Q g t.mgr := by
  obtain ⟨g, hg, hQ⟩ := hs
  -- moving another thread leaves this one where it is
  have hother : ∀ {y : TxnId} (p : Proc), y ≠ x →
      update s.proc y p x = .gating call g := by
    intro y p hyx
    rw [update_of_ne (Ne.symm hyx)]
    exact hg
  cases RowSys.step_cases h with
  | manager hlater _ _ => exact ⟨g, hg, hQ.stable TxnManager.Later.trans hlater⟩
  | call _ hidle =>
    refine ⟨g, hother _ ?_, hQ⟩
    rintro rfl
    rw [hg] at hidle
    simp at hidle
  | latch hcalling _ =>
    refine ⟨g, hother _ ?_, hQ⟩
    rintro rfl
    rw [hg] at hcalling
    simp at hcalling
  | @read y call' q k hgating =>
    by_cases hyx : y = x
    · subst hyx
      rw [hg] at hgating
      obtain ⟨rfl, rfl⟩ := Proc.gating.inj hgating
      exact ⟨k (s.mgr.answer q), update_self .., hQ.asked TxnManager.Later.refl⟩
    · exact ⟨g, hother _ hyx, hQ⟩
  | @finish y choice call' r _ hgating heq =>
    have hyx : y ≠ x := by
      rintro rfl
      exact hop choice rfl
    obtain ⟨hmgr, -, ⟨p, hp, -⟩, -⟩ := RowSys.finish_cases heq
    refine ⟨g, ?_, by rw [hmgr]; exact hQ⟩
    rw [hp]
    exact hother _ hyx
  | interrupt hcalling =>
    refine ⟨g, hother _ ?_, hQ⟩
    rintro rfl
    rw [hg] at hcalling
    simp at hcalling

/-- The verdict of a pass that begins in `s` has the gate's guarantee for the tuple
as it is in `s`. -/
theorem RowSys.pass_spec {s₁ s₂ : RowSys} {r : GateResult} {later : List RowOp} (hs : RowInv tid s)
    (hlatch : RowSys.step tid s (.latch x) = some s₁)
    (hrun : run (RowSys.step tid) s₁ later = some s₂) (hlater : ∀ choice, .finish x choice ∉ later)
    (hend : s₂.proc x = .gating call (.ret r)) :
    GateSpec s.mgr tid s.tuple x call.request s.entry s₂.mgr r := by
  have hstart : ∃ call', ∃ g, s₁.proc x = .gating call' g ∧
      Gate.Ensures (GateSpec s.mgr tid s.tuple x call'.request s.entry) g s₁.mgr := by
    cases RowSys.step_cases hlatch with
    | @manager _ m hl _ _ =>
      -- `latch` is not a step of the manager
      simp only [step] at hlatch
      split at hlatch
      · next call' hcalling hfree =>
        exact absurd (congrArg RowSys.latch (Option.some.inj hlatch)) (by rw [hfree]; simp)
      · simp at hlatch
    | @latch _ call' _ _ =>
      exact ⟨call', _, update_self .., row_lock_gate_spec hs.share_is_lock⟩
  obtain ⟨call', hstart⟩ := hstart
  have hpass : ∃ g, s₂.proc x = .gating call' g ∧
      Gate.Ensures (GateSpec s.mgr tid s.tuple x call'.request s.entry) g s₂.mgr := by
    clear hend hlatch
    induction later generalizing s₁ with
    | nil =>
      cases hrun
      exact hstart
    | cons op later ih =>
      obtain ⟨t, hst, hrest⟩ := run_cons_eq_some.mp hrun
      refine ih hrest (fun choice hmem => hlater choice (.tail _ hmem)) ?_
      refine RowSys.step_in_pass hstart (fun choice heq => ?_) hst
      exact hlater choice (heq ▸ (.head _))
  obtain ⟨g, hg, hens⟩ := hpass
  rw [hend] at hg
  obtain ⟨rfl, rfl⟩ := Proc.gating.inj hg
  exact hens.returned TxnManager.Later.refl

/-- **First updater wins.** In every interleaving, with a registry entry of any
content to begin with: of the transactions that wrote a real stamp at most one is
committed; an exclusive or real stamp of a running transaction is replaced only by
a call of that transaction; and a pass that begins after a real stamper committed
reports the concurrent update to everyone else. -/
theorem first_updater_wins {tid : Tid} {mgr : TxnManager} {tuple : TupleHeader}
    {entry : Option HolderSet} (hwf : mgr.Wf)
    (hshare : tuple.is_share = true → tuple.lock_only = true)
    (hxmax : tuple.t_xmax < mgr.txn_id_clock) {ops : List RowOp} {s : RowSys}
    (hrun : run (RowSys.step tid) (.start mgr tuple entry) ops = some s) :
    (∀ x y, (x, .Writer) ∈ s.stamps → (y, .Writer) ∈ s.stamps →
      s.mgr.clog x = .Committed → s.mgr.clog y = .Committed → x = y) ∧
    (∀ op t, RowSys.step tid s op = some t → t.tuple ≠ s.tuple →
      s.tuple.is_share = false → s.mgr.Running s.tuple.t_xmax →
      ∃ choice, op = .finish s.tuple.t_xmax choice) ∧
    (∀ x y s₁ s₂ later call r, (x, .Writer) ∈ s.stamps → s.mgr.clog x = .Committed → y ≠ x →
      RowSys.step tid s (.latch y) = some s₁ → run (RowSys.step tid) s₁ later = some s₂ →
      (∀ choice, .finish y choice ∉ later) → s₂.proc y = .gating call (.ret r) →
      r.verdict = .error (.TupleConcurrentlyUpdated tid)) := by
  have hs : RowInv tid s := (RowInv.start hwf hshare hxmax).run hrun
  refine ⟨?_, ?_, ?_⟩
  · -- both stamps are the one on the tuple
    intro x y hx hy hcx hcy
    rw [← (hs.write_kept x hx (by rw [hcx]; decide)).1]
    exact (hs.write_kept y hy (by rw [hcy]; decide)).1
  · intro op t hstep hne hns hact
    cases RowSys.step_cases hstep with
    | manager _ _ _ => exact absurd rfl hne
    | call _ _ => exact absurd rfl hne
    | latch _ _ => exact absurd rfl hne
    | read _ => exact absurd rfl hne
    | interrupt _ => exact absurd rfl hne
    | @finish z choice call r _ hgating heq =>
      obtain ⟨-, -, -, hfin⟩ := RowSys.finish_cases heq
      obtain ⟨m₀, hlt, -, hspec⟩ := hs.gate_spec hgating
      cases hfin with
      | unstamped _ htuple => exact absurd htuple hne
      | abandoned _ _ htuple => exact absurd htuple hne
      | stamped hv _ _ _ _ _ =>
        by_cases hz : s.tuple.t_xmax = z
        · exact ⟨choice, by rw [hz]⟩
        · exact absurd hact
            (hspec.superseded hv (hs.wf.active_lt _ hact.1).1 hz hlt hns).1
  · intro x y s₁ s₂ later call r hx hcx hyx hlatch hlater hfin hend
    obtain ⟨hxm, hlock⟩ := hs.write_kept x hx (by rw [hcx]; decide)
    apply (RowSys.pass_spec hs hlatch hlater hfin hend).turned_away
    · rw [hxm]
      exact hcx
    · rw [hxm]
      exact (hs.stamps_known _ hx).ne_invalid
    · rw [hxm]
      exact Ne.symm hyx
    · exact hlock

/-- Transaction 1 deletes the row and commits, both halves of the commit falling
between the reads of transaction 2's gate pass. The lock transaction 2 asks for
next is turned away too. -/
theorem first_updater_wins_split_commit :
    ∃ s s₁ s₂ : RowSys, ∃ r,
      run (RowSys.step ⟨5, 2⟩) (.start (.new 1 fun _ => .InProgress)
        (.new 1 0 0 (Vector.replicate 16 0) ⟨5, 2⟩ 0) none)
        [.begin_txn, .begin_txn, .call 1 (.delete 0), .call 2 (.update 0), .latch 1,
          .finish 1 .stamp, .latch 2, .read 2, .commit_set_state 1, .remove_active 1, .read 2,
          .read 2, .finish 2 .fail, .call 2 (.lock_tuple 1)] = some s ∧
      RowSys.step ⟨5, 2⟩ s (.latch 2) = some s₁ ∧
      run (RowSys.step ⟨5, 2⟩) s₁ [.read 2] = some s₂ ∧
      s₂.proc 2 = .gating (.lock_tuple 1) (.ret r) ∧
      r.verdict = .error (.TupleConcurrentlyUpdated ⟨5, 2⟩) := by
  refine ⟨_, _, _, _, rfl, rfl, rfl, rfl, ?_⟩
  have h := @first_updater_wins ⟨5, 2⟩ (.new 1 fun _ => .InProgress)
    (.new 1 0 0 (Vector.replicate 16 0) ⟨5, 2⟩ 0) none
    ⟨by decide, fun x hx => absurd hx List.not_mem_nil⟩ (by decide) (by decide)
    [.begin_txn, .begin_txn, .call 1 (.delete 0), .call 2 (.update 0), .latch 1,
      .finish 1 .stamp, .latch 2, .read 2, .commit_set_state 1, .remove_active 1, .read 2,
      .read 2, .finish 2 .fail, .call 2 (.lock_tuple 1)] _ rfl
  exact h.2.2 1 2 _ _ [.read 2] _ _ (by decide) rfl (by decide) rfl rfl
    (fun choice => by simp) rfl

/-! ## Shared locks

A share can live in the registry alone: a transaction that joins the holders of a
row under another's share stamp leaves no stamp of its own. A write by such a
transaction is where the gate and its callers part ways. The pass erases the
registry entry as soon as it proceeds, on the promise that the stamp follows; the
cross-page path of `update` drops the latch without stamping, and so does a write
whose log append fails. -/

/-- The step is not a proceeding pass that goes without its stamp while the share
of its transaction is in the registry only. -/
def RowSys.KeepsOwnShare (s : RowSys) : RowOp → Prop
  | .finish x choice => ∀ call r, s.proc x = .gating call (.ret r) → r.verdict = .ok .Proceed →
      choice = .drop_latch ∨ choice = .fail → x ∈ s.shared → s.tuple.t_xmax = x
  | _ => True

/-- The holds of the running share holders are on record. -/
def SharesKept (s : RowSys) : Prop :=
  ∀ x ∈ s.shared, s.mgr.Running x → Holds s.tuple s.entry x

theorem SharesKept.finish (hs : RowInv tid s) (hk : SharesKept s) {r : GateResult}
    {choice : AfterProceed} (hx : s.proc x = .gating call (.ret r))
    (hcond : s.KeepsOwnShare (.finish x choice)) (h : s.finish x call r choice = some t) :
    SharesKept t := by
  obtain ⟨hmgr, hentry, -, hfin⟩ := RowSys.finish_cases h
  obtain ⟨m₀, -, hlt, hspec⟩ := hs.gate_spec hx
  have hkept : ∀ y ∈ s.shared, s.mgr.Running y →
      (y ≠ x → r.verdict ≠ .ok .Proceed) ∧
        (r.verdict ≠ .ok .Proceed → Holds s.tuple r.entry y) := fun y hy hrun =>
    hspec.holder_kept y (hs.shared_known y hy).ne_invalid (hlt y hy) hrun (hk y hy hrun)
  intro y hy hrun
  rw [hmgr] at hrun
  rw [hentry]
  cases hfin with
  | unstamped hv htuple _ hshared =>
    rw [htuple]
    rcases hshared with hsh | ⟨hgrant, hsh⟩
    · rw [hsh] at hy
      exact (hkept y hy hrun).2 hv
    · rw [hsh] at hy
      rcases List.mem_cons.mp hy with rfl | hy
      · exact (hspec.granted hgrant).2
      · exact (hkept y hy hrun).2 hv
  | abandoned hv hchoice htuple _ hshared =>
    rw [hshared] at hy
    rw [htuple]
    by_cases hyx : y = x
    · subst hyx
      exact .inl (hcond call r hx hv hchoice hy)
    · exact absurd hv ((hkept y hy hrun).1 hyx)
  | stamped hv hxmax _ _ _ hshared =>
    by_cases hyx : y = x
    · exact .inl (hxmax.trans hyx.symm)
    · have hy' : y ∈ s.shared := by
        rcases hshared with hsh | hsh
        · rwa [hsh] at hy
        · rw [hsh] at hy
          exact (List.mem_cons.mp hy).resolve_left hyx
      exact absurd hv ((hkept y hy' hrun).1 hyx)

theorem SharesKept.step (hs : RowInv tid s) (hk : SharesKept s) (hcond : s.KeepsOwnShare op)
    (h : RowSys.step tid s op = some t) :
    SharesKept t := by
  cases RowSys.step_cases h with
  | manager hlater _ _ =>
    intro x hx hrun
    exact hk x hx (hlater.running (hs.shared_known x hx).lt_clock hrun)
  | call _ _ => exact hk
  | latch _ _ => exact hk
  | read _ => exact hk
  | finish hgating heq => exact hk.finish hs hgating hcond heq
  | interrupt _ => exact hk

/-- **Share locks are kept.** In every interleaving without such a pass: while a
transaction that was granted a share has neither committed nor aborted, no gate
pass of another transaction proceeds. -/
theorem share_lock_retention {tid : Tid} {mgr : TxnManager} {tuple : TupleHeader}
    {entry : Option HolderSet} (hwf : mgr.Wf)
    (hshare : tuple.is_share = true → tuple.lock_only = true)
    (hxmax : tuple.t_xmax < mgr.txn_id_clock) {ops : List RowOp} {s : RowSys}
    (hall : AllSteps (RowSys.step tid) RowSys.KeepsOwnShare (.start mgr tuple entry) ops)
    (hrun : run (RowSys.step tid) (.start mgr tuple entry) ops = some s)
    {x y : TxnId} (hx : x ∈ s.shared) (hlive : ¬ (s.mgr.clog x).Terminal) (hyx : y ≠ x)
    {call : RowCall} {r : GateResult} (hpass : s.proc y = .gating call (.ret r)) :
    r.verdict ≠ .ok .Proceed := by
  obtain ⟨hs, hk⟩ : RowInv tid s ∧ SharesKept s :=
    run_invariant_of_allSteps RowSys.KeepsOwnShare (fun s => RowInv tid s ∧ SharesKept s)
      (fun _ _ _ hI hcond hstep => ⟨hI.1.step hstep, hI.2.step hI.1 hcond hstep⟩)
      ⟨RowInv.start hwf hshare hxmax, fun x hx => absurd hx List.not_mem_nil⟩ hall hrun
  obtain ⟨m₀, -, hlt, hspec⟩ := hs.gate_spec hpass
  have hknown := hs.shared_known x hx
  have hrunning := hknown.running hlive
  exact (hspec.holder_kept x hknown.ne_invalid (hlt x hx) hrunning (hk x hx hrunning)).1
    (Ne.symm hyx)

/-- Two share holders, the stamp naming the first; the first ends, and a write
request still waits for the second. -/
theorem share_lock_retention_second_holder :
    ∃ (s : RowSys) (r : GateResult),
      run (RowSys.step ⟨5, 2⟩) (.start (.new 1 fun _ => .InProgress)
        (.new 9 0 0 (Vector.replicate 16 0) ⟨5, 2⟩ 0) none)
        [.begin_txn, .begin_txn, .begin_txn, .call 2 (.lock_tuple_shared 0), .latch 2,
          .finish 2 .stamp, .call 1 (.lock_tuple_shared 0), .latch 1, .read 1, .read 1,
          .finish 1 .stamp, .commit_set_state 2, .remove_active 2, .call 3 (.delete 0), .latch 3,
          .read 3, .read 3, .read 3] = some s ∧
      1 ∈ s.shared ∧ s.proc 3 = .gating (.delete 0) (.ret r) ∧ r.verdict ≠ .ok .Proceed := by
  refine ⟨_, _, rfl, by decide, rfl, ?_⟩
  exact @share_lock_retention ⟨5, 2⟩ (.new 1 fun _ => .InProgress)
    (.new 9 0 0 (Vector.replicate 16 0) ⟨5, 2⟩ 0) none
    ⟨by decide, fun x hx => absurd hx List.not_mem_nil⟩ (by decide) (by decide)
    [.begin_txn, .begin_txn, .begin_txn, .call 2 (.lock_tuple_shared 0), .latch 2,
      .finish 2 .stamp, .call 1 (.lock_tuple_shared 0), .latch 1, .read 1, .read 1,
      .finish 1 .stamp, .commit_set_state 2, .remove_active 2, .call 3 (.delete 0), .latch 3,
      .read 3, .read 3, .read 3] _
    (by simp [AllSteps, RowSys.KeepsOwnShare]) rfl 1 3 (by decide) (by decide) (by decide) _ _ rfl

/-- A share lost to its own holder's cross-page update. Transaction 1 joins the
share of transaction 2, which then commits. The first gate pass of 1's update
proceeds, erases the registry entry and drops the latch; the next exclusive request
of transaction 3 proceeds although 1 is running and has stamped nothing. -/
theorem share_lock_lost_by_cross_page_update :
    ∃ (s : RowSys) (r : GateResult),
      run (RowSys.step ⟨5, 2⟩) (.start (.new 1 fun _ => .InProgress)
        (.new 9 0 0 (Vector.replicate 16 0) ⟨5, 2⟩ 0) none)
        [.begin_txn, .begin_txn, .begin_txn, .call 2 (.lock_tuple_shared 0), .latch 2,
          .finish 2 .stamp, .call 1 (.lock_tuple_shared 0), .latch 1, .read 1, .read 1,
          .finish 1 .stamp, .commit_set_state 2, .remove_active 2, .call 1 (.update 0), .latch 1,
          .read 1, .read 1, .read 1, .finish 1 .drop_latch, .call 3 (.lock_tuple 0), .latch 3,
          .read 3] = some s ∧
      1 ∈ s.shared ∧ s.mgr.Running 1 ∧ (1, .Exclusive) ∉ s.stamps ∧ (1, .Writer) ∉ s.stamps ∧
      s.proc 3 = .gating (.lock_tuple 0) (.ret r) ∧ r.verdict = .ok .Proceed := by
  refine ⟨_, _, rfl, by decide, by decide, by decide, by decide, rfl, rfl⟩

end Ams
