/-
The row-lock gate of `pg-am-heap/src/heap_am.rs`: the decision every delete,
update and row lock makes, under the page's write latch, before it stamps a tuple.

The latch protects the tuple and the registry of share holders, but not what the
gate asks about other transactions. It reads the CLOG, then the active set, then
possibly the CLOG again, and a commit or an abort can fall between any two of
those reads. The gate is therefore a `Query` program whose questions are exactly
these reads, in the source's order; its result is the verdict together with the
holder set it leaves in the registry. Since nobody else sees the registry entry
of the tuple before the latch is dropped, one final entry stands for the
in-place edits.

Other transactions only ever begin, write their outcome once and then leave the
active set. `TxnManager.Later` says that much about two states of the manager, and
`row_lock_gate_spec` is what the gate guarantees against any such environment. It
is the only fact about the gate the protocol results need.
-/
import Ams.Lib.Query
import Ams.TxnManager
import Ams.TupleHeader

set_option autoImplicit false

namespace Ams

open Ams.Lib

/-- What the caller of the gate wants to do to the row. -/
inductive LockRequest where
  | Shared
  | Exclusive
  | Writer
deriving DecidableEq, Repr

/-- The gate's verdict. `Wait` names the holder to wait for, whose wait edge has
been registered; `ProceedNoStamp` grants a share without touching the tuple. -/
inductive RowLockGate where
  | Proceed
  | ProceedNoStamp
  | Wait (xid : TxnId)
deriving DecidableEq, Repr

/-! ## The registry of share holders

One entry of `share_locks`: the `BTreeSet` of the holders of a tuple, an ascending
list. A missing entry is `none`. -/

/-- The holders of a tuple, ascending. -/
abbrev HolderSet := List TxnId

/-- `BTreeSet::insert`. -/
def HolderSet.insert (s : HolderSet) (xid : TxnId) : HolderSet :=
  if xid ∈ s then s else s.orderedInsert (· ≤ ·) xid

@[simp] theorem HolderSet.mem_insert (s : HolderSet) (xid y : TxnId) :
    y ∈ s.insert xid ↔ y = xid ∨ y ∈ s := by
  unfold HolderSet.insert
  split_ifs with h
  · constructor
    · exact Or.inr
    · rintro (rfl | hy)
      · exact h
      · exact hy
  · rw [List.mem_orderedInsert]

/-- `HeapAM::note_stamp_overwrite`: the entry once the caller overwrites the stamp. -/
def note_stamp_overwrite (self_xid : TxnId) : LockRequest → Option HolderSet
  | .Shared => some [self_xid]
  | .Exclusive => none
  | .Writer => none

/-- `HeapAM::register_share_holder`. -/
def register_share_holder (entry : Option HolderSet) (xid : TxnId) : Option HolderSet :=
  some ((entry.getD []).insert xid)

/-! ## The gate -/

/-- What the gate asks about other transactions. -/
inductive GateQuery where
  | get_state (xid : TxnId)
  | is_active (xid : TxnId)
deriving DecidableEq, Repr

/-- The type of the answer. -/
def GateQuery.Answer : GateQuery → Type
  | .get_state _ => TxnState
  | .is_active _ => Bool

/-- The manager's answers. -/
def TxnManager.answer (m : TxnManager) : ∀ q : GateQuery, q.Answer
  | .get_state xid => m.clog xid
  | .is_active xid => m.is_active xid

/-- A program of the gate. -/
abbrev Gate (α : Type) := Query GateQuery GateQuery.Answer α

/-- `clog.get_state`. -/
def Gate.get_state {α : Type} (xid : TxnId) (k : TxnState → Gate α) : Gate α :=
  .ask (.get_state xid) k

/-- `waiter.is_active`. -/
def Gate.is_active {α : Type} (xid : TxnId) (k : Bool → Gate α) : Gate α :=
  .ask (.is_active xid) k

/-- The verdict and the registry entry the gate leaves. -/
structure GateResult where
  verdict : Except HeapError RowLockGate
  entry : Option HolderSet

/-- The loop of `live_share_holders` over the holders, in ascending order. With no
row waiter installed (`waiter = false`) a holder that has not ended is an error. -/
def live_holders_loop (waiter : Bool) (tid : Tid) :
    HolderSet → HolderSet → Gate (Except HeapError HolderSet)
  | [], live => .ret (.ok live)
  | h :: holders, live =>
    .get_state h fun state =>
      if state.Terminal then live_holders_loop waiter tid holders live
      else if waiter then
        .is_active h fun active =>
          if active then live_holders_loop waiter tid holders (live.insert h)
          else live_holders_loop waiter tid holders live
      else .ret (.error (.TupleNotFound tid))

/-- `HeapAM::live_share_holders`: the registered holders and the stamp's, without
those that have ended. The result is also written back to the registry. -/
def live_share_holders (waiter : Bool) (tid : Tid) (stamp_xmax : TxnId) (entry : Option HolderSet) :
    Gate (Except HeapError HolderSet) :=
  live_holders_loop waiter tid ((entry.getD []).insert stamp_xmax) []

/-- The registry entry `live_share_holders` writes back. -/
def write_back (live : HolderSet) : Option HolderSet := if live.isEmpty then none else some live

/-- Upgrade of a share to an exclusive lock or a write: wait for the first other
live holder, or supersede the shared stamp as the sole holder. -/
def upgrade_gate (self_xid : TxnId) (live : HolderSet) (request : LockRequest) : GateResult :=
  match live.find? (· ≠ self_xid) with
  | some blocking => ⟨.ok (.Wait blocking), write_back live⟩
  | none => ⟨.ok .Proceed, note_stamp_overwrite self_xid request⟩

/-- `HeapAM::share_stamp_gate`, from the live holders on: the stamp is a share of
another transaction. -/
def share_stamp_gate (self_xid : TxnId) (request : LockRequest) (live : HolderSet) : GateResult :=
  if self_xid ∈ live then
    match request with
    | .Shared => ⟨.ok .ProceedNoStamp, register_share_holder (write_back live) self_xid⟩
    | .Exclusive => upgrade_gate self_xid live request
    | .Writer => upgrade_gate self_xid live request
  else
    match request with
    | .Shared =>
      if live.isEmpty then ⟨.ok .Proceed, note_stamp_overwrite self_xid request⟩
      else ⟨.ok .ProceedNoStamp, register_share_holder (write_back live) self_xid⟩
    | .Exclusive =>
      match live.head? with
      | some blocking => ⟨.ok (.Wait blocking), write_back live⟩
      | none => ⟨.ok .Proceed, note_stamp_overwrite self_xid request⟩
    | .Writer =>
      match live.head? with
      | some blocking => ⟨.ok (.Wait blocking), write_back live⟩
      | none => ⟨.ok .Proceed, note_stamp_overwrite self_xid request⟩

/-- Ask for the live holders and go on with them; an error leaves the registry as
it was. -/
def with_live_holders (waiter : Bool) (tid : Tid) (stamp_xmax : TxnId) (entry : Option HolderSet)
    (next : HolderSet → GateResult) : Gate GateResult :=
  (live_share_holders waiter tid stamp_xmax entry).bind fun
    | .error e => .ret ⟨.error e, entry⟩
    | .ok live => .ret (next live)

/-- The last `match` of the gate, on the CLOG state of an exclusive or real stamp
whose transaction is not running. An `InProgress` here is a crashed stamper. -/
def settled_stamp_gate (waiter : Bool) (tid : Tid) (self_xid : TxnId) (request : LockRequest)
    (lock_only : Bool) (entry : Option HolderSet) (state : TxnState) : GateResult :=
  match state with
  | .Committed =>
    if lock_only then ⟨.ok .Proceed, note_stamp_overwrite self_xid request⟩
    else if waiter then ⟨.error (.TupleConcurrentlyUpdated tid), entry⟩
    else ⟨.error (.TupleNotFound tid), entry⟩
  | .Aborted => ⟨.ok .Proceed, note_stamp_overwrite self_xid request⟩
  | .InProgress => ⟨.ok .Proceed, note_stamp_overwrite self_xid request⟩
  | .SubCommitted => ⟨.ok .Proceed, note_stamp_overwrite self_xid request⟩

/-- The message of a lock on a row version the transaction already wrote. -/
def own_write_message (tid : Tid) : String :=
  let page_id := tid.page_id
  let slot_id := tid.slot_id
  s!"cannot lock Tid \x7b page_id: PageId({page_id}), slot_id: {slot_id} \x7d: " ++
    "row version already deleted or updated by this transaction"

/-- `HeapAM::row_lock_gate` on the header of a `Normal` tuple. -/
def row_lock_gate (waiter : Bool) (tid : Tid) (header : TupleHeader) (self_xid : TxnId)
    (request : LockRequest) (entry : Option HolderSet) : Gate GateResult :=
  let xmax := header.t_xmax
  if xmax = TxnId.INVALID then .ret ⟨.ok .Proceed, note_stamp_overwrite self_xid request⟩
  else if xmax = self_xid then
    if !header.lock_only then
      -- a lock on top of an own delete would make the row visible again
      if request ≠ .Writer then .ret ⟨.error (.InvalidArgument (own_write_message tid)), entry⟩
      else .ret ⟨.ok .Proceed, entry⟩
    else if header.is_share then
      match request with
      | .Shared => .ret ⟨.ok .ProceedNoStamp, register_share_holder entry self_xid⟩
      | .Exclusive =>
        with_live_holders waiter tid xmax entry (upgrade_gate self_xid · request)
      | .Writer =>
        with_live_holders waiter tid xmax entry (upgrade_gate self_xid · request)
    else if request = .Shared then .ret ⟨.ok .ProceedNoStamp, entry⟩
    else .ret ⟨.ok .Proceed, entry⟩
  else if header.is_share then
    with_live_holders waiter tid xmax entry (share_stamp_gate self_xid request)
  else
    .get_state xmax fun state =>
      if state.Terminal then
        .ret (settled_stamp_gate waiter tid self_xid request header.lock_only entry state)
      else if waiter then
        .is_active xmax fun active =>
          if active then .ret ⟨.ok (.Wait xmax), entry⟩
          else
            .get_state xmax fun state =>
              .ret (settled_stamp_gate waiter tid self_xid request header.lock_only entry state)
      else .ret ⟨.error (.TupleNotFound tid), entry⟩

/-! ## The environment of a gate pass -/

namespace TxnManager

/-- `xid` has begun, has no recorded outcome and is in the active set. -/
def Running (m : TxnManager) (xid : TxnId) : Prop := xid ∈ m.active ∧ ¬ (m.clog xid).Terminal

instance (m : TxnManager) (xid : TxnId) : Decidable (m.Running xid) :=
  inferInstanceAs (Decidable (_ ∧ ¬ _))

/-- How the manager can have moved on: XIDs are only handed out, an outcome is
written once, and a transaction leaves the active set for good and only with its
outcome written. A transaction that is not in the active set never comes back, so
one that crashed without an outcome keeps none. -/
structure Later (m m' : TxnManager) : Prop where
  clock_le : m.txn_id_clock ≤ m'.txn_id_clock
  terminal : ∀ x, (m.clog x).Terminal → m'.clog x = m.clog x
  gone : ∀ x, x < m.txn_id_clock → x ∉ m.active → m'.clog x = m.clog x ∧ x ∉ m'.active
  leaves : ∀ x, x ∈ m.active → x ∉ m'.active → (m'.clog x).Terminal

theorem Later.refl (m : TxnManager) : m.Later m :=
  ⟨le_refl _, fun _ _ => rfl, fun _ _ h => ⟨rfl, h⟩, fun _ h h' => absurd h h'⟩

theorem Later.trans (a b c : TxnManager) (h : a.Later b) (h' : b.Later c) : a.Later c where
  clock_le := h.clock_le.trans h'.clock_le
  terminal := by
    intro x hx
    have hb := h.terminal x hx
    rw [h'.terminal x (by rw [hb]; exact hx), hb]
  gone := by
    intro x hlt hx
    obtain ⟨hb, hxb⟩ := h.gone x hlt hx
    obtain ⟨hc, hxc⟩ := h'.gone x (lt_of_lt_of_le hlt h.clock_le) hxb
    exact ⟨hc.trans hb, hxc⟩
  leaves := by
    intro x hx hxc
    by_cases hxb : x ∈ b.active
    · exact h'.leaves x hxb hxc
    · have hterm := h.leaves x hx hxb
      rw [h'.terminal x hterm]
      exact hterm

/-- A transaction that runs now and had begun before was running then. -/
theorem Later.running {m m' : TxnManager} (h : m.Later m') {x : TxnId}
    (hlt : x < m.txn_id_clock) (hx : m'.Running x) : m.Running x := by
  refine ⟨?_, fun hterm => ?_⟩
  · by_contra hact
    exact (h.gone x hlt hact).2 hx.1
  · apply hx.2
    rw [h.terminal x hterm]
    exact hterm

/-- The active XIDs are handed-out ones. -/
structure Wf (m : TxnManager) : Prop where
  clock_pos : 0 < m.txn_id_clock
  active_lt : ∀ x ∈ m.active, x ≠ TxnId.INVALID ∧ x < m.txn_id_clock

theorem later_begin_txn (m : TxnManager) : m.Later m.begin_txn.2 where
  clock_le := Nat.le_succ _
  terminal _ _ := rfl
  gone x hlt hx := by
    refine ⟨rfl, fun h => ?_⟩
    rcases List.mem_insert_iff.mp h with rfl | h
    · exact lt_irrefl _ hlt
    · exact hx h
  leaves x hx hx' := absurd (List.mem_insert_of_mem hx) hx'

theorem later_set_state {m : TxnManager} {xid : TxnId} (h : m.Running xid) (state : TxnState) :
    m.Later (m.set_state xid state) where
  clock_le := le_refl _
  terminal x hx := by
    apply Clog.set_state_of_ne
    rintro rfl
    exact h.2 hx
  gone x _ hx := by
    refine ⟨Clog.set_state_of_ne _ _ ?_, hx⟩
    rintro rfl
    exact hx h.1
  leaves x hx hx' := absurd hx hx'

theorem mem_remove_active {m : TxnManager} {xid x : TxnId} :
    x ∈ (m.remove_active xid).active ↔ x ∈ m.active ∧ x ≠ xid := by
  simp [remove_active]

theorem later_remove_active {m : TxnManager} {xid : TxnId} (h : (m.clog xid).Terminal) :
    m.Later (m.remove_active xid) where
  clock_le := le_refl _
  terminal _ _ := rfl
  gone x _ hx := ⟨rfl, fun h' => hx (mem_remove_active.mp h').1⟩
  leaves x hx hx' := by
    have hxid : x = xid := by
      by_contra hne
      exact hx' (mem_remove_active.mpr ⟨hx, hne⟩)
    rw [hxid]
    exact h

end TxnManager

/-- `g` guarantees `Q` whatever the other transactions do meanwhile. -/
abbrev Gate.Ensures {α : Type} (Q : TxnManager → α → Prop) (g : Gate α) (m : TxnManager) : Prop :=
  Query.Ensures TxnManager.Later TxnManager.answer Q g m

section Rules

variable {α : Type} {Q : TxnManager → α → Prop} {m : TxnManager}

theorem Gate.Ensures.ret {a : α} (h : ∀ m', m.Later m' → Q m' a) :
    Gate.Ensures Q (.ret a) m := h

theorem Gate.Ensures.get_state {xid : TxnId} {k : TxnState → Gate α}
    (h : ∀ m', m.Later m' → Gate.Ensures Q (k (m'.clog xid)) m') :
    Gate.Ensures Q (.get_state xid k) m := h

theorem Gate.Ensures.is_active {xid : TxnId} {k : Bool → Gate α}
    (h : ∀ m', m.Later m' → Gate.Ensures Q (k (m'.is_active xid)) m') :
    Gate.Ensures Q (.is_active xid k) m := h

end Rules

/-! ## What the gate guarantees -/

/-- The tuple records a hold of `xid`: the stamp is its own, or it is a registered
holder of a row under a share stamp. -/
def Holds (header : TupleHeader) (entry : Option HolderSet) (xid : TxnId) : Prop :=
  header.t_xmax = xid ∨
    (header.t_xmax ≠ TxnId.INVALID ∧ header.is_share = true ∧ xid ∈ entry.getD [])

theorem mem_write_back {live : HolderSet} {xid : TxnId} (h : xid ∈ live) :
    xid ∈ (write_back live).getD [] := by
  unfold write_back
  rw [if_neg (by rw [List.isEmpty_iff]; rintro rfl; exact absurd h List.not_mem_nil)]
  exact h

theorem mem_register_share_holder (entry : Option HolderSet) (xid y : TxnId) :
    y ∈ (register_share_holder entry xid).getD [] ↔ y = xid ∨ y ∈ entry.getD [] := by
  rw [register_share_holder, Option.getD_some, HolderSet.mem_insert]

/-- The live holders as the source's callers use them: a holder that had begun when
the pass started and is running when the result is used is among them. -/
def Found (c : TxnId) (holders : HolderSet) (m : TxnManager) (live : HolderSet) : Prop :=
  ∀ x, x < c → m.Running x → x ∈ holders → x ∈ live

theorem live_holders_loop_spec (tid : Tid) (c : TxnId) {holders : HolderSet} :
    ∀ {live : HolderSet} {m : TxnManager}, c ≤ m.txn_id_clock →
      Gate.Ensures (fun m' r => ∃ found, r = .ok found ∧ live ⊆ found ∧ Found c holders m' found)
        (live_holders_loop true tid holders live) m := by
  induction holders with
  | nil =>
    intro live m _
    apply Gate.Ensures.ret
    intro m' _
    exact ⟨live, rfl, List.Subset.refl _, fun x _ _ hx => absurd hx List.not_mem_nil⟩
  | cons h holders ih =>
    intro live m hc
    -- a holder seen ended by some read is not running when the result is used
    have hskip : ∀ m₁ : TxnManager, m.Later m₁ → (h < c → ¬ m₁.Running h) →
        Gate.Ensures (fun m' r => ∃ found, r = .ok found ∧ live ⊆ found ∧
          Found c (h :: holders) m' found) (live_holders_loop true tid holders live) m₁ := by
      intro m₁ h1 hdead
      have hc1 := hc.trans h1.clock_le
      apply (ih hc1).conseq TxnManager.Later.trans
      rintro m' r hlater ⟨found, rfl, hsub, hfound⟩
      refine ⟨found, rfl, hsub, fun x hxc hrun hx => ?_⟩
      rcases List.mem_cons.mp hx with rfl | hx
      · exact absurd (hlater.running (lt_of_lt_of_le hxc hc1) hrun) (hdead hxc)
      · exact hfound x hxc hrun hx
    apply Gate.Ensures.get_state
    intro m₁ h1
    by_cases hterm : (m₁.clog h).Terminal
    · rw [if_pos hterm]
      exact hskip m₁ h1 fun _ hrun => hrun.2 hterm
    · rw [if_neg hterm, if_pos rfl]
      apply Gate.Ensures.is_active
      intro m₂ h2
      have h12 := TxnManager.Later.trans m m₁ m₂ h1 h2
      split_ifs with hact
      · apply (ih (hc.trans h12.clock_le)).conseq TxnManager.Later.trans
        rintro m' r _ ⟨found, rfl, hsub, hfound⟩
        refine ⟨found, rfl, fun x hx => hsub ((HolderSet.mem_insert _ _ _).mpr (.inr hx)),
          fun x hxc hrun hx => ?_⟩
        rcases List.mem_cons.mp hx with rfl | hx
        · exact hsub ((HolderSet.mem_insert _ _ _).mpr (.inl rfl))
        · exact hfound x hxc hrun hx
      · refine hskip m₂ h12 fun _ hrun => hact ?_
        exact decide_eq_true hrun.1

/-- What a gate pass that started in `m₀` guarantees about its result `r` when it is
used in `m`. -/
structure GateSpec (m₀ : TxnManager) (tid : Tid) (header : TupleHeader) (self_xid : TxnId)
    (request : LockRequest) (entry : Option HolderSet) (m : TxnManager) (r : GateResult) :
    Prop where
  /-- A running holder keeps everyone else from proceeding, and its hold survives
  the pass unless the pass is its own and proceeds. -/
  holder_kept : ∀ x, x ≠ TxnId.INVALID → x < m₀.txn_id_clock → m.Running x →
    Holds header entry x →
    (x ≠ self_xid → r.verdict ≠ .ok .Proceed) ∧
      (r.verdict ≠ .ok .Proceed → Holds header r.entry x)
  /-- Only a share is granted without a stamp, and it leaves a hold. -/
  granted : r.verdict = .ok .ProceedNoStamp → request = .Shared ∧ Holds header r.entry self_xid
  /-- The stamp of another transaction is overwritten only when that transaction is
  over, and a real one only when it did not commit. -/
  superseded : r.verdict = .ok .Proceed → header.t_xmax ≠ TxnId.INVALID →
    header.t_xmax ≠ self_xid → header.t_xmax < m₀.txn_id_clock → header.is_share = false →
    ¬ m.Running header.t_xmax ∧
      (header.lock_only = false → m.clog header.t_xmax ≠ .Committed)
  /-- An own real stamp is only overwritten by another write. -/
  own_write : r.verdict = .ok .Proceed → header.t_xmax ≠ TxnId.INVALID →
    header.t_xmax = self_xid → header.lock_only = false → request = .Writer
  /-- A pass that starts after a real stamper committed is turned away. -/
  turned_away : m₀.clog header.t_xmax = .Committed → header.t_xmax ≠ TxnId.INVALID →
    header.t_xmax ≠ self_xid → header.lock_only = false →
    r.verdict = .error (.TupleConcurrentlyUpdated tid)

section Spec

variable {m₀ : TxnManager} {tid : Tid} {header : TupleHeader} {self_xid : TxnId}
  {request : LockRequest} {entry : Option HolderSet}

/-- With an exclusive or a real stamp the only hold is the stamp's own. -/
theorem Holds.eq_xmax {x : TxnId} (h : Holds header entry x) (hs : header.is_share = false) :
    header.t_xmax = x := by
  rcases h with h | ⟨-, h, -⟩
  · exact h
  · rw [hs] at h
    exact absurd h Bool.false_ne_true

/-- A pass on the transaction's own stamp that no other transaction shares. -/
theorem GateSpec.of_own {m : TxnManager} {r : GateResult} (hx : header.t_xmax = self_xid)
    (hs : header.is_share = false) (hv : r.verdict = .ok .ProceedNoStamp → request = .Shared)
    (hw : r.verdict = .ok .Proceed → header.lock_only = false → request = .Writer) :
    GateSpec m₀ tid header self_xid request entry m r where
  holder_kept _ _ _ _ hold :=
    ⟨fun hne => absurd ((hold.eq_xmax hs).symm.trans hx) hne,
      fun _ => .inl (hold.eq_xmax hs)⟩
  granted h := ⟨hv h, .inl hx⟩
  superseded _ _ hne := absurd hx hne
  own_write h _ _ hlock := hw h hlock
  turned_away _ _ hne := absurd hx hne

/-- A share stamp is a lock, so the clauses on real and exclusive stamps are void
and the holders are all that matters. -/
theorem GateSpec.of_share {m : TxnManager} {r : GateResult} (hs : header.is_share = true)
    (hlock : header.lock_only = true)
    (hkept : ∀ x, x < m₀.txn_id_clock → m.Running x → Holds header entry x →
      (x ≠ self_xid → r.verdict ≠ .ok .Proceed) ∧
        (r.verdict ≠ .ok .Proceed → Holds header r.entry x))
    (hgrant : r.verdict = .ok .ProceedNoStamp →
      request = .Shared ∧ Holds header r.entry self_xid) :
    GateSpec m₀ tid header self_xid request entry m r where
  holder_kept x _ hlt := hkept x hlt
  granted := hgrant
  superseded _ _ _ _ hs' := absurd (hs.symm.trans hs') (by decide)
  own_write _ _ _ hl := absurd (hlock.symm.trans hl) (by decide)
  turned_away _ _ _ hl := absurd (hlock.symm.trans hl) (by decide)

/-- Every hold on a row under a share stamp is among the holders that are asked
about. -/
theorem Holds.mem_holders {x : TxnId} (h : Holds header entry x) :
    x ∈ HolderSet.insert (entry.getD []) header.t_xmax := by
  rw [HolderSet.mem_insert]
  rcases h with h | ⟨-, -, h⟩
  · exact .inl h.symm
  · exact .inr h

/-- A result computed from the live holders is safe for them: it proceeds only if
none but the requester is live, and otherwise leaves every live one registered. -/
structure HolderSafe (self_xid : TxnId) (request : LockRequest) (live : HolderSet)
    (r : GateResult) : Prop where
  alone : r.verdict = .ok .Proceed → ∀ x ∈ live, x = self_xid
  keeps : r.verdict ≠ .ok .Proceed → ∀ x ∈ live, x ∈ r.entry.getD []
  grants : r.verdict = .ok .ProceedNoStamp → request = .Shared ∧ self_xid ∈ r.entry.getD []

theorem HolderSafe.proceed {live : HolderSet} {entry : Option HolderSet}
    (h : ∀ x ∈ live, x = self_xid) :
    HolderSafe self_xid request live ⟨.ok .Proceed, entry⟩ :=
  ⟨fun _ => h, fun hp => absurd rfl hp, fun hp => by simp at hp⟩

theorem HolderSafe.wait (live : HolderSet) (blocking : TxnId) :
    HolderSafe self_xid request live ⟨.ok (.Wait blocking), write_back live⟩ :=
  ⟨fun hp => by simp at hp, fun _ _ hx => mem_write_back hx, fun hp => by simp at hp⟩

theorem HolderSafe.register (live : HolderSet) :
    HolderSafe self_xid .Shared live
      ⟨.ok .ProceedNoStamp, register_share_holder (write_back live) self_xid⟩ where
  alone hp := by simp at hp
  keeps _ x hx := (mem_register_share_holder _ _ _).mpr (.inr (mem_write_back hx))
  grants _ := ⟨rfl, (mem_register_share_holder _ _ _).mpr (.inl rfl)⟩

theorem upgrade_gate_safe (live : HolderSet) :
    HolderSafe self_xid request live (upgrade_gate self_xid live request) := by
  unfold upgrade_gate
  split
  · exact HolderSafe.wait live _
  · next hnone =>
    apply HolderSafe.proceed
    intro x hx
    simpa using List.find?_eq_none.mp hnone x hx

theorem share_stamp_gate_safe (live : HolderSet) :
    HolderSafe self_xid request live (share_stamp_gate self_xid request live) := by
  unfold share_stamp_gate
  by_cases hself : self_xid ∈ live
  · rw [if_pos hself]
    cases request with
    | Shared => exact HolderSafe.register live
    | Exclusive => exact upgrade_gate_safe live
    | Writer => exact upgrade_gate_safe live
  · rw [if_neg hself]
    cases live with
    | nil =>
      have hnone : ∀ x ∈ ([] : HolderSet), x = self_xid := fun x hx => absurd hx List.not_mem_nil
      cases request with
      | Shared => exact HolderSafe.proceed hnone
      | Exclusive => exact HolderSafe.proceed hnone
      | Writer => exact HolderSafe.proceed hnone
    | cons y ys =>
      cases request with
      | Shared => exact HolderSafe.register (y :: ys)
      | Exclusive => exact HolderSafe.wait (y :: ys) y
      | Writer => exact HolderSafe.wait (y :: ys) y

/-- The verdicts that go through the live holders. -/
theorem with_live_holders_spec {next : HolderSet → GateResult}
    (hne : header.t_xmax ≠ TxnId.INVALID) (hs : header.is_share = true)
    (hlock : header.lock_only = true)
    (hsafe : ∀ live, HolderSafe self_xid request live (next live)) :
    Gate.Ensures (GateSpec m₀ tid header self_xid request entry)
      (with_live_holders true tid header.t_xmax entry next) m₀ := by
  apply (live_holders_loop_spec tid m₀.txn_id_clock (le_refl _)).bind TxnManager.Later.refl
    TxnManager.Later.trans
  rintro m₁ r h1 ⟨live, rfl, -, hfound⟩
  apply Gate.Ensures.ret
  intro m₂ h2
  obtain ⟨halone, hkeeps, hgrants⟩ := hsafe live
  apply GateSpec.of_share hs hlock
  · intro x hlt hrun hold
    have hlive : x ∈ live := hfound x hlt
      (h2.running (lt_of_lt_of_le hlt h1.clock_le) hrun) hold.mem_holders
    exact ⟨fun hx hp => hx (halone hp x hlive), fun hp => .inr ⟨hne, hs, hkeeps hp x hlive⟩⟩
  · intro h
    exact ⟨(hgrants h).1, .inr ⟨hne, hs, (hgrants h).2⟩⟩

/-- What the last `match` of the gate can answer. -/
theorem settled_stamp_gate_verdict (lock_only : Bool) (state : TxnState) :
    (settled_stamp_gate true tid self_xid request lock_only entry state).verdict =
      if state = .Committed ∧ lock_only = false then .error (.TupleConcurrentlyUpdated tid)
      else .ok .Proceed := by
  cases state <;> cases lock_only <;> rfl

/-- An exclusive or real stamp of another transaction, whose CLOG state was read in
`m` once the transaction was known to be over. -/
theorem settled_stamp_gate_spec {m m' : TxnManager} (hs : header.is_share = false)
    (hself : header.t_xmax ≠ self_xid) (h : m₀.Later m)
    (hover : header.t_xmax < m₀.txn_id_clock → ¬ m'.Running header.t_xmax)
    (hstate : header.t_xmax < m₀.txn_id_clock → m'.clog header.t_xmax = m.clog header.t_xmax) :
    GateSpec m₀ tid header self_xid request entry m'
      (settled_stamp_gate true tid self_xid request header.lock_only entry
        (m.clog header.t_xmax)) where
  holder_kept x _ hlt hrun hold := by
    obtain rfl := hold.eq_xmax hs
    exact absurd hrun (hover hlt)
  granted hv := by
    rw [settled_stamp_gate_verdict] at hv
    split_ifs at hv
    simp at hv
  superseded hv _ _ hlt _ := by
    refine ⟨hover hlt, fun hlock hcom => ?_⟩
    rw [hstate hlt] at hcom
    rw [settled_stamp_gate_verdict, if_pos ⟨hcom, hlock⟩] at hv
    simp at hv
  own_write _ _ hx := absurd hx hself
  turned_away hcom _ _ hlock := by
    have hm : m.clog header.t_xmax = .Committed := by
      rw [h.terminal _ (by rw [hcom]; trivial), hcom]
    rw [settled_stamp_gate_verdict, if_pos ⟨hm, hlock⟩]

/-- **The gate against a moving environment.** -/
theorem row_lock_gate_spec (hwf : header.is_share = true → header.lock_only = true) :
    Gate.Ensures (GateSpec m₀ tid header self_xid request entry)
      (row_lock_gate true tid header self_xid request entry) m₀ := by
  unfold row_lock_gate
  by_cases hinv : header.t_xmax = TxnId.INVALID
  · rw [if_pos hinv]
    apply Gate.Ensures.ret
    intro m _
    refine ⟨fun x hx _ _ hold => ?_, fun h => ?_, fun _ h => absurd hinv h,
      fun _ h => absurd hinv h, fun _ h => absurd hinv h⟩
    · rcases hold with h | ⟨h, -⟩
      · exact absurd (h.symm.trans hinv) hx
      · exact absurd hinv h
    · simp at h
  rw [if_neg hinv]
  by_cases hself : header.t_xmax = self_xid
  · rw [if_pos hself]
    by_cases hlock : header.lock_only = true
    · rw [if_neg (by rw [hlock]; decide)]
      by_cases hshare : header.is_share = true
      · -- my own share: a write or an exclusive lock waits for the other holders
        rw [if_pos hshare]
        cases request with
        | Shared =>
          apply Gate.Ensures.ret
          intro m _
          apply GateSpec.of_share hshare hlock
          · intro x _ _ hold
            refine ⟨fun _ hp => by simp at hp, fun _ => ?_⟩
            rcases hold with hx | ⟨-, -, hx⟩
            · exact .inl hx
            · exact .inr ⟨hinv, hshare, (mem_register_share_holder _ _ _).mpr (.inr hx)⟩
          · exact fun _ => ⟨rfl, .inl hself⟩
        | Exclusive => exact with_live_holders_spec hinv hshare hlock upgrade_gate_safe
        | Writer => exact with_live_holders_spec hinv hshare hlock upgrade_gate_safe
      · have hs := Bool.eq_false_iff.mpr hshare
        rw [if_neg hshare]
        by_cases hreq : request = .Shared
        · rw [if_pos hreq]
          apply Gate.Ensures.ret
          intro m _
          exact GateSpec.of_own hself hs (fun _ => hreq) (fun hp => by simp at hp)
        · rw [if_neg hreq]
          apply Gate.Ensures.ret
          intro m _
          exact GateSpec.of_own hself hs (fun hp => by simp at hp)
            (fun _ hl => absurd (hlock.symm.trans hl) (by decide))
    · have hs : header.is_share = false := Bool.eq_false_iff.mpr fun h => hlock (hwf h)
      rw [if_pos (by rw [Bool.eq_false_iff.mpr hlock]; decide)]
      by_cases hreq : request = .Writer
      · rw [if_neg (by rw [hreq]; decide)]
        apply Gate.Ensures.ret
        intro m _
        exact GateSpec.of_own hself hs (fun hp => by simp at hp) (fun _ _ => hreq)
      · rw [if_pos hreq]
        apply Gate.Ensures.ret
        intro m _
        exact GateSpec.of_own hself hs (fun hp => by simp at hp) (fun hp => by simp at hp)
  rw [if_neg hself]
  by_cases hshare : header.is_share = true
  · rw [if_pos hshare]
    exact with_live_holders_spec hinv hshare (hwf hshare) share_stamp_gate_safe
  have hs := Bool.eq_false_iff.mpr hshare
  rw [if_neg hshare]
  apply Gate.Ensures.get_state
  intro m₁ h1
  by_cases hterm : (m₁.clog header.t_xmax).Terminal
  · rw [if_pos hterm]
    apply Gate.Ensures.ret
    intro m h
    have hsame := h.terminal _ hterm
    exact settled_stamp_gate_spec hs hself h1 (fun _ hrun => hrun.2 (by rw [hsame]; exact hterm))
      (fun _ => hsame)
  · rw [if_neg hterm, if_pos rfl]
    apply Gate.Ensures.is_active
    intro m₂ h2
    by_cases hact : header.t_xmax ∈ m₂.active
    · -- a running holder: the pass ends in a wait and changes nothing
      have hcom : m₀.clog header.t_xmax ≠ .Committed := by
        intro hcom
        apply hterm
        rw [h1.terminal _ (by rw [hcom]; trivial), hcom]
        trivial
      rw [TxnManager.is_active, decide_eq_true hact, if_pos rfl]
      apply Gate.Ensures.ret
      intro m _
      exact ⟨fun x _ _ _ hold => ⟨fun _ hp => by simp at hp, fun _ => hold⟩,
        fun hp => by simp at hp, fun hp => by simp at hp, fun hp => by simp at hp,
        fun h => absurd h hcom⟩
    · -- over, or crashed: the second CLOG read is final
      rw [TxnManager.is_active, decide_eq_false hact, if_neg (by decide)]
      apply Gate.Ensures.get_state
      intro m₃ h3
      apply Gate.Ensures.ret
      intro m h
      have h03 := TxnManager.Later.trans _ _ _ (TxnManager.Later.trans _ _ _ h1 h2) h3
      have hgone : header.t_xmax < m₀.txn_id_clock →
          m₃.clog header.t_xmax = m₂.clog header.t_xmax ∧ header.t_xmax ∉ m₃.active :=
        fun hlt => h3.gone _ (lt_of_lt_of_le hlt (h1.clock_le.trans h2.clock_le)) hact
      have hgone' : header.t_xmax < m₀.txn_id_clock →
          m.clog header.t_xmax = m₃.clog header.t_xmax ∧ header.t_xmax ∉ m.active :=
        fun hlt => h.gone _ (lt_of_lt_of_le hlt h03.clock_le) (hgone hlt).2
      exact settled_stamp_gate_spec hs hself h03 (fun hlt hrun => (hgone' hlt).2 hrun.1)
        (fun hlt => (hgone' hlt).1)

end Spec

end Ams
