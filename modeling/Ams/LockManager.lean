/-
The table-level lock manager, `pg-txn/src/lock_manager.rs`.

`acquire` is a loop around a condition variable. One turn of the loop runs under
the entries mutex and ends in a grant, in a victim error, or asleep; the model
has that turn as `acquire_pass` and the sleeping callers as `blocked`. A call on
a table by a transaction that is not asleep is a first turn, a wake-up (spurious
or not) is a further turn of the same request, and nothing else can happen to a
sleeping caller: a transaction is driven by one thread (`TxnHandle` is not
`Sync`) and `acquire` does not return while it waits. `release_all` is allowed at
any time, also for a sleeping transaction, which is what a victim's abort does.

The invariant is about one table's entry at a time. Its middle clause, that a
queued request is stronger than what its transaction holds, is what makes the
no-stuck-head clause go through: the first gate of `can_grant` ("already held")
is then dead for waiters, so a waiter whose turn comes was either granted by
somebody's `regrant_heads` or is still not grantable.
-/
import Ams.Types
import Ams.Lib.Run
import Ams.Lib.OrdMap

set_option autoImplicit false

namespace Ams

open Ams.Lib
open Function (update update_self update_of_ne)

/-! ## Modes -/

/-- The four table-level lock modes, weakest first. -/
inductive LockMode where
  | AccessShare
  | RowExclusive
  | Exclusive
  | AccessExclusive
deriving DecidableEq, Repr

namespace LockMode

/-- The derived order of the source's enumeration. -/
def strength : LockMode → ℕ
  | .AccessShare => 0
  | .RowExclusive => 1
  | .Exclusive => 2
  | .AccessExclusive => 3

theorem strength_injective : Function.Injective strength := by
  intro a b h
  cases a <;> cases b <;> first | rfl | cases h

instance : LinearOrder LockMode := LinearOrder.lift' strength strength_injective

/-- The conflict matrix. -/
def conflicts_with : LockMode → LockMode → Bool
  | .AccessExclusive, _ => true
  | _, .AccessExclusive => true
  | .RowExclusive, .Exclusive => true
  | .Exclusive, .RowExclusive => true
  | .Exclusive, .Exclusive => true
  | _, _ => false

theorem conflicts_with_comm (a b : LockMode) : a.conflicts_with b = b.conflicts_with a := by
  cases a <;> cases b <;> rfl

end LockMode

/-! ## One table -/

/-- A queued lock request. -/
structure Waiter where
  xid : TxnId
  mode : LockMode
deriving DecidableEq, Repr

/-- Per-table lock state: the granted set and the FIFO wait queue. -/
structure LockEntry where
  granted : OrdMap TxnId LockMode
  wait_queue : List Waiter

namespace LockEntry

/-- The `Default` entry. -/
def default : LockEntry := ⟨OrdMap.empty, []⟩

/-- Does `xid` hold `mode` or stronger? -/
def holds (e : LockEntry) (xid : TxnId) (mode : LockMode) : Bool :=
  match e.granted.get? xid with
  | some held => decide (mode ≤ held)
  | none => false

/-- No other transaction holds a mode that conflicts with `mode`. -/
def compatible (e : LockEntry) (xid : TxnId) (mode : LockMode) : Bool :=
  e.granted.toList.all fun p => decide (p.1 = xid) || !(p.2.conflicts_with mode)

/-- Would `mode` for `xid` be grantable right now? Already held, else at the head
of the queue and without a conflict. -/
def can_grant (e : LockEntry) (xid : TxnId) (mode : LockMode) : Bool :=
  if e.holds xid mode then true
  else
    match e.wait_queue.head? with
    | some head => if head.xid ≠ xid then false else e.compatible xid mode
    | none => e.compatible xid mode

/-- Record the grant, keeping the strongest mode and dropping `xid`'s entry at the
head of the queue. -/
def grant (e : LockEntry) (xid : TxnId) (mode : LockMode) : LockEntry where
  wait_queue :=
    match e.wait_queue.head? with
    | some head => if head.xid = xid then e.wait_queue.tail else e.wait_queue
    | none => e.wait_queue
  granted :=
    match e.granted.get? xid with
    | some held => if held < mode then e.granted.insert xid mode else e.granted
    | none => e.granted.insert xid mode

/-- Queue `xid` unless it already has a pending request on this table. -/
def enqueue_if_absent (e : LockEntry) (xid : TxnId) (mode : LockMode) : LockEntry :=
  if e.wait_queue.any (fun w => decide (w.xid = xid)) then e
  else { e with wait_queue := e.wait_queue ++ [⟨xid, mode⟩] }

/-- `regrant_heads` over an explicit queue; the loop pops one head per turn. -/
def regrantLoop (granted : OrdMap TxnId LockMode) : List Waiter → LockEntry
  | [] => ⟨granted, []⟩
  | w :: ws =>
    if (LockEntry.mk granted (w :: ws)).can_grant w.xid w.mode then
      regrantLoop ((LockEntry.mk granted (w :: ws)).grant w.xid w.mode).granted ws
    else ⟨granted, w :: ws⟩

/-- Grant queue heads in order, stopping at the first that is not grantable. -/
def regrant_heads (e : LockEntry) : LockEntry := regrantLoop e.granted e.wait_queue

/-- `wait_queue.retain(|w| w.xid != xid)`. -/
def drop_waiter (e : LockEntry) (xid : TxnId) : LockEntry :=
  { e with wait_queue := e.wait_queue.filter (fun w => decide (w.xid ≠ xid)) }

/-- `granted.remove(&xid)`. -/
def drop_grant (e : LockEntry) (xid : TxnId) : LockEntry :=
  { e with granted := e.granted.erase xid }

/-- Neither holders nor waiters. -/
def is_empty (e : LockEntry) : Bool := e.granted.isEmpty && e.wait_queue.isEmpty

/-! ### What the gates say -/

variable {e : LockEntry} {x : TxnId} {m : LockMode}

theorem holds_iff : e.holds x m = true ↔ ∃ held, e.granted.get? x = some held ∧ m ≤ held := by
  unfold holds
  cases h : e.granted.get? x with
  | none => simp
  | some held => simp

theorem compatible_iff : e.compatible x m = true ↔
      ∀ y held, e.granted.get? y = some held → y ≠ x → held.conflicts_with m = false := by
  simp only [compatible, List.all_eq_true, Bool.or_eq_true, decide_eq_true_eq,
    Bool.not_eq_true', Prod.forall]
  constructor
  · intro h y held hy hne
    exact (h y held (OrdMap.mem_toList.mpr hy)).resolve_left hne
  · intro h y held hy
    by_cases hne : y = x
    · exact .inl hne
    · exact .inr (h y held (OrdMap.mem_toList.mp hy) hne)

theorem can_grant_of_not_holds (h : e.holds x m = false) : e.can_grant x m = true ↔
      (∀ w, e.wait_queue.head? = some w → w.xid = x) ∧ e.compatible x m = true := by
  unfold can_grant
  rw [h]
  cases hq : e.wait_queue.head? with
  | none => simp
  | some w =>
    by_cases hw : w.xid = x
    · simp [hw]
    · simp [hw]

variable {g : OrdMap TxnId LockMode} {q : List Waiter}

/-- The head's verdict depends on the granted set and the head only. -/
theorem can_grant_congr_queue {q' : List Waiter} (h : q.head? = q'.head?) (x : TxnId)
    (m : LockMode) :
    (LockEntry.mk g q).can_grant x m = (LockEntry.mk g q').can_grant x m := by
  simp only [can_grant, h]
  rfl

theorem grant_granted_self (h : e.holds x m = false) : (e.grant x m).granted = e.granted.insert x m := by
  unfold grant
  cases hg : e.granted.get? x with
  | none => rfl
  | some held =>
    have hlt : held < m := by
      by_contra hnot
      have : e.holds x m = true := holds_iff.mpr ⟨held, hg, not_lt.mp hnot⟩
      rw [h] at this
      cases this
    simp only [hlt, if_true]

theorem grant_granted_of_holds (h : e.holds x m = true) : (e.grant x m).granted = e.granted := by
  obtain ⟨held, hg, hle⟩ := holds_iff.mp h
  simp only [grant, hg, not_lt.mpr hle, if_false]

/-! ### The invariant of one table -/

/-- What holds of an entry between a removal and the `regrant_heads` after it. -/
structure Pre (e : LockEntry) : Prop where
  /-- Two transactions never hold conflicting modes. -/
  no_conflict : ∀ x y m n, x ≠ y → e.granted.get? x = some m → e.granted.get? y = some n →
    m.conflicts_with n = false
  /-- A transaction waits at most once. -/
  nodup : (e.wait_queue.map Waiter.xid).Nodup
  /-- Who waits, waits for more than it holds. -/
  wants_more : ∀ w ∈ e.wait_queue, e.holds w.xid w.mode = false

/-- The invariant: additionally, nobody grantable is left asleep. -/
structure Inv (e : LockEntry) : Prop extends Pre e where
  head_blocked : ∀ w, e.wait_queue.head? = some w → e.can_grant w.xid w.mode = false

theorem Inv.default : Inv LockEntry.default where
  no_conflict _ _ _ _ _ h := by cases h
  nodup := List.nodup_nil
  wants_more _ h := by cases h
  head_blocked _ h := by cases h

/-- A grant without a conflict keeps the granted set conflict-free. -/
theorem Pre.no_conflict_insert (he : e.Pre) (hc : e.compatible x m = true) :
    ∀ y z a b, y ≠ z → (e.granted.insert x m).get? y = some a →
      (e.granted.insert x m).get? z = some b → a.conflicts_with b = false := by
  intro y z a b hyz hy hz
  rw [OrdMap.get?_insert] at hy hz
  rw [compatible_iff] at hc
  split_ifs at hy with hxy
  · subst hxy
    rw [if_neg hyz] at hz
    cases hy
    rw [LockMode.conflicts_with_comm]
    exact hc z b hz (Ne.symm hyz)
  · split_ifs at hz with hxz
    · subst hxz
      cases hz
      exact hc y a hy (Ne.symm hxy)
    · exact he.no_conflict y z a b hyz hy hz

theorem holds_insert_of_ne {y : TxnId} {n : LockMode} (h : x ≠ y) :
    (LockEntry.mk (e.granted.insert x m) q).holds y n = e.holds y n := by
  simp only [holds, OrdMap.get?_insert, if_neg h]

/-- One turn of the re-grant loop: granting the head keeps `Pre` for the rest. -/
theorem Pre.grant_head {w : Waiter} {ws : List Waiter} (he : Pre ⟨g, w :: ws⟩)
    (hcan : (LockEntry.mk g (w :: ws)).can_grant w.xid w.mode = true) :
    Pre ⟨((LockEntry.mk g (w :: ws)).grant w.xid w.mode).granted, ws⟩ := by
  have hnot := he.wants_more w (.head _)
  obtain ⟨hfresh, hnd⟩ := List.nodup_cons.mp he.nodup
  rw [grant_granted_self hnot]
  refine ⟨he.no_conflict_insert ((can_grant_of_not_holds hnot).mp hcan).2, hnd, fun v hv => ?_⟩
  have hne : w.xid ≠ v.xid := fun heq => hfresh (heq ▸ List.mem_map_of_mem hv)
  rw [holds_insert_of_ne (e := ⟨g, w :: ws⟩) hne]
  exact he.wants_more v (.tail _ hv)

/-- `regrant_heads` restores the no-stuck-head clause. -/
theorem Pre.regrantLoop (he : Pre ⟨g, q⟩) : Inv (LockEntry.regrantLoop g q) := by
  induction q generalizing g with
  | nil => exact ⟨he, fun _ h => by cases h⟩
  | cons w ws ih =>
    unfold LockEntry.regrantLoop
    split_ifs with hcan
    · exact ih (he.grant_head hcan)
    · refine ⟨he, fun v hv => ?_⟩
      cases hv
      exact Bool.eq_false_iff.mpr hcan

theorem Pre.regrant_heads (he : e.Pre) : e.regrant_heads.Inv :=
  Pre.regrantLoop (g := e.granted) (q := e.wait_queue) he

theorem Pre.drop_waiter (he : e.Pre) (x : TxnId) : (e.drop_waiter x).Pre where
  no_conflict := he.no_conflict
  nodup := he.nodup.sublist (List.filter_sublist.map _)
  wants_more w hw := he.wants_more w (List.mem_filter.mp hw).1

theorem Pre.drop_grant (he : e.Pre) (x : TxnId) : (e.drop_grant x).Pre where
  no_conflict y z a b hyz hy hz := by
    simp only [LockEntry.drop_grant, OrdMap.get?_erase] at hy hz
    split_ifs at hy hz
    exact he.no_conflict y z a b hyz hy hz
  nodup := he.nodup
  wants_more w hw := by
    have hw' := he.wants_more w hw
    unfold holds LockEntry.drop_grant at *
    rw [OrdMap.get?_erase]
    by_cases hx : x = w.xid
    · rw [if_pos hx]
    · rw [if_neg hx]; exact hw'

/-- The queue is only ever shortened from the front by the re-grant loop. -/
theorem regrantLoop_queue_suffix (g : OrdMap TxnId LockMode) (q : List Waiter) :
    (regrantLoop g q).wait_queue <:+ q := by
  induction q generalizing g with
  | nil => exact List.suffix_rfl
  | cons w ws ih =>
    unfold regrantLoop
    split_ifs
    · exact (ih _).trans (List.suffix_cons w ws)
    · exact List.suffix_rfl

/-- **A turn that grants.** The requester's own queue entry, if it has one, asks
for the mode of this turn. Then either the mode was already held and nothing
changes, or the queue is empty: a head that could be granted would contradict
`head_blocked`. -/
theorem Inv.grant (he : e.Inv) (hown : ∀ w ∈ e.wait_queue, w.xid = x → w.mode = m)
    (hcan : e.can_grant x m = true) :
    (e.grant x m).Inv ∧ (e.grant x m).wait_queue = e.wait_queue := by
  by_cases hh : e.holds x m = true
  · have hnotin : ∀ w ∈ e.wait_queue, w.xid ≠ x := by
      intro w hw hx
      have := he.wants_more w hw
      rw [hx, hown w hw hx, hh] at this
      cases this
    have hq : (e.grant x m).wait_queue = e.wait_queue := by
      unfold LockEntry.grant
      cases hhead : e.wait_queue.head? with
      | none => rfl
      | some w => simp only [hnotin w (List.mem_of_mem_head? hhead), if_false]
    have heq : e.grant x m = e := by
      have hg := grant_granted_of_holds hh
      cases e
      cases hgr : LockEntry.grant _ x m
      rw [hgr] at hg hq
      simp only at hg hq
      rw [hg, hq]
    rw [heq]
    exact ⟨he, rfl⟩
  · have hh' := Bool.eq_false_iff.mpr hh
    obtain ⟨hhead, hcomp⟩ := (can_grant_of_not_holds hh').mp hcan
    have hempty : e.wait_queue = [] := by
      cases hq : e.wait_queue with
      | nil => rfl
      | cons w ws =>
        have hw : e.wait_queue.head? = some w := by rw [hq]; rfl
        have hx : w.xid = x := hhead w hw
        have hm : w.mode = m := hown w (List.mem_of_mem_head? hw) hx
        have hstuck := he.head_blocked w hw
        rw [hx, hm, hcan] at hstuck
        cases hstuck
    have hq : (e.grant x m).wait_queue = [] := by
      unfold LockEntry.grant
      rw [hempty]
      rfl
    refine ⟨⟨⟨?_, ?_, ?_⟩, ?_⟩, by rw [hq, hempty]⟩
    · rw [grant_granted_self hh']
      exact he.no_conflict_insert hcomp
    · rw [hq]; exact List.nodup_nil
    · rw [hq]; exact fun _ h => absurd h List.not_mem_nil
    · rw [hq]; exact fun _ h => by cases h

/-- **A turn that waits.** -/
theorem Inv.enqueue_if_absent (he : e.Inv) (hcan : e.can_grant x m = false) :
    (e.enqueue_if_absent x m).Inv := by
  unfold LockEntry.enqueue_if_absent
  split_ifs with hany
  · exact he
  have hfresh : ∀ w ∈ e.wait_queue, w.xid ≠ x := by
    intro w hw hx
    exact hany (List.any_eq_true.mpr ⟨w, hw, decide_eq_true hx⟩)
  have hholds : e.holds x m = false := by
    by_contra h
    rw [can_grant, if_pos (Bool.not_eq_false _ ▸ h)] at hcan
    cases hcan
  refine ⟨⟨he.no_conflict, ?_, ?_⟩, ?_⟩
  · rw [List.map_append, List.map_singleton, List.nodup_append]
    refine ⟨he.nodup, List.nodup_singleton _, ?_⟩
    intro a ha b hb
    obtain ⟨w, hw, rfl⟩ := List.mem_map.mp ha
    rw [List.mem_singleton.mp hb]
    exact hfresh w hw
  · intro w hw
    rcases List.mem_append.mp hw with hw | hw
    · exact he.wants_more w hw
    · rw [List.mem_singleton.mp hw]
      exact hholds
  · intro w hw
    rcases List.eq_nil_or_concat e.wait_queue with hq | ⟨ws, v, hq⟩
    · -- the new request is the head; it was refused because of a conflict
      simp only [hq, List.nil_append, List.head?_cons, Option.some.injEq] at hw
      subst hw
      rw [Bool.eq_false_iff]
      intro hyes
      have hcomp := ((can_grant_of_not_holds
        (e := ⟨e.granted, e.wait_queue ++ [⟨x, m⟩]⟩) hholds).mp hyes).2
      have hyes' : e.can_grant x m = true :=
        (can_grant_of_not_holds hholds).mpr ⟨fun w hw => by simp [hq] at hw, hcomp⟩
      rw [hcan] at hyes'
      cases hyes'
    · have hsame : (e.wait_queue ++ [Waiter.mk x m]).head? = e.wait_queue.head? :=
        List.head?_append_of_ne_nil _ (by simp [hq])
      rw [hsame] at hw
      rw [@can_grant_congr_queue _ _ e.wait_queue hsame]
      exact he.head_blocked w hw

/-! ### Held modes only grow -/

/-- `e'` leaves `x` at least the mode it had in `e`. -/
def Keeps (x : TxnId) (e e' : LockEntry) : Prop :=
  ∀ m, e.granted.get? x = some m → ∃ m', e'.granted.get? x = some m' ∧ m ≤ m'

theorem Keeps.of_granted_eq {e' : LockEntry} (h : e'.granted = e.granted) :
    Keeps x e e' := fun m hm => ⟨m, by rw [h]; exact hm, le_refl m⟩

theorem Keeps.trans {e' e'' : LockEntry} (h : Keeps x e e') (h' : Keeps x e' e'') :
    Keeps x e e'' := by
  intro m hm
  obtain ⟨m', hm', hle⟩ := h m hm
  obtain ⟨m'', hm'', hle'⟩ := h' m' hm'
  exact ⟨m'', hm'', hle.trans hle'⟩

theorem keeps_grant (x : TxnId) (e : LockEntry) (y : TxnId) (m : LockMode) :
    Keeps x e (e.grant y m) := by
  by_cases hh : e.holds y m = true
  · exact Keeps.of_granted_eq (grant_granted_of_holds hh)
  · have hh' := Bool.eq_false_iff.mpr hh
    intro n hn
    rw [grant_granted_self hh', OrdMap.get?_insert]
    by_cases hy : y = x
    · subst hy
      rw [if_pos rfl]
      refine ⟨m, rfl, le_of_lt (lt_of_not_ge fun hle => hh (holds_iff.mpr ⟨n, hn, hle⟩))⟩
    · rw [if_neg hy]
      exact ⟨n, hn, le_refl n⟩

theorem keeps_regrantLoop (x : TxnId) (g : OrdMap TxnId LockMode) (q : List Waiter) :
    Keeps x ⟨g, q⟩ (regrantLoop g q) := by
  induction q generalizing g with
  | nil => exact Keeps.of_granted_eq rfl
  | cons w ws ih =>
    unfold regrantLoop
    split_ifs
    · exact @Keeps.trans _ _ ⟨_, ws⟩ _ (keeps_grant x ⟨g, w :: ws⟩ w.xid w.mode) (ih _)
    · exact Keeps.of_granted_eq rfl

theorem keeps_regrant_heads (x : TxnId) (e : LockEntry) : Keeps x e e.regrant_heads :=
  keeps_regrantLoop x e.granted e.wait_queue

theorem not_is_empty_of_granted (h : e.granted.get? x = some m) : e.is_empty = false := by
  rw [is_empty, OrdMap.isEmpty_eq_false h, Bool.false_and]

end LockEntry

/-! ## The manager -/

/-- `LockManager`: the entries under their mutex, and the shared victim flags. -/
structure LockManager where
  entries : OrdMap Oid LockEntry
  deadlock_victims : List TxnId

/-- How a turn of `acquire`'s loop ends. -/
inductive AcquirePass where
  | granted
  | victim
  | waiting
deriving DecidableEq, Repr

namespace LockManager

def new : LockManager := ⟨OrdMap.empty, []⟩

/-- Store an entry back, pruning it when it is empty. -/
def put_or_prune (entries : OrdMap Oid LockEntry) (table : Oid) (entry : LockEntry) :
    OrdMap Oid LockEntry :=
  if entry.is_empty then entries.erase table else entries.insert table entry

/-- One turn of the loop of `acquire`, under the entries mutex. -/
def acquire_pass (lm : LockManager) (xid : TxnId) (table : Oid) (mode : LockMode) :
    AcquirePass × LockManager :=
  if xid ∈ lm.deadlock_victims then
    (.victim,
      { deadlock_victims := lm.deadlock_victims.filter (· ≠ xid)
        entries :=
          match lm.entries.get? table with
          | some entry => put_or_prune lm.entries table (entry.drop_waiter xid).regrant_heads
          | none => lm.entries })
  else
    let entry := (lm.entries.get? table).getD LockEntry.default
    if entry.can_grant xid mode then
      (.granted, { lm with entries := lm.entries.insert table (entry.grant xid mode) })
    else
      (.waiting, { lm with entries := lm.entries.insert table (entry.enqueue_if_absent xid mode) })

/-- `try_acquire`: the same gates, and no trace when they refuse. -/
def try_acquire (lm : LockManager) (xid : TxnId) (table : Oid) (mode : LockMode) :
    Bool × LockManager :=
  let grantable :=
    match lm.entries.get? table with
    | some entry => entry.can_grant xid mode
    | none => true
  if grantable then
    let entry := (lm.entries.get? table).getD LockEntry.default
    (true, { lm with entries := lm.entries.insert table (entry.grant xid mode) })
  else (false, lm)

/-- Release every table lock of `xid`, drop its queued requests, re-grant. -/
def release_all (lm : LockManager) (xid : TxnId) : LockManager :=
  { lm with
    entries := lm.entries.filterMap fun _ entry =>
      let entry := ((entry.drop_grant xid).drop_waiter xid).regrant_heads
      if entry.is_empty then none else some entry }

/-- `DeadlockVictims::mark`. -/
def mark_victim (lm : LockManager) (xid : TxnId) : LockManager :=
  { lm with deadlock_victims := lm.deadlock_victims.insert xid }

/-- `DeadlockVictims::clear`. -/
def clear_victim (lm : LockManager) (xid : TxnId) : LockManager :=
  { lm with deadlock_victims := lm.deadlock_victims.filter (· ≠ xid) }

/-- The mode `xid` holds on `table` (`held_by`). -/
def held (lm : LockManager) (table : Oid) (xid : TxnId) : Option LockMode :=
  (lm.entries.get? table).bind fun entry => entry.granted.get? xid

/-- A table without an entry behaves like one with the default entry. -/
theorem try_acquire_eq (lm : LockManager) (x : TxnId) (table : Oid) (m : LockMode) :
    lm.try_acquire x table m =
      if ((lm.entries.get? table).getD LockEntry.default).can_grant x m then
        (true, { lm with
          entries := lm.entries.insert table
            (((lm.entries.get? table).getD LockEntry.default).grant x m) })
      else (false, lm) := by
  unfold try_acquire
  cases h : lm.entries.get? table with
  | none => rfl
  | some e => rfl

end LockManager

/-! ## The system -/

/-- The manager and, for every transaction asleep inside `acquire`, its request. -/
structure LockSys where
  mgr : LockManager
  blocked : TxnId → Option (Oid × LockMode)

inductive LockOp where
  | acquire (xid : TxnId) (table : Oid) (mode : LockMode)
  | wake (xid : TxnId)
  | try_acquire (xid : TxnId) (table : Oid) (mode : LockMode)
  | mark_victim (xid : TxnId)
  | clear_victim (xid : TxnId)
  | release_all (xid : TxnId)
deriving DecidableEq, Repr

namespace LockSys

def new : LockSys := ⟨LockManager.new, fun _ => none⟩

/-- A turn of `acquire` for `xid`, and whether it leaves the caller asleep. -/
def acquire_turn (s : LockSys) (xid : TxnId) (table : Oid) (mode : LockMode) : LockSys :=
  match s.mgr.acquire_pass xid table mode with
  | (.waiting, mgr) => ⟨mgr, update s.blocked xid (some (table, mode))⟩
  | (_, mgr) => ⟨mgr, update s.blocked xid none⟩

/-- One step. A transaction asleep in `acquire` makes no other request. -/
def step (s : LockSys) : LockOp → Option LockSys
  | .acquire xid table mode =>
    if s.blocked xid = none then some (s.acquire_turn xid table mode) else none
  | .wake xid =>
    match s.blocked xid with
    | some (table, mode) => some (s.acquire_turn xid table mode)
    | none => none
  | .try_acquire xid table mode =>
    if s.blocked xid = none then some { s with mgr := (s.mgr.try_acquire xid table mode).2 }
    else none
  | .mark_victim xid => some { s with mgr := s.mgr.mark_victim xid }
  | .clear_victim xid => some { s with mgr := s.mgr.clear_victim xid }
  | .release_all xid => some { s with mgr := s.mgr.release_all xid }

variable {s t : LockSys}

variable {op : LockOp}

/-- The effect of a step on the entries: at most one table changes, to the result
of a grant, an enqueue or a victim's removal, or `release_all` visits them all.
The request a turn is made for is either fresh or the one it is asleep with. -/
theorem step_cases (h : step s op = some t) :
    (∃ x table m, (s.blocked x = none ∨ s.blocked x = some (table, m)) ∧
      (op = .acquire x table m ∨ op = .wake x) ∧ t = s.acquire_turn x table m) ∨
    (∃ x table m, s.blocked x = none ∧ op = .try_acquire x table m ∧
      t = { s with mgr := (s.mgr.try_acquire x table m).2 }) ∨
    (t.mgr.entries = s.mgr.entries ∧ t.blocked = s.blocked) ∨
    (∃ x, op = .release_all x ∧ t = { s with mgr := s.mgr.release_all x }) := by
  cases op with
  | acquire x table m =>
    simp only [step] at h
    split_ifs at h with hb
    exact .inl ⟨x, table, m, .inl hb, .inl rfl, (Option.some.inj h).symm⟩
  | wake x =>
    simp only [step] at h
    split at h
    · rename_i table m hb
      exact .inl ⟨x, table, m, .inr hb, .inr rfl, (Option.some.inj h).symm⟩
    · cases h
  | try_acquire x table m =>
    simp only [step] at h
    split_ifs at h with hb
    exact .inr (.inl ⟨x, table, m, hb, rfl, (Option.some.inj h).symm⟩)
  | mark_victim x =>
    cases h
    exact .inr (.inr (.inl ⟨rfl, rfl⟩))
  | clear_victim x =>
    cases h
    exact .inr (.inr (.inl ⟨rfl, rfl⟩))
  | release_all x =>
    cases h
    exact .inr (.inr (.inr ⟨x, rfl, rfl⟩))

/-- The three ends of a turn, with what each does to the table's entry. -/
theorem acquire_turn_cases (s : LockSys) (x : TxnId) (table : Oid) (m : LockMode) :
    (s.mgr.entries.get? table = none ∧ ∃ v,
      s.acquire_turn x table m = ⟨⟨s.mgr.entries, v⟩, update s.blocked x none⟩) ∨
    (∃ e v, s.mgr.entries.get? table = some e ∧ s.acquire_turn x table m =
      ⟨⟨LockManager.put_or_prune s.mgr.entries table (e.drop_waiter x).regrant_heads, v⟩,
        update s.blocked x none⟩) ∨
    (((s.mgr.entries.get? table).getD LockEntry.default).can_grant x m = true ∧ ∃ v,
      s.acquire_turn x table m = ⟨⟨s.mgr.entries.insert table
        (((s.mgr.entries.get? table).getD LockEntry.default).grant x m), v⟩,
        update s.blocked x none⟩) ∨
    (((s.mgr.entries.get? table).getD LockEntry.default).can_grant x m = false ∧ ∃ v,
      s.acquire_turn x table m = ⟨⟨s.mgr.entries.insert table
        (((s.mgr.entries.get? table).getD LockEntry.default).enqueue_if_absent x m), v⟩,
        update s.blocked x (some (table, m))⟩) := by
  unfold LockSys.acquire_turn LockManager.acquire_pass
  by_cases hvict : x ∈ s.mgr.deadlock_victims
  · cases hget : s.mgr.entries.get? table with
    | none => exact .inl ⟨rfl, _, by rw [if_pos hvict]⟩
    | some e => exact .inr (.inl ⟨e, _, rfl, by rw [if_pos hvict]⟩)
  · cases hcan : ((s.mgr.entries.get? table).getD LockEntry.default).can_grant x m with
    | true =>
      refine .inr (.inr (.inl ⟨rfl, s.mgr.deadlock_victims, ?_⟩))
      simp only [if_neg hvict, hcan, if_true]
    | false =>
      refine .inr (.inr (.inr ⟨rfl, s.mgr.deadlock_victims, ?_⟩))
      simp only [if_neg hvict, hcan, Bool.false_eq_true, if_false]

/-- Every entry satisfies its invariant, and a queued request is the request its
transaction sleeps with. -/
structure Inv (s : LockSys) : Prop where
  entry : ∀ table e, s.mgr.entries.get? table = some e → e.Inv
  queued : ∀ table e, s.mgr.entries.get? table = some e → ∀ w ∈ e.wait_queue,
    s.blocked w.xid = some (table, w.mode)

theorem Inv.new : Inv LockSys.new where
  entry _ _ h := by cases h
  queued _ _ h := by cases h

/-- The entry a turn works on: the stored one, or the default. -/
theorem Inv.getD (hs : s.Inv) (table : Oid) :
    ((s.mgr.entries.get? table).getD LockEntry.default).Inv ∧
      ∀ w ∈ ((s.mgr.entries.get? table).getD LockEntry.default).wait_queue,
        s.blocked w.xid = some (table, w.mode) := by
  cases h : s.mgr.entries.get? table with
  | none => exact ⟨LockEntry.Inv.default, fun _ hw => absurd hw List.not_mem_nil⟩
  | some e => exact ⟨hs.entry table e h, hs.queued table e h⟩

variable {table : Oid}

/-- Replacing one table's entry by a good one, whose waiters all sleep. -/
theorem Inv.insert (hs : s.Inv) {e : LockEntry} (he : e.Inv) {b : TxnId → Option (Oid × LockMode)}
    {v : List TxnId} (hq : ∀ w ∈ e.wait_queue, b w.xid = some (table, w.mode))
    (hb : ∀ table' e', table' ≠ table → s.mgr.entries.get? table' = some e' →
      ∀ w ∈ e'.wait_queue, b w.xid = some (table', w.mode)) :
    Inv ⟨⟨s.mgr.entries.insert table e, v⟩, b⟩ := by
  constructor
  · intro table' e' h
    rw [OrdMap.get?_insert] at h
    split_ifs at h with ht
    · cases h; exact he
    · exact hs.entry table' e' h
  · intro table' e' h
    rw [OrdMap.get?_insert] at h
    split_ifs at h with ht
    · cases h; subst ht; exact hq
    · exact hb table' e' (Ne.symm ht) h

variable {x : TxnId} {m : LockMode}

section Turn

variable (hs : s.Inv) (hx : s.blocked x = none ∨ s.blocked x = some (table, m))

include hs hx

/-- A turn by `x` for a request on `table` leaves the waiters of other tables
asleep with what they asked for: `x` itself waits on no other table. -/
theorem Inv.blocked_other (b : Option (Oid × LockMode)) :
    ∀ table' e', table' ≠ table → s.mgr.entries.get? table' = some e' →
      ∀ w ∈ e'.wait_queue, update s.blocked x b w.xid = some (table', w.mode) := by
  intro table' e' hne h w hw
  have hwb := hs.queued table' e' h w hw
  have hwx : w.xid ≠ x := by
    rintro rfl
    rcases hx with hx | hx
    · rw [hx] at hwb; cases hwb
    · rw [hx] at hwb
      cases hwb
      exact hne rfl
  rw [update_of_ne hwx]
  exact hwb

/-- The requester's own queue entry on the table of its request asks for the mode
of its request. -/
theorem Inv.own_request : ∀ w ∈ ((s.mgr.entries.get? table).getD LockEntry.default).wait_queue,
      w.xid = x → w.mode = m := by
  intro w hw hwx
  have hwb := (hs.getD table).2 w hw
  rw [hwx] at hwb
  rcases hx with hx | hx
  · rw [hx] at hwb; cases hwb
  · rw [hx] at hwb
    cases hwb
    rfl

/-- After a grant nobody but `x` is on the queue under `x`'s name, so the waiters
stay asleep with their requests. -/
theorem Inv.granted_queue
    (hcan : ((s.mgr.entries.get? table).getD LockEntry.default).can_grant x m = true) :
    ∀ w ∈ ((s.mgr.entries.get? table).getD LockEntry.default).wait_queue, w.xid ≠ x := by
  intro w hw hwx
  have he := (hs.getD table).1
  have hmode := hs.own_request hx w hw hwx
  have hnot := he.wants_more w hw
  rw [hwx, hmode] at hnot
  obtain ⟨hhead, -⟩ := (LockEntry.can_grant_of_not_holds hnot).mp hcan
  cases hq : ((s.mgr.entries.get? table).getD LockEntry.default).wait_queue with
  | nil => rw [hq] at hw; cases hw
  | cons v vs =>
    have hv : ((s.mgr.entries.get? table).getD LockEntry.default).wait_queue.head? = some v := by
      rw [hq]; rfl
    have hvx := hhead v hv
    have hvm := hs.own_request hx v (List.mem_of_mem_head? hv) hvx
    have hstuck := he.head_blocked v hv
    rw [hvx, hvm, hcan] at hstuck
    cases hstuck

theorem Inv.acquire_turn : (s.acquire_turn x table m).Inv := by
  obtain ⟨hget, v, heq⟩ | ⟨e, v, hget, heq⟩ | ⟨hcan, v, heq⟩ | ⟨hcan, v, heq⟩ :=
    acquire_turn_cases s x table m
  · rw [heq]
    refine ⟨hs.entry, fun table' e' h => hs.blocked_other hx none table' e' ?_ h⟩
    rintro rfl
    rw [hget] at h
    cases h
  · -- the victim leaves the queue and the heads behind it move up
    rw [heq]
    have he : ((e.drop_waiter x).regrant_heads).Inv :=
      ((hs.entry table e hget).toPre.drop_waiter x).regrant_heads
    have hqueue : ∀ w ∈ ((e.drop_waiter x).regrant_heads).wait_queue,
        update s.blocked x none w.xid = some (table, w.mode) := by
      intro w hw
      have hw' := (LockEntry.regrantLoop_queue_suffix _ _).subset hw
      obtain ⟨hmem, hne⟩ := List.mem_filter.mp hw'
      rw [update_of_ne (of_decide_eq_true hne)]
      exact hs.queued table e hget w hmem
    unfold LockManager.put_or_prune
    split_ifs with hempty
    · refine ⟨fun table' e' h => ?_, fun table' e' h => ?_⟩
      · rw [OrdMap.get?_erase] at h
        split_ifs at h
        exact hs.entry table' e' h
      · rw [OrdMap.get?_erase] at h
        split_ifs at h with ht
        exact hs.blocked_other hx none table' e' (Ne.symm ht) h
    · exact hs.insert he hqueue (hs.blocked_other hx none)
  · rw [heq]
    obtain ⟨hinv, hq⟩ := (hs.getD table).1.grant (hs.own_request hx) hcan
    refine hs.insert hinv ?_ (hs.blocked_other hx none)
    rw [hq]
    intro w hw
    rw [update_of_ne (hs.granted_queue hx hcan w hw)]
    exact (hs.getD table).2 w hw
  · rw [heq]
    refine hs.insert ((hs.getD table).1.enqueue_if_absent hcan) ?_
      (hs.blocked_other hx (some (table, m)))
    intro w hw
    have hsplit : w ∈ ((s.mgr.entries.get? table).getD LockEntry.default).wait_queue ∨
        w = ⟨x, m⟩ := by
      unfold LockEntry.enqueue_if_absent at hw
      split_ifs at hw
      · exact .inl hw
      · exact (List.mem_append.mp hw).imp_right List.mem_singleton.mp
    rcases hsplit with hw | rfl
    · by_cases hwx : w.xid = x
      · rw [hwx, update_self, hs.own_request hx w hw hwx]
      · rw [update_of_ne hwx]
        exact (hs.getD table).2 w hw
    · exact update_self ..

end Turn

theorem Inv.try_acquire (hs : s.Inv) (hx : s.blocked x = none) :
    Inv { s with mgr := (s.mgr.try_acquire x table m).2 } := by
  rw [LockManager.try_acquire_eq]
  split_ifs with hcan
  · obtain ⟨hinv, hq⟩ := (hs.getD table).1.grant (hs.own_request (.inl hx)) hcan
    refine hs.insert hinv ?_ fun table' e' _ h => hs.queued table' e' h
    rw [hq]
    exact (hs.getD table).2
  · exact hs

theorem Inv.release_all (hs : s.Inv) (x : TxnId) : Inv { s with mgr := s.mgr.release_all x } := by
  have hshape : ∀ table e, (s.mgr.release_all x).entries.get? table = some e →
      ∃ e₀, s.mgr.entries.get? table = some e₀ ∧
        e = ((e₀.drop_grant x).drop_waiter x).regrant_heads := by
    intro table e h
    rw [LockManager.release_all, OrdMap.get?_filterMap] at h
    obtain ⟨e₀, he0, h⟩ := Option.bind_eq_some_iff.mp h
    simp only at h
    split_ifs at h
    exact ⟨e₀, he0, (Option.some.inj h).symm⟩
  constructor
  · intro table e h
    obtain ⟨e₀, he0, rfl⟩ := hshape table e h
    exact (((hs.entry table e₀ he0).toPre.drop_grant x).drop_waiter x).regrant_heads
  · intro table e h w hw
    obtain ⟨e₀, he0, rfl⟩ := hshape table e h
    have hw' := (LockEntry.regrantLoop_queue_suffix _ _).subset hw
    exact hs.queued table e₀ he0 w (List.mem_filter.mp hw').1

theorem Inv.step (hs : s.Inv) (h : LockSys.step s op = some t) : t.Inv := by
  obtain ⟨x, table, m, hx, -, rfl⟩ | ⟨x, table, m, hx, -, rfl⟩ | ⟨he, hb⟩ | ⟨x, -, rfl⟩ :=
    step_cases h
  · exact hs.acquire_turn hx
  · exact hs.try_acquire hx
  · exact ⟨by rw [he]; exact hs.entry, by rw [he, hb]; exact hs.queued⟩
  · exact hs.release_all x

theorem Inv.run {ops : List LockOp} (hs : s.Inv) (h : Lib.run LockSys.step s ops = some t) : t.Inv :=
  run_invariant Inv (fun _ _ _ hs h => hs.step h) hs h

/-! ## Held modes -/

/-- `x` holds on every table at least what it held before. -/
def Keeps (x : TxnId) (s t : LockSys) : Prop :=
  ∀ table m, s.mgr.held table x = some m → ∃ m', t.mgr.held table x = some m' ∧ m ≤ m'

/-- Replacing one entry by one that keeps `x`'s mode. -/
theorem held_insert {entries : OrdMap Oid LockEntry} {v v' : List TxnId} {e : LockEntry}
    (hk : LockEntry.Keeps x ((entries.get? table).getD LockEntry.default) e) (table' : Oid)
    (m : LockMode) (h : (LockManager.mk entries v).held table' x = some m) :
    ∃ m', (LockManager.mk (entries.insert table e) v').held table' x = some m' ∧ m ≤ m' := by
  obtain ⟨e₀, he0, hm⟩ := Option.bind_eq_some_iff.mp h
  unfold LockManager.held
  rw [OrdMap.get?_insert]
  split_ifs with ht
  · subst ht
    change entries.get? table = some e₀ at he0
    rw [he0] at hk
    exact hk m hm
  · exact ⟨m, h, le_refl m⟩

theorem keeps_acquire_turn (y : TxnId) (s : LockSys) (x : TxnId) (table : Oid) (m : LockMode) :
    Keeps y s (s.acquire_turn x table m) := by
  obtain ⟨-, v, heq⟩ | ⟨e, v, hget, heq⟩ | ⟨-, v, heq⟩ | ⟨-, v, heq⟩ :=
    acquire_turn_cases s x table m
  · rw [heq]
    exact fun table' m' h => ⟨m', h, le_refl m'⟩
  · rw [heq]
    have hk : LockEntry.Keeps y e ((e.drop_waiter x).regrant_heads) :=
      LockEntry.keeps_regrant_heads y (e.drop_waiter x)
    unfold LockManager.put_or_prune
    split_ifs with hempty
    · -- a pruned entry had no holders, so `y` holds nothing on this table
      intro table' m' h
      refine ⟨m', ?_, le_refl m'⟩
      unfold LockManager.held at *
      rw [OrdMap.get?_erase]
      split_ifs with ht
      · subst ht
        rw [hget] at h
        obtain ⟨m'', hm'', -⟩ := hk m' h
        rw [LockEntry.not_is_empty_of_granted hm''] at hempty
        cases hempty
      · exact h
    · exact held_insert (by rw [hget]; exact hk)
  · rw [heq]
    exact held_insert (LockEntry.keeps_grant y _ x m)
  · rw [heq]
    refine held_insert (LockEntry.Keeps.of_granted_eq ?_)
    unfold LockEntry.enqueue_if_absent
    split_ifs <;> rfl

theorem keeps_try_acquire (y : TxnId) (s : LockSys) (x : TxnId) (table : Oid) (m : LockMode) :
    Keeps y s { s with mgr := (s.mgr.try_acquire x table m).2 } := by
  rw [LockManager.try_acquire_eq]
  split_ifs
  · exact held_insert (LockEntry.keeps_grant y _ x m)
  · exact fun table' m' h => ⟨m', h, le_refl m'⟩

variable {y : TxnId}

theorem keeps_release_all (s : LockSys) (hne : x ≠ y) :
    Keeps y s { s with mgr := s.mgr.release_all x } := by
  intro table m h
  obtain ⟨e, he, hm⟩ := Option.bind_eq_some_iff.mp h
  have hdrop : ((e.drop_grant x).drop_waiter x).granted.get? y = some m := by
    simp only [LockEntry.drop_waiter, LockEntry.drop_grant, OrdMap.get?_erase, if_neg hne]
    exact hm
  obtain ⟨m', hm', hle⟩ := LockEntry.keeps_regrant_heads y _ m hdrop
  refine ⟨m', ?_, hle⟩
  simp only [LockManager.held, LockManager.release_all, OrdMap.get?_filterMap, he,
    Option.bind_some, LockEntry.not_is_empty_of_granted hm', Bool.false_eq_true, if_false]
  exact hm'

theorem step_keeps (hop : op ≠ .release_all y) (h : step s op = some t) : Keeps y s t := by
  obtain ⟨x, table, m, -, -, rfl⟩ | ⟨x, table, m, -, -, rfl⟩ | ⟨he, -⟩ | ⟨x, rfl, rfl⟩ :=
    step_cases h
  · exact keeps_acquire_turn y s x table m
  · exact keeps_try_acquire y s x table m
  · intro table m h
    exact ⟨m, by unfold LockManager.held at *; rw [he]; exact h, le_refl m⟩
  · exact keeps_release_all s fun hx => hop (hx ▸ rfl)

/-- Along a run without a `release_all` of `y`, no held mode of `y` weakens. -/
theorem run_keeps {ops : List LockOp} :
    ∀ {s t : LockSys}, LockOp.release_all y ∉ ops → Lib.run step s ops = some t → Keeps y s t := by
  induction ops with
  | nil =>
    intro s t _ h
    rw [run_nil, Option.some.injEq] at h
    subst h
    exact fun table m hm => ⟨m, hm, le_refl m⟩
  | cons op ops ih =>
    intro s t hops h
    obtain ⟨u, hsu, hut⟩ := run_cons_eq_some.mp h
    have hop : op ≠ .release_all y := fun heq => hops (heq ▸ (.head _))
    intro table m hm
    obtain ⟨m', hm', hle⟩ := step_keeps hop hsu table m hm
    obtain ⟨m'', hm'', hle'⟩ := ih (fun hm => hops (.tail _ hm)) hut table m' hm'
    exact ⟨m'', hm'', hle.trans hle'⟩

end LockSys

/-- **The lock manager's invariant.** In every reachable state and on every table:
no two transactions hold conflicting modes, the head of the queue is not
grantable, and no transaction waits twice. From there on a held mode never
weakens before its transaction's `release_all`. -/
theorem lock_manager_invariant {ops later : List LockOp} {s t : LockSys}
    (hs : run LockSys.step LockSys.new ops = some s) (ht : run LockSys.step s later = some t) :
    (∀ table e, s.mgr.entries.get? table = some e →
      (∀ x y m n, x ≠ y → e.granted.get? x = some m → e.granted.get? y = some n →
        m.conflicts_with n = false) ∧
      (∀ w, e.wait_queue.head? = some w → e.can_grant w.xid w.mode = false) ∧
      (e.wait_queue.map Waiter.xid).Nodup) ∧
    (∀ table x m, LockOp.release_all x ∉ later → s.mgr.held table x = some m →
      ∃ m', t.mgr.held table x = some m' ∧ m ≤ m') := by
  have hinv : s.Inv := LockSys.Inv.new.run hs
  refine ⟨fun table e he => ?_, fun table x m hx hm => LockSys.run_keeps hx ht table m hm⟩
  have hentry := hinv.entry table e he
  exact ⟨hentry.no_conflict, hentry.head_blocked, hentry.nodup⟩

/-- Transactions 1 and 2 write; 1 queues for an upgrade and 3 queues behind it. The
detector interrupts 3 and the release by 2 grants the upgrade while 1 sleeps. -/
theorem lock_manager_invariant_upgrade : ∃ s t : LockSys,
      run LockSys.step LockSys.new
        [.acquire 1 7 .RowExclusive, .acquire 2 7 .RowExclusive, .acquire 1 7 .Exclusive,
          .acquire 3 7 .AccessShare, .wake 1] = some s ∧
      run LockSys.step s [.mark_victim 3, .wake 3, .release_all 2, .wake 1] = some t ∧
      s.mgr.held 7 1 = some .RowExclusive ∧
      ∃ m', t.mgr.held 7 1 = some m' ∧ LockMode.RowExclusive ≤ m' := by
  refine ⟨_, _, rfl, rfl, rfl, ?_⟩
  exact (@lock_manager_invariant
    [.acquire 1 7 .RowExclusive, .acquire 2 7 .RowExclusive, .acquire 1 7 .Exclusive,
      .acquire 3 7 .AccessShare, .wake 1]
    [.mark_victim 3, .wake 3, .release_all 2, .wake 1] _ _ rfl rfl).2
    7 1 .RowExclusive (by decide) rfl

end Ams
