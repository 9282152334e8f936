/-
What a freshly allocated page holds: `BufferPool::new_page` over the page allocator.

`new_page` asks the allocator for a page id and the pool for a frame, and relies on
`alloc_frame` to clear the frame. But `alloc_frame` first looks for the page in the pool,
and a page that is freed keeps its frame: nothing tells the pool of `free_page`. A recycled
page that has not been evicted since comes back with the bytes it had.
-/
import Ams.PoolTransparency
import Ams.PageAllocator

set_option autoImplicit false

namespace Ams

open Ams.Lib BufferPool

/-! ## The pool and its allocator -/

structure PageStore where
  sys : PoolSys
  page_allocator : PageAllocator

/-- A call on the pool that does not allocate, or one that reaches the allocator. -/
inductive PageStoreCall where
  | new_page (set_len_ok append_ok : Bool) (change : Page → Page)
  | free_page (page_id : PageId) (append_ok : Bool)
  | pool (call : PoolCall)

def PoolCall.allocates : PoolCall → Bool
  | .new_page _ _ => true
  | _ => false

namespace PageStore

/-- `BufferPool::new_page`, the caller's changes and the drop of its guard; `none` if the
allocator fails. -/
def new_page (s : PageStore) (set_len_ok append_ok : Bool) (change : Page → Page) (io : PoolIo) :
    PageStore × Option (Except PoolStop PoolReply) :=
  match s.page_allocator.alloc_page set_len_ok append_ok with
  | (page_allocator, none) => ({ s with page_allocator }, none)
  | (page_allocator, some page_id) =>
    let r := s.sys.pool.new_page page_id change io
    (⟨⟨r.1, after_reply s.sys.last r.2⟩, page_allocator⟩, some r.2)

def step (s : PageStore) (l : PageStoreCall × PoolIo) : Option PageStore :=
  match l.1 with
  | .new_page set_len_ok append_ok change => some (s.new_page set_len_ok append_ok change l.2).1
  | .free_page page_id append_ok =>
    some { s with page_allocator := (s.page_allocator.free_page page_id append_ok).1 }
  | .pool call =>
    if call.allocates then none
    else (s.sys.step (call, l.2)).map fun sys => { s with sys }

end PageStore

/-! ## Page 0 is never given out -/

structure PageAllocator.NoZero (pa : PageAllocator) : Prop where
  freelist : 0 ∉ pa.freelist
  next_page_id : 1 ≤ pa.next_page_id

namespace PageAllocator.NoZero

variable {pa : PageAllocator} (h : pa.NoZero)
include h

theorem alloc_page (set_len_ok append_ok : Bool) :
    (pa.alloc_page set_len_ok append_ok).1.NoZero ∧
      ∀ p, (pa.alloc_page set_len_ok append_ok).2 = some p → p ≠ 0 := by
  rcases pa.alloc_page_cases set_len_ok append_ok with ⟨hres, hnext, hfree⟩ |
    ⟨q, rest, hlist, hres, hfree, hnext⟩ | ⟨hlist, hres, hfree, hnext⟩
  · refine ⟨⟨fun hmem => h.freelist (hfree.subset hmem), hnext ▸ h.next_page_id⟩, fun p hp => ?_⟩
    rw [hres] at hp
    simp at hp
  · have hzero := h.freelist
    rw [hlist, List.mem_append, not_or, List.mem_singleton] at hzero
    refine ⟨⟨hfree ▸ hzero.1, ?_⟩, fun p hp => ?_⟩
    · have hone := h.next_page_id
      rw [hnext]
      split_ifs <;> omega
    · rw [hres] at hp
      exact Option.some.inj hp ▸ fun hq => hzero.2 hq.symm
  · refine ⟨⟨by rw [hfree]; simp, by rw [hnext]; omega⟩, fun p hp => ?_⟩
    rw [hres] at hp
    have hone := h.next_page_id
    have hp := Option.some.inj hp
    omega

theorem free_page (p : ℕ) (append_ok : Bool) : (pa.free_page p append_ok).1.NoZero := by
  rcases pa.free_page_cases p append_ok with heq | ⟨hone, -, -, heq⟩
  · rw [heq]
    exact h
  · rw [heq]
    refine ⟨?_, h.next_page_id⟩
    rw [List.mem_append, not_or, List.mem_singleton]
    exact ⟨h.freelist, by omega⟩

end PageAllocator.NoZero

/-! ## Runs -/

structure PageStore.Inv (frame_count shards : ℕ) (s : PageStore) : Prop where
  sys : PoolInv frame_count shards s.sys
  page_allocator : s.page_allocator.NoZero

section Run

variable {frame_count shards : ℕ} {s t : PageStore} {io : PoolIo}

theorem PageStore.Inv.new_page (hn : 1 ≤ frame_count) (hs : s.Inv frame_count shards)
    (set_len_ok append_ok : Bool) (change : Page → Page) (io : PoolIo) :
    (s.new_page set_len_ok append_ok change io).1.Inv frame_count shards := by
  obtain ⟨hpa, hne⟩ := hs.page_allocator.alloc_page set_len_ok append_ok
  unfold PageStore.new_page
  split
  next pa heq =>
    rw [heq] at hpa
    exact ⟨hs.sys, hpa⟩
  next pa p heq =>
    rw [heq] at hpa hne
    have hp : p ≠ 0 := hne p rfl
    refine ⟨hs.sys.step hn (l := (.new_page p change, io)) ?_, hpa⟩
    unfold PoolSys.step
    rw [if_pos (show PoolCall.allowed (.new_page p change) = true from decide_eq_true hp)]
    rfl

theorem PageStore.Inv.step (hn : 1 ≤ frame_count) {l : PageStoreCall × PoolIo}
    (hs : s.Inv frame_count shards) (hst : s.step l = some t) : t.Inv frame_count shards := by
  obtain ⟨call, io⟩ := l
  cases call with
  | new_page set_len_ok append_ok change =>
    cases hst
    exact hs.new_page hn set_len_ok append_ok change io
  | free_page p append_ok =>
    cases hst
    exact ⟨hs.sys, hs.page_allocator.free_page p append_ok⟩
  | pool call =>
    simp only [PageStore.step] at hst
    split_ifs at hst
    obtain ⟨sys, hsys, rfl⟩ := Option.map_eq_some_iff.mp hst
    exact ⟨hs.sys.step hn hsys, hs.page_allocator⟩

/-- **A fresh page is all zeros unless the pool still holds it.** Whatever calls came before,
with whatever failures, a page that `new_page` returns shows zeros if its id was in no frame, and
otherwise the bytes its last write guard left, from before it was freed. -/
theorem new_page_zeroed (frame_count shards : ℕ) (data_file : PageId → Page)
    (pa : PageAllocator) (hn : 1 ≤ frame_count) (hpa : pa.NoZero)
    {ls : List (PageStoreCall × PoolIo)} {s : PageStore}
    (hrun : Lib.run PageStore.step ⟨PoolSys.open frame_count shards data_file, pa⟩ ls = some s)
    (set_len_ok append_ok : Bool) (change : Page → Page) (io : PoolIo) {reply : PoolReply}
    (h : (s.new_page set_len_ok append_ok change io).2 = some (.ok reply)) :
    ∃ p seen, reply = .Wrote p seen (change seen) ∧
      (s.sys.pool.lookup p = none → seen = Page.zero) ∧
      (s.sys.pool.lookup p ≠ none → seen = s.sys.last p) := by
  have hs : s.Inv frame_count shards :=
    run_invariant _ (fun _ _ _ hs hst => hs.step hn hst) ⟨PoolInv.open _ _ _, hpa⟩ hrun
  have hcount : 0 < s.sys.pool.frame_count := by
    rw [hs.sys.frame_count]
    exact hn
  obtain ⟨-, hne⟩ := hs.page_allocator.alloc_page set_len_ok append_ok
  unfold PageStore.new_page at h
  split at h
  next pa heq => simp at h
  next pa p heq =>
    rw [heq] at hne
    obtain ⟨-, hseen⟩ := new_page_spec hs.sys.core hs.sys.idle hcount (hne p rfl)
      (Prod.mk.eta (p := s.sys.pool.new_page p change io)).symm
    obtain ⟨seen, hreply, hseen⟩ := hseen reply (Option.some.inj h)
    exact ⟨p, seen, hreply, fun habsent => by rw [hseen, habsent]; rfl, fun hres => by
      rw [hseen, if_pos (Option.isSome_iff_ne_none.mpr hres)]⟩

end Run

/-- A new data file and a pool of one frame. -/
def fresh_store : PageStore :=
  ⟨PoolSys.open 1 1 fun _ => Page.zero, ⟨0, 1, [], false⟩⟩

/-- Page 1 is written to and freed. -/
def freeing_calls : List (PageStoreCall × PoolIo) :=
  [(.new_page true true fun page => page.write 100 [5], quiet_io), (.free_page 1 true, quiet_io)]

/-- The page a call returned, and its byte 100. -/
def shown : Except PoolStop PoolReply → Option (PageId × UInt8)
  | .ok (.Wrote p seen _) => some (p, seen.byte 100)
  | _ => none

/-- Reading page 2 evicts page 1, which then comes back empty. -/
theorem new_page_zeroed_evicted :
    ∃ s r, Lib.run PageStore.step fresh_store (freeing_calls ++ [(.pool (.pin 2), quiet_io)]) =
        some s ∧ (s.new_page true true (fun page => page) quiet_io).2 = some r ∧
      s.sys.pool.lookup 1 = none ∧ r = .ok (.Wrote 1 Page.zero Page.zero) := by
  refine Lib.exists_of_bind_map_eq
    (fun (s : PageStore) r => (shown r, s.sys.pool.lookup 1)) (b := (some (1, 0), none))
    (by decide +kernel) fun s r hs hr hval => ?_
  obtain ⟨hshown, habsent⟩ := Prod.mk.inj hval
  refine ⟨habsent, ?_⟩
  match r, hshown with
  | .ok (.Wrote q seen' left), hshown =>
    obtain ⟨p, seen, hreply, hzero, -⟩ := new_page_zeroed 1 1 _ _ (le_refl 1)
      ⟨by decide, by decide⟩ hs _ _ _ _ hr
    obtain ⟨rfl, rfl, rfl⟩ := PoolReply.Wrote.inj hreply
    obtain rfl := (Prod.mk.inj (Option.some.inj hshown)).1
    rw [hzero habsent]

/-- A page that is freed and allocated again at once still shows its old bytes. -/
theorem new_page_stale :
    ∃ s r, Lib.run PageStore.step fresh_store freeing_calls = some s ∧
      (s.new_page true true (fun page => page) quiet_io).2 = some r ∧ shown r = some (1, 5) :=
  Lib.exists_of_bind_map_eq (fun _ r => shown r) (b := some (1, 5)) (by decide +kernel)
    fun _ _ _ _ hval => hval

end Ams
