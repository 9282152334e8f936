/-
The level stream of the page-resident index: the alloc section of `HnswIndex::insert_impl` and
the skip-ahead of `open` (pg-am-hnsw/index.rs), with the generator of rng.rs.

A level is drawn before the page and log operations of an insert, any of which may fail; the node
exists once its DirAppend is logged. `open` puts a new generator behind as many draws as the
directory has entries. Records that neither fill an entry nor extend the directory are left out,
and so are the calls that fail before the draw.
-/
import Ams.HnswTypes
import Ams.Lib.Run

set_option autoImplicit false

namespace Ams.HnswAm

open Ams.Lib

/-! ## The generator -/

structure Xoshiro256StarStar where
  s0 : UInt64
  s1 : UInt64
  s2 : UInt64
  s3 : UInt64

def rotate_left (x n : UInt64) : UInt64 := x <<< n ||| x >>> (64 - n)

/-- An output of splitmix64 and the state behind it. -/
def SplitMix64.next_u64 (x : UInt64) : UInt64 × UInt64 :=
  let x := x + 0x9e3779b97f4a7c15
  let z := (x ^^^ x >>> 30) * 0xbf58476d1ce4e5b9
  let z := (z ^^^ z >>> 27) * 0x94d049bb133111eb
  (z ^^^ z >>> 31, x)

namespace Xoshiro256StarStar

def new (seed : UInt64) : Xoshiro256StarStar :=
  let a := SplitMix64.next_u64 seed
  let b := SplitMix64.next_u64 a.2
  let c := SplitMix64.next_u64 b.2
  let d := SplitMix64.next_u64 c.2
  ⟨a.1, b.1, c.1, d.1⟩

def next_u64 (x : Xoshiro256StarStar) : UInt64 × Xoshiro256StarStar :=
  let s2 := x.s2 ^^^ x.s0
  let s3 := x.s3 ^^^ x.s1
  (rotate_left (x.s1 * 5) 7 * 9,
    ⟨x.s0 ^^^ s3, x.s1 ^^^ s2, s2 ^^^ x.s1 <<< 17, rotate_left s3 45⟩)

/-- With `u = k / 2^53` the level is `⌊-ln u / ln m⌋`. A zero is drawn again, `redraws` times at
most. -/
def next_level (m : ℕ) : ℕ → Xoshiro256StarStar → ℕ × Xoshiro256StarStar
  | redraws, x =>
    let (r, x) := x.next_u64
    let k := (r >>> 11).toNat
    match redraws with
    | redraws + 1 => if k = 0 then next_level m redraws x else (Nat.log m (2 ^ 53 / k), x)
    | 0 => (Nat.log m (2 ^ 53 / k), x)

end Xoshiro256StarStar

/-! ## Log and pages -/

/-- An entry is a slot of a node page. -/
inductive LevelRecord where
  | NodeInit (entry : PageId × ℕ) (node : NodeId) (level : ℕ)
  | DirAppend (node : NodeId) (entry : PageId × ℕ)

structure LevelPages where
  entries : PageId × ℕ → Option (NodeId × ℕ)
  dir : List (PageId × ℕ)

/-- `dir_append` takes the next position only. -/
def LevelPages.apply (p : LevelPages) : LevelRecord → LevelPages
  | .NodeInit entry node level =>
    { p with entries := Function.update p.entries entry (some (node, level)) }
  | .DirAppend node entry => if node = p.dir.length then { p with dir := p.dir ++ [entry] } else p

def level_pages (log : List LevelRecord) : LevelPages := log.foldl .apply ⟨fun _ => none, []⟩

/-! ## Handles -/

/-- The log, and what the open handle keeps. -/
structure LevelSys (R : Type*) where
  log : List LevelRecord
  hwm : ℕ
  rng : R
  /-- An insert through this handle failed behind its draw. -/
  failed : Bool

inductive LevelOp where
  /-- `landed` of the two records are in the log when the alloc section is left; `ok` says whether
  it has moved `hwm`. What the insert does then changes neither. -/
  | insert (entry : PageId × ℕ) (landed : ℕ) (ok : Bool)
  /-- A crash that keeps this many records, if there are more, and `open`. -/
  | reopen (kept : ℕ)

/-- A generator with its seeded state. -/
structure LevelGen (R : Type*) where
  start : R
  next_level : R → ℕ × R

section Stream

variable {R : Type*} (g : LevelGen R)

/-- The state behind `n` draws. -/
def LevelGen.skip (n : ℕ) : R := (fun r => (g.next_level r).2)^[n] g.start

def LevelGen.draw (i : ℕ) : ℕ := (g.next_level (g.skip i)).1

def open_levels (log : List LevelRecord) : LevelSys R where
  log := log
  hwm := (level_pages log).dir.length
  rng := g.skip (level_pages log).dir.length
  failed := false

/-- `select_slot` gives a slot that is not in use. -/
def LevelSys.step (s : LevelSys R) : LevelOp → Option (LevelSys R)
  | .insert entry landed ok =>
    if s.hwm = 4294967295 then some s
    else if (level_pages s.log).entries entry = none ∧ (ok = true → 2 ≤ landed) then
      let level := (g.next_level s.rng).1
      some {
        log := s.log ++ [.NodeInit entry s.hwm level, .DirAppend s.hwm entry].take landed
        hwm := if ok then s.hwm + 1 else s.hwm
        rng := (g.next_level s.rng).2
        failed := s.failed || !ok }
    else none
  | .reopen kept => some (open_levels g (s.log.take kept))

/-- An insert does not follow a failed one on the same handle. -/
def LevelSys.Reopened (s : LevelSys R) : LevelOp → Prop
  | .insert _ _ _ => s.failed = false
  | .reopen _ => True

/-- Nodes have the draws of their positions. -/
def LevelPages.Aligned (p : LevelPages) : Prop :=
  ∀ i e, p.dir[i]? = some e → p.entries e = some (i, g.draw i)

/-- A crash may take the log back to any of its prefixes. -/
structure LevelInv (s : LevelSys R) : Prop where
  aligned : ∀ log, log <+: s.log → (level_pages log).Aligned g
  handle : s.failed = false → s.hwm = (level_pages s.log).dir.length ∧ s.rng = g.skip s.hwm

variable {g} {s t : LevelSys R} {p : LevelPages} {entry : PageId × ℕ} {n : ℕ}

theorem LevelPages.Aligned.node_init (hp : p.Aligned g) (hfree : p.entries entry = none)
    (node : NodeId) (level : ℕ) : (p.apply (.NodeInit entry node level)).Aligned g := by
  intro i e he
  have hold := hp i e he
  have hne : e ≠ entry := by
    rintro rfl
    exact absurd (hold.symm.trans hfree) (Option.some_ne_none _)
  exact (Function.update_of_ne hne _ _).trans hold

/-- **The record that makes the node.** -/
theorem LevelPages.Aligned.dir_append (hp : p.Aligned g) (hn : n = p.dir.length)
    (hentry : p.entries entry = some (n, g.draw n)) :
    (p.apply (.DirAppend n entry)).Aligned g := by
  intro i e he
  rw [LevelPages.apply, if_pos hn] at he ⊢
  change (p.dir ++ [entry])[i]? = some e at he
  change p.entries e = _
  rcases lt_trichotomy i p.dir.length with hi | hi | hi
  · rw [List.getElem?_append_left hi] at he
    exact hp i e he
  · rw [hi, List.getElem?_concat_length, Option.some.injEq] at he
    rw [← he, hentry, hn, hi]
  · have hlt := (List.getElem?_eq_some_iff.mp he).1
    rw [List.length_append, List.length_singleton] at hlt
    omega

theorem level_pages_concat (log : List LevelRecord) (r : LevelRecord) :
    level_pages (log ++ [r]) = (level_pages log).apply r := List.foldl_concat ..

/-- **The records of an insert** through a handle that is at the next node's draw. The pages are
aligned behind each, so the insert may stop anywhere. -/
theorem aligned_insert {log : List LevelRecord} (hn : n = (level_pages log).dir.length)
    (hlog : ∀ l, l <+: log → (level_pages l).Aligned g)
    (hfree : (level_pages log).entries entry = none) :
    ∀ l, l <+: log ++ [.NodeInit entry n (g.draw n)] ++ [.DirAppend n entry] →
      (level_pages l).Aligned g := by
  have hinit := (hlog log List.prefix_rfl).node_init hfree n (g.draw n)
  intro l hl
  rcases List.prefix_concat_iff.mp hl with rfl | hl
  · rw [level_pages_concat, level_pages_concat]
    exact hinit.dir_append hn (Function.update_self ..)
  rcases List.prefix_concat_iff.mp hl with rfl | hl
  · rw [level_pages_concat]
    exact hinit
  · exact hlog l hl

theorem LevelInv.step {op : LevelOp} (hs : LevelInv g s) (hop : s.Reopened op)
    (hst : LevelSys.step g s op = some t) : LevelInv g t := by
  cases op with
  | reopen kept =>
    obtain rfl := Option.some.inj hst
    refine ⟨fun l hl => ?_, fun _ => ⟨rfl, rfl⟩⟩
    exact hs.aligned l (hl.trans (List.take_prefix kept s.log))
  | insert entry landed ok =>
    dsimp only [LevelSys.step] at hst
    split at hst
    · exact Option.some.inj hst ▸ hs
    obtain ⟨⟨hfree, hlanded⟩, rfl⟩ := guarded hst
    obtain ⟨hhwm, hrng⟩ := hs.handle hop
    have hlevel : (g.next_level s.rng).1 = g.draw s.hwm := by rw [hrng]; rfl
    rw [hlevel]
    refine ⟨fun l hl => ?_, fun hok => ?_⟩
    · refine aligned_insert hhwm hs.aligned hfree l ?_
      rw [List.append_assoc]
      exact hl.trans ((List.prefix_append_right_inj _).mpr (List.take_prefix ..))
    · -- the node is there, and the generator behind its draw
      obtain rfl : ok = true := by simpa [show s.failed = false from hop] using hok
      rw [List.take_of_length_le (hlanded rfl)]
      refine ⟨?_, ?_⟩
      · simp [level_pages, LevelPages.apply, List.foldl_append, hhwm]
      · rw [if_pos rfl, LevelGen.skip, Function.iterate_succ_apply', hrng]
        rfl

/-- **Level stream.** When no insert follows a failed one on the same handle, the level of node
`i` is the `i`-th draw, through any failures, crashes and reopenings. -/
theorem level_stream_aligned {ops : List LevelOp}
    (hops : AllSteps (LevelSys.step g) LevelSys.Reopened (open_levels g []) ops)
    (hrun : run (LevelSys.step g) (open_levels g []) ops = some s) {i : NodeId} {e : PageId × ℕ}
    (he : (level_pages s.log).dir[i]? = some e) :
    (level_pages s.log).entries e = some (i, g.draw i) := by
  have hnil : ∀ l, l <+: [] → (level_pages l).Aligned g := by
    intro l hl i e he
    rw [List.prefix_nil.mp hl] at he
    simp [level_pages] at he
  have hs := run_invariant_of_allSteps _ (LevelInv g) (fun _ _ _ hs hop hst => hs.step hop hst)
    ⟨hnil, fun _ => ⟨rfl, rfl⟩⟩ hops hrun
  exact hs.aligned s.log List.prefix_rfl i e he

end Stream

/-- A failed insert leaves an entry that no node gets, and the reopened index draws again. -/
theorem level_stream_aligned_after_failure :
    (level_pages [.NodeInit (1, 0) 0 7, .NodeInit (1, 1) 0 7, .DirAppend 0 (1, 1)]).entries (1, 1) =
      some (0, LevelGen.draw ⟨7, fun n : ℕ => (n, n + 1)⟩ 0) :=
  @level_stream_aligned ℕ ⟨7, fun n => (n, n + 1)⟩ ⟨_, 1, 8, false⟩
    [.insert (1, 0) 1 false, .reopen 1, .insert (1, 1) 2 true]
    ⟨rfl, fun _ _ => ⟨trivial, fun _ h => ⟨Option.some.inj h ▸ rfl, fun _ _ => trivial⟩⟩⟩ rfl 0
    (1, 1) rfl

def seed_42 : LevelGen Xoshiro256StarStar :=
  ⟨.new 42, Xoshiro256StarStar.next_level 2 0⟩

/-- **The stream shifts.** With seed 42 and `m = 2` the first insert fails at its first page, the
second succeeds, and node 0 gets the second draw. -/
theorem level_stream_shifted :
    ∃ s, run (LevelSys.step seed_42) (open_levels seed_42 [])
        [.insert (1, 0) 0 false, .insert (1, 0) 2 true] = some s ∧
      (level_pages s.log).dir[0]? = some (1, 0) ∧
      (level_pages s.log).entries (1, 0) = some (0, 1) ∧ seed_42.draw 0 = 3 := by
  refine ⟨_, rfl, rfl, ?_, ?_⟩
  · decide
  · decide

end Ams.HnswAm
