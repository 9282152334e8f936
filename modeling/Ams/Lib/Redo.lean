/-
Redo logging with a log sequence number on every page.

A record names the pages it changes and how to redo the change on each of them.
A page carries the LSN of the last record applied to it, and replay leaves a page
alone when it already carries the record's LSN or a later one. That guard is all
there is to crash recovery here: at a crash every page is on disk in some state it
went through, each page in its own, and one pass over the whole log brings all of
them to the end.

The pages, the record's actions and the errors are arbitrary. So is the agreement
`Agree` between the page a run produced and the page replay produces, because redo
need not restore every byte. What a system has to show is `Logged`, one step at a
time: the record's action, applied to a page that agrees with the page before the
step, succeeds and agrees with the page after it. `Recoverable` then holds along
every run.
-/
import Ams.Lib.Replay

set_option autoImplicit false

namespace Ams.Lib

section Redo

variable {ι π ε : Type} [DecidableEq ι]

/-- A log record: its LSN, and the pages it changes with the action on each. -/
structure LogRecord (ι π ε : Type) where
  lsn : ℕ
  changes : List (ι × (π → Except ε π))

/-- Redo one change, unless the page already has it. -/
def redo_page (lsnOf : π → ℕ) (lsn : ℕ) (change : ι × (π → Except ε π)) (pages : ι → π) :
    Except ε (ι → π) :=
  if lsn ≤ lsnOf (pages change.1) then .ok pages
  else
    match change.2 (pages change.1) with
    | .error e => .error e
    | .ok page => .ok (Function.update pages change.1 page)

/-- Redo the changes in order; the first error ends it. -/
def redo_changes (lsnOf : π → ℕ) (lsn : ℕ) :
    List (ι × (π → Except ε π)) → (ι → π) → Except ε (ι → π)
  | [], pages => .ok pages
  | change :: rest, pages =>
    match redo_page lsnOf lsn change pages with
    | .error e => .error e
    | .ok pages => redo_changes lsnOf lsn rest pages

/-- Replay a log. -/
def replay (lsnOf : π → ℕ) : List (LogRecord ι π ε) → (ι → π) → Except ε (ι → π)
  | [], pages => .ok pages
  | r :: rest, pages =>
    match redo_changes lsnOf r.lsn r.changes pages with
    | .error e => .error e
    | .ok pages => replay lsnOf rest pages

variable {lsnOf : π → ℕ}

/-- Changes to pages that already have them do nothing. -/
theorem redo_changes_skip {lsn : ℕ} {changes : List (ι × (π → Except ε π))} {pages : ι → π}
    (h : ∀ c ∈ changes, lsn ≤ lsnOf (pages c.1)) : redo_changes lsnOf lsn changes pages = .ok pages := by
  induction changes with
  | nil => rfl
  | cons c rest ih =>
    rw [redo_changes, redo_page, if_pos (h c (.head _))]
    exact ih fun d hd => h d (.tail _ hd)

/-- **Replay is idempotent** on pages that carry the LSN of every record on them. -/
theorem replay_skip {log : List (LogRecord ι π ε)} {pages : ι → π}
    (h : ∀ r ∈ log, ∀ c ∈ r.changes, r.lsn ≤ lsnOf (pages c.1)) :
    replay lsnOf log pages = .ok pages := by
  induction log with
  | nil => rfl
  | cons r rest ih =>
    rw [replay, redo_changes_skip (h r (.head _))]
    exact ih fun r' hr' => h r' (.tail _ hr')

/-- The changes of a record, page by page: each page that lacks the record gets its
own action and nothing else. -/
theorem redo_changes_ok {lsn : ℕ} {changes : List (ι × (π → Except ε π))} {pages : ι → π}
    (hnd : (changes.map Prod.fst).Nodup)
    (hok : ∀ c ∈ changes, lsnOf (pages c.1) < lsn → ∃ page, c.2 (pages c.1) = .ok page) :
    ∃ out, redo_changes lsnOf lsn changes pages = .ok out ∧
      (∀ c ∈ changes, lsnOf (pages c.1) < lsn → c.2 (pages c.1) = .ok (out c.1)) ∧
      (∀ i, (∀ c ∈ changes, c.1 = i → lsn ≤ lsnOf (pages i)) → out i = pages i) := by
  induction changes generalizing pages with
  | nil =>
    exact ⟨pages, rfl, fun c hc => absurd hc List.not_mem_nil, fun _ _ => rfl⟩
  | cons c rest ih =>
    rw [List.map_cons] at hnd
    obtain ⟨hfresh, hnd'⟩ := List.nodup_cons.mp hnd
    have hne : ∀ d ∈ rest, d.1 ≠ c.1 := fun d hd heq =>
      hfresh (heq ▸ List.mem_map_of_mem (f := Prod.fst) hd)
    -- the first change, whichever way it goes, leaves the other pages of the record
    obtain ⟨mid, hmid, hself, hother⟩ : ∃ mid, redo_page lsnOf lsn c pages = .ok mid ∧
        (lsnOf (pages c.1) < lsn → c.2 (pages c.1) = .ok (mid c.1)) ∧
        (∀ i, i ≠ c.1 ∨ lsn ≤ lsnOf (pages i) → mid i = pages i) := by
      by_cases hskip : lsn ≤ lsnOf (pages c.1)
      · refine ⟨pages, by rw [redo_page, if_pos hskip], fun h => ?_, fun _ _ => rfl⟩
        exact absurd h (not_lt.mpr hskip)
      · obtain ⟨page, hpage⟩ := hok c (.head _) (not_le.mp hskip)
        refine ⟨Function.update pages c.1 page, ?_, fun _ => ?_, fun i hi => ?_⟩
        · rw [redo_page, if_neg hskip, hpage]
        · rw [Function.update_self, hpage]
        · apply Function.update_of_ne
          rintro rfl
          rcases hi with hi | hi
          · exact hi rfl
          · exact hskip hi
    have hrest : ∀ d ∈ rest, mid d.1 = pages d.1 := fun d hd => hother d.1 (.inl (hne d hd))
    obtain ⟨out, hout, hdone, hkept⟩ := @ih mid hnd' fun d hd hlt => by
      rw [hrest d hd] at hlt ⊢
      exact hok d (.tail _ hd) hlt
    have hc : out c.1 = mid c.1 := hkept c.1 fun d hd heq => absurd heq (hne d hd)
    refine ⟨out, ?_, ?_, ?_⟩
    · rw [redo_changes, hmid]
      exact hout
    · intro d hd hlt
      rcases List.mem_cons.mp hd with rfl | hd
      · rw [hself hlt, hc]
      · have := hdone d hd (by rw [hrest d hd]; exact hlt)
        rwa [hrest d hd] at this
    · intro i hi
      have hmi : mid i = pages i := by
        apply hother i
        by_cases h : i = c.1
        · exact .inr (hi c (.head _) h.symm)
        · exact .inl h
      rw [← hmi]
      apply hkept i
      intro d hd heq
      rw [hmi]
      exact hi d (.tail _ hd) heq

/-- One logged step, from the pages `s` to the pages `t`. -/
structure Logged (lsnOf : π → ℕ) (Agree : π → π → Prop) (s t : ι → π) (r : LogRecord ι π ε) :
    Prop where
  distinct : (r.changes.map Prod.fst).Nodup
  before : ∀ c ∈ r.changes, lsnOf (s c.1) < r.lsn
  after : ∀ c ∈ r.changes, lsnOf (t c.1) = r.lsn
  redoes : ∀ c ∈ r.changes, ∀ q, Agree (s c.1) q → ∃ q', c.2 q = .ok q' ∧ Agree (t c.1) q'
  untouched : ∀ i, i ∉ r.changes.map Prod.fst → t i = s i

/-- The log recovers the pages `s`: replayed over any mixture of page images the run
has `seen`, it yields pages that agree with `s`. A page that is newer than the log
is left as it is. -/
def Recoverable (lsnOf : π → ℕ) (Agree : π → π → Prop) (seen : List (ι → π))
    (log : List (LogRecord ι π ε)) (last : ℕ) (s : ι → π) : Prop :=
  ∀ disk : ι → π, (∀ i, (∃ t ∈ seen, disk i = t i) ∨ last ≤ lsnOf (disk i)) →
    ∃ out, replay lsnOf log disk = .ok out ∧
      (∀ i, (∃ t ∈ seen, disk i = t i) → Agree (s i) (out i)) ∧
      (∀ i, last ≤ lsnOf (disk i) → out i = disk i)

/-! ## As records over all pages -/

/-- The record as a record over all pages, with no order asked of them. -/
def LogRecord.toPages (lsnOf : π → ℕ) (r : LogRecord ι π ε) : PagesRecord ι π ε :=
  ⟨r.lsn, r.changes.map Prod.fst, [], redo_changes lsnOf r.lsn r.changes⟩

theorem replay_eq (log : List (LogRecord ι π ε)) (pages : ι → π) :
    replay lsnOf log pages = replay_pages (log.map (LogRecord.toPages lsnOf)) pages := by
  induction log generalizing pages with
  | nil => rfl
  | cons r rest ih =>
    rw [replay, List.map_cons, replay_pages]
    cases hr : redo_changes lsnOf r.lsn r.changes pages with
    | error e => simp only [LogRecord.toPages, hr]
    | ok mid =>
      simp only [LogRecord.toPages, hr]
      exact ih mid

variable {Agree : π → π → Prop} {seen : List (ι → π)} {log : List (LogRecord ι π ε)} {last : ℕ}
  {s t : ι → π}

/-- Changes page by page, each of which takes its page from `s` to `t`, make a logged
step. -/
theorem loggedPages_of_changes {r : LogRecord ι π ε} (hnd : (r.changes.map Prod.fst).Nodup)
    (hbefore : ∀ c ∈ r.changes, lsnOf (s c.1) < r.lsn)
    (hafter : ∀ c ∈ r.changes, r.lsn ≤ lsnOf (t c.1))
    (hredoes : ∀ c ∈ r.changes, ∀ q, Agree (s c.1) q → ∃ q', c.2 q = .ok q' ∧ Agree (t c.1) q')
    (huntouched : ∀ i, i ∉ r.changes.map Prod.fst → t i = s i) :
    LoggedPages lsnOf Agree s t (r.toPages lsnOf) where
  before i hi := by
    obtain ⟨c, hc, rfl⟩ := List.mem_map.mp hi
    exact hbefore c hc
  after i hi := by
    obtain ⟨c, hc, rfl⟩ := List.mem_map.mp hi
    exact hafter c hc
  untouched := huntouched
  order_mem c hc := absurd hc List.not_mem_nil
  redoes m hm _ := by
    have hmem : ∀ c ∈ r.changes, c.1 ∈ (r.toPages lsnOf).pages := fun c hc =>
      List.mem_map_of_mem (f := Prod.fst) hc
    obtain ⟨out, hout, hdone, hkept⟩ := @redo_changes_ok ι π ε _ lsnOf r.lsn r.changes m hnd
      fun c hc hlt => by
        obtain ⟨q', hq', -⟩ := hredoes c hc _ (hm c.1 (hmem c hc) hlt)
        exact ⟨q', hq'⟩
    refine ⟨out, hout, ?_, ?_⟩
    · intro i hi hlt
      obtain ⟨c, hc, rfl⟩ := List.mem_map.mp hi
      obtain ⟨q', hq', hag⟩ := hredoes c hc _ (hm c.1 hi hlt)
      have hself := hdone c hc hlt
      rw [hq'] at hself
      rwa [← Except.ok.inj hself]
    · intro i hi
      apply hkept i
      rintro c hc rfl
      rcases hi with hi | hi
      · exact absurd (hmem c hc) hi
      · exact hi

theorem Logged.toPages {r : LogRecord ι π ε} (h : Logged lsnOf Agree s t r) :
    LoggedPages lsnOf Agree s t (r.toPages lsnOf) :=
  loggedPages_of_changes h.distinct h.before (fun c hc => le_of_eq (h.after c hc).symm) h.redoes
    h.untouched

theorem recoverable_iff : Recoverable lsnOf Agree seen log last s ↔
    RecoverablePages lsnOf Agree seen (log.map (LogRecord.toPages lsnOf)) last s := by
  unfold Recoverable RecoverablePages
  constructor
  · intro h disk hdisk _
    rw [← replay_eq]
    exact h disk hdisk
  · intro h disk hdisk
    rw [replay_eq]
    apply h disk hdisk
    intro r hr c hc
    obtain ⟨r', -, rfl⟩ := List.mem_map.mp hr
    exact absurd hc List.not_mem_nil

theorem Recoverable.start (hrefl : ∀ p, Agree p p) (s : ι → π) (last : ℕ) :
    Recoverable lsnOf Agree [s] ([] : List (LogRecord ι π ε)) last s :=
  recoverable_iff.mpr (RecoverablePages.start hrefl s last)

/-- A step that logs nothing changes nothing. -/
theorem Recoverable.unlogged (h : Recoverable lsnOf Agree seen log last s) (hs : s ∈ seen)
    (hts : t = s) : Recoverable lsnOf Agree (seen ++ [t]) log last t :=
  recoverable_iff.mpr ((recoverable_iff.mp h).unlogged hs hts)

/-- **A logged step keeps the log sufficient.** -/
theorem Recoverable.logged (hrefl : ∀ p, Agree p p) (hlsn : ∀ p q, Agree p q → lsnOf q = lsnOf p)
    (h : Recoverable lsnOf Agree seen log last s) (hs : s ∈ seen) {r : LogRecord ι π ε}
    (hr : Logged lsnOf Agree s t r) (hlast : last < r.lsn) :
    Recoverable lsnOf Agree (seen ++ [t]) (log ++ [r]) r.lsn t := by
  rw [recoverable_iff, List.map_append]
  exact (recoverable_iff.mp h).logged hrefl hlsn hs hr.toPages hlast

end Redo

end Ams.Lib
