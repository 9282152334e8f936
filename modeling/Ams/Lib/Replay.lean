/-
Replay of a log whose records may read and write several pages at once.

`Ams.Lib.Redo` treats a record as one action per page. Some logs save space by
recording less than that: what one page receives is recomputed at replay from
another page, as long as that other page is still in its old state. Such a record
needs the two pages to reach the disk in the right order, and the order is part of
the record here (`order`): whenever the first page of a pair is on disk at or past
the record, so is the second.

A system shows `LoggedPages` for each of its steps: over any mixture of pages in
which every touched page is either as it was before the step or already past the
record, redo brings the first kind to the state after the step and leaves the
second kind alone. `Journal` then holds along every run, and it says what recovery
needs: one pass over the log from any mixture of page images the run went through
ends in the final pages, and a second pass changes nothing.
-/
import Mathlib.Tactic

set_option autoImplicit false

namespace Ams.Lib

section Replay

variable {ι π ε : Type}

/-- A log record: its LSN, the pages it touches, the order in which they must
reach the disk, and its redo. -/
structure PagesRecord (ι π ε : Type) where
  lsn : ℕ
  pages : List ι
  order : List (ι × ι)
  redo : (ι → π) → Except ε (ι → π)

/-- Replay a log; the first error ends it. -/
def replay_pages : List (PagesRecord ι π ε) → (ι → π) → Except ε (ι → π)
  | [], pages => .ok pages
  | r :: rest, pages =>
    match r.redo pages with
    | .error e => .error e
    | .ok pages => replay_pages rest pages

theorem replay_pages_append {log : List (PagesRecord ι π ε)} {pages pages' : ι → π}
    (h : replay_pages log pages = .ok pages') (log' : List (PagesRecord ι π ε)) :
    replay_pages (log ++ log') pages = replay_pages log' pages' := by
  induction log generalizing pages with
  | nil =>
    cases h
    rfl
  | cons r rest ih =>
    rw [List.cons_append, replay_pages]
    rw [replay_pages] at h
    cases hr : r.redo pages with
    | error e => simp [hr] at h
    | ok mid =>
      simp only [hr] at h ⊢
      exact ih h

/-- Records that change nothing, replayed. -/
theorem replay_pages_skip {log : List (PagesRecord ι π ε)} {pages : ι → π}
    (h : ∀ r ∈ log, r.redo pages = .ok pages) : replay_pages log pages = .ok pages := by
  induction log with
  | nil => rfl
  | cons r rest ih =>
    rw [replay_pages, h r (.head _)]
    exact ih fun r' hr' => h r' (.tail _ hr')

/-- The pages reached the disk in the order the record asks for. -/
def PagesRecord.Ordered (lsnOf : π → ℕ) (r : PagesRecord ι π ε) (pages : ι → π) : Prop :=
  ∀ c ∈ r.order, r.lsn ≤ lsnOf (pages c.1) → r.lsn ≤ lsnOf (pages c.2)

/-- One logged step, from the pages `s` to the pages `t`. -/
structure LoggedPages (lsnOf : π → ℕ) (Agree : π → π → Prop) (s t : ι → π)
    (r : PagesRecord ι π ε) : Prop where
  before : ∀ i ∈ r.pages, lsnOf (s i) < r.lsn
  after : ∀ i ∈ r.pages, r.lsn ≤ lsnOf (t i)
  untouched : ∀ i, i ∉ r.pages → t i = s i
  order_mem : ∀ c ∈ r.order, c.1 ∈ r.pages ∧ c.2 ∈ r.pages
  redoes : ∀ m : ι → π, (∀ i ∈ r.pages, lsnOf (m i) < r.lsn → Agree (s i) (m i)) →
    r.Ordered lsnOf m →
    ∃ out, r.redo m = .ok out ∧
      (∀ i ∈ r.pages, lsnOf (m i) < r.lsn → Agree (t i) (out i)) ∧
      (∀ i, i ∉ r.pages ∨ r.lsn ≤ lsnOf (m i) → out i = m i)

variable {lsnOf : π → ℕ} {Agree : π → π → Prop} {s t : ι → π}

/-- A record that every page it touches already has does nothing. -/
theorem LoggedPages.skip {r : PagesRecord ι π ε} (h : LoggedPages lsnOf Agree s t r)
    {m : ι → π} (hm : ∀ i ∈ r.pages, r.lsn ≤ lsnOf (m i)) : r.redo m = .ok m := by
  obtain ⟨out, hout, -, hkept⟩ := h.redoes m
    (fun i hi hlt => absurd (hm i hi) (not_le.mpr hlt)) (fun c hc _ => hm c.2 (h.order_mem c hc).2)
  rw [hout]
  congr 1
  funext i
  apply hkept i
  by_cases hi : i ∈ r.pages
  · exact .inr (hm i hi)
  · exact .inl hi

/-- The log recovers the pages `s`: replayed over any mixture of page images the run
has `seen`, it yields pages that agree with `s`. A page that is newer than the log
is left as it is. -/
def RecoverablePages (lsnOf : π → ℕ) (Agree : π → π → Prop) (seen : List (ι → π))
    (log : List (PagesRecord ι π ε)) (last : ℕ) (s : ι → π) : Prop :=
  ∀ disk : ι → π, (∀ i, (∃ t ∈ seen, disk i = t i) ∨ last ≤ lsnOf (disk i)) →
    (∀ r ∈ log, r.Ordered lsnOf disk) →
    ∃ out, replay_pages log disk = .ok out ∧
      (∀ i, (∃ t ∈ seen, disk i = t i) → Agree (s i) (out i)) ∧
      (∀ i, last ≤ lsnOf (disk i) → out i = disk i)

variable {seen : List (ι → π)} {log : List (PagesRecord ι π ε)} {last : ℕ}

theorem RecoverablePages.start (hrefl : ∀ p, Agree p p) (s : ι → π) (last : ℕ) :
    RecoverablePages lsnOf Agree [s] ([] : List (PagesRecord ι π ε)) last s := by
  intro disk _ _
  refine ⟨disk, rfl, ?_, fun _ _ => rfl⟩
  rintro i ⟨t, ht, heq⟩
  rw [heq, List.mem_singleton.mp ht]
  exact hrefl _

/-- A step that logs nothing changes nothing. -/
theorem RecoverablePages.unlogged (h : RecoverablePages lsnOf Agree seen log last s)
    (hs : s ∈ seen) (hts : t = s) : RecoverablePages lsnOf Agree (seen ++ [t]) log last t := by
  subst hts
  have hsame : ∀ p : π, ∀ i, (∃ u ∈ seen ++ [t], p = u i) → ∃ u ∈ seen, p = u i := by
    rintro p i ⟨u, hu, heq⟩
    rcases List.mem_append.mp hu with hu | hu
    · exact ⟨u, hu, heq⟩
    · rw [List.mem_singleton.mp hu] at heq
      exact ⟨t, hs, heq⟩
  intro disk hdisk hord
  obtain ⟨out, hout, hpast, hnew⟩ := h disk (fun i => (hdisk i).imp_left (hsame _ i)) hord
  exact ⟨out, hout, fun i hi => hpast i (hsame _ i hi), hnew⟩

/-- **A logged step keeps the log sufficient.** -/
theorem RecoverablePages.logged (hrefl : ∀ p, Agree p p)
    (hlsn : ∀ p q, Agree p q → lsnOf q = lsnOf p)
    (h : RecoverablePages lsnOf Agree seen log last s) (hs : s ∈ seen) {r : PagesRecord ι π ε}
    (hr : LoggedPages lsnOf Agree s t r) (hlast : last < r.lsn) :
    RecoverablePages lsnOf Agree (seen ++ [t]) (log ++ [r]) r.lsn t := by
  intro disk hdisk hord
  -- a page image of `t` is an old one, or newer than the log before this step
  have hcase : ∀ i, (∃ u ∈ seen ++ [t], disk i = u i) →
      (∃ u ∈ seen, disk i = u i) ∨ (i ∈ r.pages ∧ disk i = t i) := by
    rintro i ⟨u, hu, heq⟩
    rcases List.mem_append.mp hu with hu | hu
    · exact .inl ⟨u, hu, heq⟩
    · rw [List.mem_singleton.mp hu] at heq
      by_cases hi : i ∈ r.pages
      · exact .inr ⟨hi, heq⟩
      · exact .inl ⟨s, hs, by rw [heq, hr.untouched i hi]⟩
  have htouched : ∀ i, i ∈ r.pages → disk i = t i → r.lsn ≤ lsnOf (disk i) := by
    intro i hi heq
    rw [heq]
    exact hr.after i hi
  obtain ⟨mid, hmid, hpast, hnew⟩ := h disk (fun i => by
    rcases hdisk i with hi | hi
    · rcases hcase i hi with hi | ⟨hi, heq⟩
      · exact .inl hi
      · exact .inr (le_trans (le_of_lt hlast) (htouched i hi heq))
    · exact .inr (le_trans (le_of_lt hlast) hi))
    fun r' hr' => hord r' (List.mem_append_left _ hr')
  have hnew' : ∀ i, r.lsn ≤ lsnOf (disk i) → mid i = disk i := fun i hi =>
    hnew i (le_trans (le_of_lt hlast) hi)
  -- a page that was not past the record on disk is a page replay has brought up to `s`
  have hlack : ∀ i, ¬ r.lsn ≤ lsnOf (disk i) → Agree (s i) (mid i) := by
    intro i hold
    rcases hdisk i with hi | hi
    · rcases hcase i hi with hi | ⟨hi, heq⟩
      · exact hpast i hi
      · exact absurd (htouched i hi heq) hold
    · exact absurd hi hold
  -- on the record's pages, replay of the earlier log has not moved a page past it
  have hiff : ∀ i ∈ r.pages, r.lsn ≤ lsnOf (mid i) → r.lsn ≤ lsnOf (disk i) := by
    intro i hi hle
    by_contra hold
    rw [hlsn _ _ (hlack i hold)] at hle
    exact absurd (hr.before i hi) (not_lt.mpr hle)
  have hback : ∀ i, r.lsn ≤ lsnOf (disk i) → r.lsn ≤ lsnOf (mid i) := by
    intro i hle
    rw [hnew' i hle]
    exact hle
  obtain ⟨out, hout, hdone, hkept⟩ := hr.redoes mid
    (fun i hi hlt => hlack i fun hle => absurd (hback i hle) (not_le.mpr hlt))
    fun c hc hle => hback c.2 (hord r (List.mem_append_right _ (.head _)) c hc
      (hiff c.1 (hr.order_mem c hc).1 hle))
  refine ⟨out, ?_, ?_, ?_⟩
  · rw [replay_pages_append hmid, replay_pages, hout]
    rfl
  · intro i hi
    by_cases hmem : i ∈ r.pages
    · by_cases hlt : lsnOf (mid i) < r.lsn
      · exact hdone i hmem hlt
      · -- it has the record, so it is the page of `t` itself
        have hle := hiff i hmem (not_lt.mp hlt)
        rw [hkept i (.inr (not_lt.mp hlt)), hnew' i hle]
        rcases hcase i hi with hold | ⟨-, heq⟩
        · exfalso
          apply hlt
          rw [hlsn _ _ (hpast i hold)]
          exact hr.before i hmem
        · rw [heq]
          exact hrefl _
    · rw [hkept i (.inl hmem), hr.untouched i hmem]
      rcases hcase i hi with hold | ⟨hmem', -⟩
      · exact hpast i hold
      · exact absurd hmem' hmem
  · intro i hle
    rw [hkept i (.inr (hback i hle)), hnew' i hle]

/-! ## The journal of a run -/

/-- What holds of the pages `s`, the log, and the pages `seen` so far. -/
structure Journal (lsnOf : π → ℕ) (Agree : π → π → Prop) (seen : List (ι → π))
    (log : List (PagesRecord ι π ε)) (last : ℕ) (s : ι → π) : Prop where
  mem : s ∈ seen
  recoverable : RecoverablePages lsnOf Agree seen log last s
  applied : ∀ r ∈ log, ∀ i ∈ r.pages, r.lsn ≤ lsnOf (s i)
  skips : ∀ r ∈ log, ∀ m : ι → π, (∀ i ∈ r.pages, r.lsn ≤ lsnOf (m i)) → r.redo m = .ok m
  bounded : ∀ r ∈ log, r.lsn ≤ last
  increasing : (log.map PagesRecord.lsn).Pairwise (· < ·)

theorem Journal.start (hrefl : ∀ p, Agree p p) (s : ι → π) (last : ℕ) :
    Journal lsnOf Agree [s] ([] : List (PagesRecord ι π ε)) last s where
  mem := List.mem_singleton_self s
  recoverable := RecoverablePages.start hrefl s last
  applied _ hr := absurd hr List.not_mem_nil
  skips _ hr := absurd hr List.not_mem_nil
  bounded _ hr := absurd hr List.not_mem_nil
  increasing := List.Pairwise.nil

theorem Journal.logged (hrefl : ∀ p, Agree p p) (hlsn : ∀ p q, Agree p q → lsnOf q = lsnOf p)
    (h : Journal lsnOf Agree seen log last s) {r : PagesRecord ι π ε}
    (hr : LoggedPages lsnOf Agree s t r) (hlast : last < r.lsn) :
    Journal lsnOf Agree (seen ++ [t]) (log ++ [r]) r.lsn t := by
  refine ⟨by simp, h.recoverable.logged hrefl hlsn h.mem hr hlast, ?_, ?_, ?_, ?_⟩
  · intro r' hr' i hi
    rcases List.mem_append.mp hr' with hr' | hr'
    · by_cases hmem : i ∈ r.pages
      · exact le_trans (le_trans (h.bounded r' hr') (le_of_lt hlast)) (hr.after i hmem)
      · rw [hr.untouched i hmem]
        exact h.applied r' hr' i hi
    · rw [List.mem_singleton.mp hr'] at hi ⊢
      exact hr.after i hi
  · intro r' hr' m hm
    rcases List.mem_append.mp hr' with hr' | hr'
    · exact h.skips r' hr' m hm
    · rw [List.mem_singleton.mp hr'] at hm ⊢
      exact hr.skip hm
  · intro r' hr'
    rcases List.mem_append.mp hr' with hr' | hr'
    · exact le_trans (h.bounded r' hr') (le_of_lt hlast)
    · rw [List.mem_singleton.mp hr']
  · rw [List.map_append, List.pairwise_append]
    refine ⟨h.increasing, List.pairwise_singleton _ _, fun a ha b hb => ?_⟩
    obtain ⟨r', hr', rfl⟩ := List.mem_map.mp ha
    obtain rfl := List.mem_singleton.mp hb
    exact lt_of_le_of_lt (h.bounded r' hr') hlast

/-- **Recovery.** From any mixture of page images the run has seen, flushed in the
order its records ask for, one pass over the log ends in the final pages. -/
theorem Journal.recovers (h : Journal lsnOf Agree seen log last s) {disk : ι → π}
    (hdisk : ∀ i, ∃ t ∈ seen, disk i = t i) (hord : ∀ r ∈ log, r.Ordered lsnOf disk) :
    ∃ out, replay_pages log disk = .ok out ∧ ∀ i, Agree (s i) (out i) := by
  obtain ⟨out, hout, hagree, -⟩ := h.recoverable disk (fun i => .inl (hdisk i)) hord
  exact ⟨out, hout, fun i => hagree i (hdisk i)⟩

/-- A further pass over any part of the log changes nothing. -/
theorem Journal.idempotent (hlsn : ∀ p q, Agree p q → lsnOf q = lsnOf p)
    (h : Journal lsnOf Agree seen log last s) {out : ι → π} (hout : ∀ i, Agree (s i) (out i))
    (k : ℕ) : replay_pages (log.take k) out = .ok out := by
  apply replay_pages_skip
  intro r hr
  have hmem := List.mem_of_mem_take hr
  apply h.skips r hmem
  intro i hi
  rw [hlsn _ _ (hout i)]
  exact h.applied r hmem i hi

end Replay

end Ams.Lib
