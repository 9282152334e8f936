/-
Checkpoint completeness: what the frames, the evictor and the checkpoint keep.

Two arguments meet in the invariant. A frame's: each record of its page is durable, or the
frame is dirty, or a flush that will write it or has written it is on the way
(`FrameOk.covered`). And the one about `flush_gen`/`synced_gen`, by which a flush skips
its own fsync: what a generation up to `synced_gen` wrote is durable (`Covers`). The
checkpoint adds that a page with a record before the redo point is durable or still ahead
of it, in the frames to scan or in the list to flush (`CkptOk`); a frame that is claimed
and clean is the one way to lose a page there.

Almost every step changes one frame and keeps its page, and `Inv.moves` reduces those to
that frame; the evictor's remapping is `Inv.remaps`.
-/
import Ams.Checkpoint

set_option autoImplicit false

namespace Ams

open Ams.Lib
open Function (update update_self update_of_ne)

/-! ## The invariant -/

namespace CkptPool

/-- The images of the generations up to `gen` that still look at `synced_gen` are in `d`. -/
def Covers (s : CkptPool) (gen : ℕ) (d : PageId → ℕ) : Prop :=
  ∀ f owner img my_gen, (s.frames f).flushing = some ⟨owner, .Bumped img my_gen⟩ →
    my_gen ≤ gen → img ≤ d (s.frames f).page_id

/-- What a flush of page `p` has established at each stage. -/
def StageOk (s : CkptPool) (p : PageId) : FlushStage → Prop
  | .Claimed => True
  | .Written img | .Checked img => img ≤ s.written p
  | .Bumped img my_gen => img ≤ s.written p ∧ my_gen ≤ s.flush_gen
  | .Covering img covered => img ≤ s.written p ∧ covered ≤ s.flush_gen
  | .Syncing img covered snap =>
    img ≤ snap p ∧ (∀ q, snap q ≤ s.written q) ∧ covered ≤ s.flush_gen ∧ s.Covers covered snap
  | .Synced img covered => img ≤ s.durable p ∧ covered ≤ s.flush_gen ∧ s.Covers covered s.durable
  | .Durable img => img ≤ s.durable p

/-- A frame against the log and the data file. -/
structure FrameOk (s : CkptPool) (r : CkptFrame) : Prop where
  guards : r.guards ≤ r.pin_count
  empty : r.page_id = PageId.INVALID → r.pin_count = 0 ∧ r.dirty = false ∧ r.flushing = none
  marked : r.writer = .Marked ∨ (∃ lsn, r.writer = .Appended lsn) →
    r.dirty = true ∨ ∃ owner, r.flushing = some ⟨owner, .Claimed⟩
  content : r.page_id ≠ PageId.INVALID → s.written r.page_id ≤ r.content
  applied : ∀ lsn, (r.page_id, lsn) ∈ s.records → lsn ≤ r.content ∨ r.writer = .Appended lsn
  covered : ∀ lsn, (r.page_id, lsn) ∈ s.records → lsn ≤ s.durable r.page_id ∨ r.dirty = true ∨
    ∃ c, r.flushing = some c ∧ ∀ img, c.stage.image = some img → lsn ≤ img

structure TableOk (s : CkptPool) : Prop where
  mapped : ∀ p f, s.page_table p = some f → (s.frames f).page_id = p ∧ p ≠ PageId.INVALID
  resident : ∀ f, (s.frames f).page_id ≠ PageId.INVALID →
    s.page_table (s.frames f).page_id = some f ∨ s.evictor = .Unmapped f
  unmapped : ∀ f, s.evictor = .Unmapped f → s.page_table (s.frames f).page_id = none
  bounded : ∀ f, (s.frames f).page_id ≠ PageId.INVALID → f < s.frame_count

/-- No dirty epoch is open or claimed. -/
def Clean (r : CkptFrame) : Prop := r.dirty = false ∧ r.flushing = none

def Victim (r : CkptFrame) : Prop := r.evicting = true ∧ r.pin_count = 0

/-- The evictor at `e` and the frame it has taken. -/
def EvictFrame (r : CkptFrame) : EvictPc → Prop
  | .Idle => True
  | .Chosen _ dirty => Victim r ∧ (dirty = false → Clean r)
  | .Flushing _ => Victim r ∧ r.dirty = false ∧ ∃ stage, r.flushing = some ⟨.Evictor, stage⟩
  | .Restoring _ => Victim r
  | .Ready _ | .Unmapped _ => Victim r ∧ Clean r
  | .Empty _ => r.page_id = PageId.INVALID

def EvictOk (s : CkptPool) : Prop :=
  ∀ f, s.evictor.frame = some f → f < s.frame_count ∧ EvictFrame (s.frames f) s.evictor

/-- The records of a page before `b` are on disk. -/
def Safe (s : CkptPool) (b : ℕ) (p : PageId) : Prop :=
  ∀ lsn, (p, lsn) ∈ s.records → lsn < b → lsn ≤ s.durable p

/-- The checkpoint's own flush will write, or has written, what it was started for. -/
def OwnFlush (s : CkptPool) (b f : ℕ) : Prop :=
  ∃ stage, (s.frames f).flushing = some ⟨.Checkpoint, stage⟩ ∧
    ∀ img, stage.image = some img →
      ∀ lsn, ((s.frames f).page_id, lsn) ∈ s.records → lsn < b → lsn ≤ img

/-- A page is safe, or the checkpoint has still to come to it. -/
def CkptOk (s : CkptPool) : Prop :=
  match s.ckpt with
  | .Idle | .Aborted => True
  | .Scanning b i ps =>
    b ≤ s.clock ∧ ∀ p, s.Safe b p ∨ p ∈ ps ∨ ∃ f, i ≤ f ∧ (s.frames f).page_id = p
  | .Flushing b ps => b ≤ s.clock ∧ ∀ p, s.Safe b p ∨ p ∈ ps
  | .Waiting b f ps => b ≤ s.clock ∧ ∀ p, s.Safe b p ∨ p ∈ ps ∨ (s.frames f).page_id = p
  | .Own b f ps =>
    b ≤ s.clock ∧ s.OwnFlush b f ∧ ∀ p, s.Safe b p ∨ p ∈ ps ∨ (s.frames f).page_id = p
  | .Done b => b ≤ s.clock ∧ ∀ p, s.Safe b p

structure Inv (s : CkptPool) : Prop where
  frames : ∀ f, FrameOk s (s.frames f)
  stages : ∀ f c, (s.frames f).flushing = some c → s.StageOk (s.frames f).page_id c.stage
  durable_le : ∀ p, s.durable p ≤ s.written p
  synced_le : s.synced_gen ≤ s.flush_gen
  synced : s.Covers s.synced_gen s.durable
  logged : ∀ p lsn, (p, lsn) ∈ s.records → p ≠ PageId.INVALID ∧ lsn < s.clock
  absent : ∀ p lsn, (p, lsn) ∈ s.records →
    (∃ f, (s.frames f).page_id = p) ∨ lsn ≤ s.durable p
  table : TableOk s
  evict : EvictOk s
  evictor_flush : ∀ f stage, (s.frames f).flushing = some ⟨.Evictor, stage⟩ →
    s.evictor = .Flushing f
  ckpt_flush : ∀ f stage, (s.frames f).flushing = some ⟨.Checkpoint, stage⟩ →
    ∃ b ps, s.ckpt = .Own b f ps
  ckpt : CkptOk s

/-! ### Steps that keep every frame's page

All steps but the three of `evict_frame` that remap a frame change one frame and keep its
page. `Moves` is what the rest of the pool sees of such a step. -/

structure Moves (s t : CkptPool) (f : ℕ) : Prop where
  others : ∀ g, g ≠ f → t.frames g = s.frames g
  page : (t.frames f).page_id = (s.frames f).page_id
  frame_count : t.frame_count = s.frame_count
  page_table : t.page_table = s.page_table
  durable : ∀ p, s.durable p ≤ t.durable p
  written : ∀ p, s.written p ≤ t.written p
  written_eq : ∀ p, p ≠ (s.frames f).page_id → t.written p = s.written p
  flush_gen : s.flush_gen ≤ t.flush_gen
  bumped : ∀ owner img my_gen, (t.frames f).flushing = some ⟨owner, .Bumped img my_gen⟩ →
    (s.frames f).flushing = some ⟨owner, .Bumped img my_gen⟩ ∨ s.flush_gen < my_gen
  clock : s.clock ≤ t.clock
  records : ∀ p lsn, (p, lsn) ∈ t.records → (p, lsn) ∈ s.records ∨
    p = (s.frames f).page_id ∧ p ≠ PageId.INVALID ∧ s.clock ≤ lsn ∧ lsn < t.clock

section Moves

variable {s t : CkptPool} {f g b c : ℕ} {p : PageId} {d : PageId → ℕ} {r : CkptFrame}

/-- A frame's own condition reads the log and the data file alone. -/
theorem FrameOk.of_eq (h : FrameOk s r) (hw : t.written = s.written) (hd : t.durable = s.durable)
    (hrec : t.records = s.records) : FrameOk t r :=
  ⟨h.guards, h.empty, h.marked, by rw [hw]; exact h.content, by rw [hrec]; exact h.applied,
    by rw [hrec, hd]; exact h.covered⟩

/-- With no record to stamp the content has every record. -/
theorem FrameOk.content_of_ne (h : FrameOk s r) (hw : ∀ lsn, r.writer ≠ .Appended lsn) {lsn : ℕ}
    (hlsn : (r.page_id, lsn) ∈ s.records) : lsn ≤ r.content :=
  (h.applied lsn hlsn).resolve_right (hw lsn)

theorem FrameOk.free_of_unpinned (h : FrameOk s r) (hpin : r.pin_count = 0) : r.writer = .Free := by
  have hguards := h.guards
  by_contra hne
  simp only [CkptFrame.guards, if_neg hne] at hguards
  omega

theorem Inv.evict_at (h : Inv s) {e : EvictPc} (hev : s.evictor = e) (hf : e.frame = some f) :
    f < s.frame_count ∧ EvictFrame (s.frames f) e := by
  subst hev
  exact h.evict f hf

theorem evictOk_of_frame (hf : s.evictor.frame = some f) (hlt : f < s.frame_count)
    (hframe : EvictFrame (s.frames f) s.evictor) : EvictOk s := by
  intro g hg
  rw [hf, Option.some.injEq] at hg
  exact hg ▸ ⟨hlt, hframe⟩

@[simp] theorem modify_frames_self (k : CkptFrame → CkptFrame) :
    (s.modify f k).frames f = k (s.frames f) :=
  update_self _ _ _

theorem modify_frames_of_ne (k : CkptFrame → CkptFrame) (hg : g ≠ f) :
    (s.modify f k).frames g = s.frames g :=
  update_of_ne hg _ _

theorem Moves.page_eq (m : Moves s t f) (g : ℕ) : (t.frames g).page_id = (s.frames g).page_id := by
  by_cases hg : g = f
  · rw [hg, m.page]
  · rw [m.others g hg]

theorem Covers.moves (h : s.Covers c d) (m : Moves s t f) (hc : c ≤ s.flush_gen) :
    t.Covers c d := by
  intro g owner img my_gen hflush hgen
  rw [m.page_eq]
  by_cases hg : g = f
  · subst hg
    rcases m.bumped owner img my_gen hflush with hold | hnew
    · exact h g owner img my_gen hold hgen
    · omega
  · rw [m.others g hg] at hflush
    exact h g owner img my_gen hflush hgen

theorem Covers.mono {d' : PageId → ℕ} (h : s.Covers c d) (hd : ∀ p, d p ≤ d' p) :
    s.Covers c d' := by
  intro g owner img my_gen hflush hgen
  exact (h g owner img my_gen hflush hgen).trans (hd _)

theorem StageOk.moves {stage : FlushStage} (h : s.StageOk p stage) (m : Moves s t f) :
    t.StageOk p stage := by
  have hw := m.written p
  have hd := m.durable p
  have hg := m.flush_gen
  cases stage with
  | Claimed => trivial
  | Written img => exact le_trans h hw
  | Checked img => exact le_trans h hw
  | Bumped img my_gen => exact ⟨h.1.trans hw, h.2.trans hg⟩
  | Covering img covered => exact ⟨h.1.trans hw, h.2.trans hg⟩
  | Syncing img covered snap =>
    obtain ⟨himg, hsnap, hcovered, hcovers⟩ := h
    exact ⟨himg, fun q => (hsnap q).trans (m.written q), hcovered.trans hg,
      hcovers.moves m hcovered⟩
  | Synced img covered =>
    obtain ⟨himg, hcovered, hcovers⟩ := h
    exact ⟨himg.trans hd, hcovered.trans hg, (hcovers.moves m hcovered).mono m.durable⟩
  | Durable img => exact le_trans h hd

theorem Safe.moves (h : s.Safe b p) (m : Moves s t f) (hb : b ≤ s.clock) : t.Safe b p := by
  intro lsn hrecord hlsn
  rcases m.records p lsn hrecord with hold | ⟨-, -, hnew, -⟩
  · exact (h lsn hold hlsn).trans (m.durable p)
  · omega

/-- Two frames hold different pages. -/
theorem TableOk.unique (h : TableOk s) (hf : (s.frames f).page_id ≠ PageId.INVALID)
    (heq : (s.frames g).page_id = (s.frames f).page_id) : g = f := by
  have hg : (s.frames g).page_id ≠ PageId.INVALID := by rwa [heq]
  rcases h.resident f hf with hmf | huf <;> rcases h.resident g hg with hmg | hug
  · rw [heq, hmf, Option.some.injEq] at hmg
    exact hmg.symm
  · have hnone := h.unmapped g hug
    rw [heq, hmf] at hnone
    simp at hnone
  · have hnone := h.unmapped f huf
    rw [← heq, hmg] at hnone
    simp at hnone
  · rw [huf, EvictPc.Unmapped.injEq] at hug
    exact hug.symm

theorem TableOk.moves (h : TableOk s) (m : Moves s t f)
    (he : ∀ g, t.evictor = .Unmapped g ↔ s.evictor = .Unmapped g) : TableOk t := by
  refine ⟨fun p g hp => ?_, fun g hg => ?_, fun g hg => ?_, fun g hg => ?_⟩
  · rw [m.page_table] at hp
    rw [m.page_eq]
    exact h.mapped p g hp
  · rw [m.page_eq] at hg
    rw [m.page_eq, m.page_table, he]
    exact h.resident g hg
  · rw [m.page_eq, m.page_table]
    exact h.unmapped g ((he g).mp hg)
  · rw [m.page_eq] at hg
    rw [m.frame_count]
    exact h.bounded g hg

/-- The other frames do not see the step. -/
theorem FrameOk.moves (h : FrameOk s (s.frames g)) (hs : Inv s) (m : Moves s t f) (hg : g ≠ f) :
    FrameOk t (t.frames g) := by
  rw [m.others g hg]
  have hrecord : ∀ lsn, ((s.frames g).page_id, lsn) ∈ t.records →
      ((s.frames g).page_id, lsn) ∈ s.records := by
    intro lsn hlsn
    rcases m.records _ lsn hlsn with hold | ⟨heq, hne, -, -⟩
    · exact hold
    · exact absurd (hs.table.unique (heq ▸ hne) heq) hg
  refine ⟨h.guards, h.empty, h.marked, fun hp => ?_, fun lsn hlsn => h.applied lsn (hrecord lsn hlsn),
    fun lsn hlsn => ?_⟩
  · rw [m.written_eq _ fun heq => hg (hs.table.unique (heq ▸ hp) heq)]
    exact h.content hp
  · rcases h.covered lsn (hrecord lsn hlsn) with hdur | hrest
    · exact .inl (hdur.trans (m.durable _))
    · exact .inr hrest

/-- **One frame's step.** What is left to show is about the frame itself, the fsync
generations, and the two long-running parties. -/
theorem Inv.moves (h : Inv s) (m : Moves s t f) (hframe : FrameOk t (t.frames f))
    (hstage : ∀ c, (t.frames f).flushing = some c → t.StageOk (t.frames f).page_id c.stage)
    (hdurable : ∀ p, t.durable p ≤ t.written p) (hle : t.synced_gen ≤ t.flush_gen)
    (hsynced : t.Covers t.synced_gen t.durable)
    (htable : ∀ g, t.evictor = .Unmapped g ↔ s.evictor = .Unmapped g) (hevict : EvictOk t)
    (hevictor : ∀ g stage, (t.frames g).flushing = some ⟨.Evictor, stage⟩ →
      t.evictor = .Flushing g)
    (hckpt_flush : ∀ g stage, (t.frames g).flushing = some ⟨.Checkpoint, stage⟩ →
      ∃ b ps, t.ckpt = .Own b g ps)
    (hckpt : CkptOk t) : Inv t := by
  refine ⟨fun g => ?_, fun g c hc => ?_, hdurable, hle, hsynced, fun p lsn hlsn => ?_,
    fun p lsn hlsn => ?_, h.table.moves m htable, hevict, hevictor, hckpt_flush, hckpt⟩
  · by_cases hg : g = f
    · rw [hg]
      exact hframe
    · exact (h.frames g).moves h m hg
  · by_cases hg : g = f
    · subst hg
      exact hstage c hc
    · rw [m.others g hg] at hc ⊢
      exact (h.stages g c hc).moves m
  · rcases m.records p lsn hlsn with hold | ⟨-, hne, -, hlt⟩
    · exact ⟨(h.logged p lsn hold).1, lt_of_lt_of_le (h.logged p lsn hold).2 m.clock⟩
    · exact ⟨hne, hlt⟩
  · rcases m.records p lsn hlsn with hold | ⟨heq, -, -, -⟩
    · rcases h.absent p lsn hold with ⟨g, hg⟩ | hdur
      · exact .inl ⟨g, by rw [m.page_eq, hg]⟩
      · exact .inr (hdur.trans (m.durable p))
    · exact .inl ⟨f, by rw [m.page, heq]⟩

/-! ### The evictor and the checkpoint see a frame's step -/

theorem EvictOk.moves (h : EvictOk s) (m : Moves s t f) (he : t.evictor = s.evictor)
    (hf : s.evictor.frame = some f → EvictFrame (s.frames f) s.evictor →
      EvictFrame (t.frames f) s.evictor) : EvictOk t := by
  intro g hg
  rw [he] at hg ⊢
  obtain ⟨hlt, hframe⟩ := h g hg
  refine ⟨by rw [m.frame_count]; exact hlt, ?_⟩
  by_cases hgf : g = f
  · subst hgf
    exact hf hg hframe
  · rw [m.others g hgf]
    exact hframe

theorem EvictFrame.victim {e : EvictPc} (h : EvictFrame r e)
    (hf : e.frame = some f) : Victim r ∨ r.page_id = PageId.INVALID := by
  cases e with
  | Idle => exact absurd hf (by simp [EvictPc.frame])
  | Chosen => exact .inl h.1
  | Flushing => exact .inl h.1
  | Restoring => exact .inl h
  | Ready => exact .inl h.1
  | Unmapped => exact .inl h.1
  | Empty => exact .inr h

/-- The evictor's frame had an open or claimed epoch and has now, perhaps, another. -/
theorem EvictFrame.of_not_clean {r' : CkptFrame} {e : EvictPc} (h : EvictFrame r e) (hr : ¬ Clean r)
    (hpage : r'.page_id = r.page_id) (hevicting : r'.evicting = r.evicting)
    (hpin : r'.pin_count = r.pin_count)
    (hown : ∀ stage, r.dirty = false → r.flushing = some ⟨.Evictor, stage⟩ →
      r'.dirty = false ∧ ∃ stage', r'.flushing = some ⟨.Evictor, stage'⟩) : EvictFrame r' e := by
  have hvictim : Victim r → Victim r' := fun hv => ⟨hevicting.trans hv.1, hpin.trans hv.2⟩
  cases e with
  | Idle => trivial
  | Chosen => exact ⟨hvictim h.1, fun hd => absurd (h.2 hd) hr⟩
  | Flushing =>
    obtain ⟨hv, hd, stage, hstage⟩ := h
    exact ⟨hvictim hv, hown stage hd hstage⟩
  | Restoring => exact hvictim h
  | Ready => exact absurd h.2 hr
  | Unmapped => exact absurd h.2 hr
  | Empty => exact hpage.trans h

/-- The evictor's frame is not pinned. -/
theorem Inv.evict_unpinned (h : Inv s) (hf : s.evictor.frame = some f) :
    (s.frames f).pin_count = 0 := by
  rcases (h.evict f hf).2.victim hf with hvictim | hempty
  · exact hvictim.2
  · exact ((h.frames f).empty hempty).1

theorem OwnFlush.moves (h : s.OwnFlush b g) (m : Moves s t f) (hb : b ≤ s.clock)
    (hflush : (t.frames g).flushing = (s.frames g).flushing) : t.OwnFlush b g := by
  obtain ⟨stage, hstage, himage⟩ := h
  refine ⟨stage, by rw [hflush, hstage], fun img himg lsn hlsn hlt => ?_⟩
  rw [m.page_eq] at hlsn
  rcases m.records _ lsn hlsn with hold | ⟨-, -, hnew, -⟩
  · exact himage img himg lsn hold hlt
  · omega

theorem CkptOk.moves (h : CkptOk s) (m : Moves s t f) (hc : t.ckpt = s.ckpt)
    (hown : ∀ b ps, s.ckpt = .Own b f ps → b ≤ s.clock → s.OwnFlush b f → t.OwnFlush b f) :
    CkptOk t := by
  have hsafe : ∀ b p, b ≤ s.clock → s.Safe b p → t.Safe b p := fun b p hb hp => hp.moves m hb
  unfold CkptOk at h ⊢
  rw [hc]
  cases hk : s.ckpt <;> rw [hk] at h
  case Idle => trivial
  case Aborted => trivial
  case Scanning b i ps =>
    refine ⟨h.1.trans m.clock, fun p => ?_⟩
    rcases h.2 p with hp | hp | ⟨g, hig, hp⟩
    · exact .inl (hsafe b p h.1 hp)
    · exact .inr (.inl hp)
    · exact .inr (.inr ⟨g, hig, by rw [m.page_eq, hp]⟩)
  case Flushing b ps =>
    exact ⟨h.1.trans m.clock, fun p => (h.2 p).imp_left (hsafe b p h.1)⟩
  case Waiting b g ps =>
    refine ⟨h.1.trans m.clock, fun p => ?_⟩
    rw [m.page_eq]
    exact (h.2 p).imp_left (hsafe b p h.1)
  case Own b g ps =>
    obtain ⟨hb, hflush, hpages⟩ := h
    refine ⟨hb.trans m.clock, ?_, fun p => ?_⟩
    · by_cases hg : g = f
      · subst hg
        exact hown b ps hk hb hflush
      · exact hflush.moves m hb (by rw [m.others g hg])
    · rw [m.page_eq]
      exact (hpages p).imp_left (hsafe b p hb)
  case Done b => exact ⟨h.1.trans m.clock, fun p => hsafe b p h.1 (h.2 p)⟩

/-! ### Pins and write guards -/

/-- A step that leaves the frame's flush and the data file alone, on a frame the evictor
does not hold. -/
theorem Inv.quiet (h : Inv s) (m : Moves s t f) (hframe : FrameOk t (t.frames f))
    (hflush : (t.frames f).flushing = (s.frames f).flushing)
    (hfree : s.evictor.frame ≠ some f) (hwritten : t.written = s.written)
    (hdurable : t.durable = s.durable) (hgen : t.flush_gen = s.flush_gen)
    (hsgen : t.synced_gen = s.synced_gen) (he : t.evictor = s.evictor) (hc : t.ckpt = s.ckpt) :
    Inv t := by
  have hsame : ∀ g, (t.frames g).flushing = (s.frames g).flushing := by
    intro g
    by_cases hg : g = f
    · rw [hg, hflush]
    · rw [m.others g hg]
  refine h.moves m hframe (fun c hcl => ?_) ?_ ?_ ?_ (fun g => by rw [he]) ?_ (fun g stage hg => ?_)
    (fun g stage hg => ?_) ?_
  · rw [hflush] at hcl
    rw [m.page]
    exact (h.stages f c hcl).moves m
  · rw [hwritten, hdurable]
    exact h.durable_le
  · rw [hsgen, hgen]
    exact h.synced_le
  · rw [hsgen, hdurable]
    exact h.synced.moves m h.synced_le
  · exact h.evict.moves m he fun hf _ => absurd hf hfree
  · rw [hsame] at hg
    rw [he]
    exact h.evictor_flush g stage hg
  · rw [hsame] at hg
    rw [hc]
    exact h.ckpt_flush g stage hg
  · exact h.ckpt.moves m hc fun b ps _ hb hown => hown.moves m hb hflush

/-- A change of one frame that keeps its page and its flush. -/
theorem moves_modify {k : CkptFrame → CkptFrame}
    (hpage : (k (s.frames f)).page_id = (s.frames f).page_id)
    (hbumped : ∀ owner img my_gen, (k (s.frames f)).flushing = some ⟨owner, .Bumped img my_gen⟩ →
      (s.frames f).flushing = some ⟨owner, .Bumped img my_gen⟩) :
    Moves s (s.modify f k) f where
  others g hg := modify_frames_of_ne k hg
  page := by rw [modify_frames_self, hpage]
  frame_count := rfl
  page_table := rfl
  durable _ := le_refl _
  written _ := le_refl _
  written_eq _ _ := rfl
  flush_gen := le_refl _
  bumped owner img my_gen hb := by
    rw [modify_frames_self] at hb
    exact .inl (hbumped owner img my_gen hb)
  clock := le_refl _
  records p lsn hlsn := .inl hlsn

/-- Such a change on a frame the evictor does not hold keeps the invariant. -/
theorem Inv.quiet_modify (h : Inv s) {k : CkptFrame → CkptFrame}
    (hpage : (k (s.frames f)).page_id = (s.frames f).page_id)
    (hflush : (k (s.frames f)).flushing = (s.frames f).flushing)
    (hfree : s.evictor.frame ≠ some f) (hframe : FrameOk s (k (s.frames f))) :
    Inv (s.modify f k) := by
  refine h.quiet (moves_modify hpage fun owner img my_gen hb => by rwa [hflush] at hb) ?_ ?_ hfree
    rfl rfl rfl rfl rfl rfl
  · rw [modify_frames_self]
    exact hframe.of_eq rfl rfl rfl
  · rw [modify_frames_self, hflush]

theorem Inv.not_evictor_of_pinned (h : Inv s) (hpin : 0 < (s.frames f).pin_count) :
    s.evictor.frame ≠ some f := by
  intro hf
  have := h.evict_unpinned hf
  omega

theorem Inv.page_of_pinned (h : Inv s) (hpin : 0 < (s.frames f).pin_count) :
    (s.frames f).page_id ≠ PageId.INVALID := by
  intro hp
  have := ((h.frames f).empty hp).1
  omega

theorem Inv.pin (h : Inv s) (hstep : s.pin p = some t) : Inv t := by
  unfold CkptPool.pin at hstep
  split at hstep
  · cases hstep
  · next f htab =>
    obtain ⟨⟨hpage, hevicting⟩, rfl⟩ := guarded hstep
    have hr := h.frames f
    have hp := (h.table.mapped p f htab).2
    refine h.quiet_modify rfl rfl (fun hf => ?_) ?_
    · rcases (h.evict f hf).2.victim hf with hvictim | hempty
      · rw [hvictim.1] at hevicting
        simp at hevicting
      · exact hp (hpage ▸ hempty)
    · exact ⟨hr.guards.trans (Nat.le_succ _), fun h0 => absurd (hpage ▸ h0) hp, hr.marked, hr.content,
        hr.applied, hr.covered⟩

/-- A record for the page of a write guard: the frame is dirty, or a flush that waits for
the latch has claimed it. -/
theorem Inv.append (h : Inv s) {size : ℕ} (hmarked : (s.frames f).writer = .Marked)
    (hsize : 0 < size) :
    Inv { (s.modify f fun r => { r with writer := .Appended s.clock }) with
      clock := s.clock + size
      records := ((s.frames f).page_id, s.clock) :: s.records } := by
  have hr := h.frames f
  have hguards := hr.guards
  simp only [CkptFrame.guards, hmarked, reduceCtorEq, if_false] at hguards
  have hpin : 0 < (s.frames f).pin_count := by omega
  have hpage := h.page_of_pinned hpin
  have hdirty := hr.marked (.inl hmarked)
  have hm := moves_modify (s := s) (f := f)
    (k := fun r => { r with writer := .Appended s.clock }) rfl fun _ _ _ hb => hb
  refine h.quiet ⟨hm.others, hm.page, rfl, rfl, hm.durable, hm.written, hm.written_eq, hm.flush_gen,
    hm.bumped, Nat.le_add_right _ _, fun p lsn hlsn => ?_⟩ ?_ ?_ (h.not_evictor_of_pinned hpin)
    rfl rfl rfl rfl rfl rfl
  · rcases List.mem_cons.mp hlsn with hnew | hold
    · rw [Prod.mk.injEq] at hnew
      obtain ⟨rfl, rfl⟩ := hnew
      exact .inr ⟨rfl, hpage, le_refl _, Nat.lt_add_of_pos_right hsize⟩
    · exact .inl hold
  · simp only [modify_frames_self]
    refine ⟨?_, hr.empty, fun _ => hdirty, hr.content, fun lsn hlsn => ?_, fun lsn hlsn => ?_⟩
    · simp only [CkptFrame.guards, reduceCtorEq, if_false]
      exact hguards
    · rcases List.mem_cons.mp hlsn with hnew | hold
      · rw [Prod.mk.injEq] at hnew
        exact .inr (by rw [hnew.2])
      · exact .inl (hr.content_of_ne (by simp [hmarked]) hold)
    · rcases List.mem_cons.mp hlsn with - | hold
      · rcases hdirty with hd | ⟨owner, hclaimed⟩
        · exact .inr (.inl hd)
        · exact .inr (.inr ⟨_, hclaimed, fun img himg => absurd himg (by simp [FlushStage.image])⟩)
      · exact hr.covered lsn hold
  · simp only [modify_frames_self]

theorem Inv.writer_step (h : Inv s) {op : WriterOp} (hstep : s.writer_step f op = some t) : Inv t := by
  have hr := h.frames f
  have hguards := hr.guards
  unfold CkptFrame.guards at hguards
  cases op <;> simp only [CkptPool.writer_step, Option.ite_none_right_eq_some, Option.some.injEq] at hstep
  case latch =>
    obtain ⟨⟨hfree, hpin⟩, rfl⟩ := hstep
    refine h.quiet_modify rfl rfl (h.not_evictor_of_pinned (by omega)) ?_
    refine ⟨?_, hr.empty, fun hw => by simp at hw, hr.content,
      fun lsn hlsn => .inl (hr.content_of_ne (by simp [hfree]) hlsn), hr.covered⟩
    simp only [CkptFrame.guards, reduceCtorEq, if_false]
    omega
  case mark_dirty =>
    obtain ⟨hlatched, rfl⟩ := hstep
    simp only [hlatched, reduceCtorEq, if_false] at hguards
    have hpin : 0 < (s.frames f).pin_count := by omega
    refine h.quiet_modify rfl rfl (h.not_evictor_of_pinned hpin) ?_
    refine ⟨?_, fun h0 => absurd h0 (h.page_of_pinned hpin), fun _ => .inl rfl, hr.content,
      fun lsn hlsn => .inl (hr.content_of_ne (by simp [hlatched]) hlsn),
      fun lsn hlsn => .inr (.inl rfl)⟩
    simp only [CkptFrame.guards, reduceCtorEq, if_false]
    exact hguards
  case append size =>
    obtain ⟨⟨hmarked, hsize⟩, rfl⟩ := hstep
    exact h.append hmarked hsize
  case stamp =>
    split at hstep
    · rename_i lsn hwriter
      cases hstep
      simp only [hwriter, reduceCtorEq, if_false] at hguards
      refine h.quiet_modify rfl rfl (h.not_evictor_of_pinned (by omega)) ?_
      refine ⟨?_, hr.empty, fun _ => hr.marked (.inr ⟨lsn, hwriter⟩),
        fun hp => (hr.content hp).trans (le_max_left _ _), fun l hl => .inl ?_, hr.covered⟩
      · simp only [CkptFrame.guards, reduceCtorEq, if_false]
        exact hguards
      · rcases hr.applied l hl with happ | hw
        · exact happ.trans (le_max_left _ _)
        · rw [hwriter, WriterPc.Appended.injEq] at hw
          rw [hw]
          exact le_max_right _ _
    · simp at hstep
  case release =>
    obtain ⟨hmarked, rfl⟩ := hstep
    simp only [hmarked, reduceCtorEq, if_false] at hguards
    refine h.quiet_modify rfl rfl (h.not_evictor_of_pinned (by omega)) ?_
    refine ⟨?_, hr.empty, fun hw => by simp at hw, hr.content,
      fun lsn hlsn => .inl (hr.content_of_ne (by simp [hmarked]) hlsn), hr.covered⟩
    simp only [CkptFrame.guards, if_true]
    omega
  case drop_dirty =>
    obtain ⟨hdropping, rfl⟩ := hstep
    have hpin : 0 < (s.frames f).pin_count := by omega
    have hpage := h.page_of_pinned hpin
    refine h.quiet_modify rfl rfl (h.not_evictor_of_pinned hpin) ?_
    refine ⟨?_, fun h0 => absurd h0 hpage, fun _ => .inl (if_pos hpage), hr.content, hr.applied,
      fun lsn hlsn => .inr (.inl (if_pos hpage))⟩
    simp only [CkptFrame.guards]
    omega
  case unpin =>
    obtain ⟨hlt, rfl⟩ := hstep
    have hpin : 0 < (s.frames f).pin_count := by omega
    refine h.quiet_modify rfl rfl (h.not_evictor_of_pinned hpin) ?_
    refine ⟨?_, fun h0 => absurd h0 (h.page_of_pinned hpin), hr.marked, hr.content, hr.applied,
      hr.covered⟩
    simp only [CkptFrame.guards] at hlt ⊢
    omega

end Moves

/-! ### Flushes -/

section Flush

variable {s t : CkptPool} {f : ℕ} {owner : FlushOwner} {stage stage' : FlushStage}

@[simp] theorem advance_frames_self :
    (s.advance f owner stage).frames f =
      { s.frames f with flushing := some ⟨owner, stage⟩ } := by
  rw [advance, modify_frames_self]

theorem advance_frames_of_ne {g : ℕ} (hg : g ≠ f) :
    (s.advance f owner stage).frames g = s.frames g :=
  modify_frames_of_ne _ hg

theorem Inv.page_of_flushing (h : Inv s) {c : FlushClaim} (hflush : (s.frames f).flushing = some c) :
    (s.frames f).page_id ≠ PageId.INVALID := by
  intro h0
  rw [((h.frames f).empty h0).2.2] at hflush
  simp at hflush

theorem not_clean_of_flushing {r : CkptFrame} {c : FlushClaim} (hflush : r.flushing = some c) :
    ¬ Clean r := by
  intro hclean
  rw [hclean.2] at hflush
  simp at hflush

/-- The parties' claims after a flush went on: it has the same owner. -/
theorem owner_of_advance {g : ℕ} {o : FlushOwner} {st : FlushStage}
    (hflush : (s.frames f).flushing = some ⟨owner, stage⟩)
    (hothers : ∀ g, g ≠ f → t.frames g = s.frames g)
    (hself : (t.frames f).flushing = some ⟨owner, stage'⟩)
    (hg : (t.frames g).flushing = some ⟨o, st⟩) :
    ∃ st', (s.frames g).flushing = some ⟨o, st'⟩ := by
  by_cases hgf : g = f
  · subst hgf
    rw [hself, Option.some.injEq, FlushClaim.mk.injEq] at hg
    exact ⟨stage, by rw [hflush, hg.1]⟩
  · rw [hothers g hgf] at hg
    exact ⟨st, hg⟩

/-- **A flush goes on.** Its owner waits for it all the while; the image it has written
stays the same, or is the page's content with no guard out. -/
theorem Inv.advance (h : Inv s) (m : Moves s t f)
    (hflush : (s.frames f).flushing = some ⟨owner, stage⟩)
    (hself : t.frames f = { s.frames f with flushing := some ⟨owner, stage'⟩ })
    (hrecords : t.records = s.records)
    (hcontent : t.written (s.frames f).page_id ≤ (s.frames f).content)
    (himage : stage ≠ .Claimed ∧ stage'.image = stage.image ∨
      (s.frames f).writer = .Free ∧ stage'.image = some (s.frames f).content)
    (hstage : t.StageOk (s.frames f).page_id stage')
    (hdurable : ∀ p, t.durable p ≤ t.written p) (hle : t.synced_gen ≤ t.flush_gen)
    (hsynced : t.Covers t.synced_gen t.durable) (he : t.evictor = s.evictor)
    (hc : t.ckpt = s.ckpt) : Inv t := by
  have hr := h.frames f
  have hselfflush : (t.frames f).flushing = some ⟨owner, stage'⟩ := by rw [hself]
  -- with no guard out the content has every record
  have hall : (s.frames f).writer = .Free → ∀ lsn, ((s.frames f).page_id, lsn) ∈ s.records →
      lsn ≤ (s.frames f).content :=
    fun hfree lsn hlsn => hr.content_of_ne (by simp [hfree]) hlsn
  refine h.moves m ?_ (fun c hcl => ?_) hdurable hle hsynced (fun g => by rw [he]) ?_
    (fun g st hg => ?_) (fun g st hg => ?_) ?_
  · rw [hself]
    refine ⟨hr.guards, fun h0 => absurd h0 (h.page_of_flushing hflush), fun hw => .inl ?_,
      fun _ => hcontent, ?_, ?_⟩
    · rcases himage with ⟨hne, -⟩ | ⟨hfree, -⟩
      · rcases hr.marked hw with hd | ⟨o, hclaimed⟩
        · exact hd
        · rw [hflush, Option.some.injEq, FlushClaim.mk.injEq] at hclaimed
          exact absurd hclaimed.2 hne
      · rw [show (s.frames f).writer = .Free from hfree] at hw
        simp at hw
    · rw [hrecords]
      exact hr.applied
    · rw [hrecords]
      intro lsn hlsn
      rcases hr.covered lsn hlsn with hdur | hd | ⟨c, hcl, himg⟩
      · exact .inl (hdur.trans (m.durable _))
      · exact .inr (.inl hd)
      · refine .inr (.inr ⟨_, rfl, fun img himg' => ?_⟩)
        rw [hflush, Option.some.injEq] at hcl
        rcases himage with ⟨-, heq⟩ | ⟨hfree, heq⟩
        · exact himg img (by rw [← hcl, ← heq]; exact himg')
        · rw [heq, Option.some.injEq] at himg'
          rw [← himg']
          exact hall hfree lsn hlsn
  · rw [hselfflush, Option.some.injEq] at hcl
    rw [m.page, ← hcl]
    exact hstage
  · refine h.evict.moves m he fun hf hframe => ?_
    rw [hself]
    refine hframe.of_not_clean (not_clean_of_flushing hflush) rfl rfl rfl fun st hd hst => ?_
    rw [hflush, Option.some.injEq, FlushClaim.mk.injEq] at hst
    exact ⟨hd, stage', by rw [hst.1]⟩
  · obtain ⟨st', hst'⟩ := owner_of_advance hflush m.others hselfflush hg
    rw [he]
    exact h.evictor_flush g st' hst'
  · obtain ⟨st', hst'⟩ := owner_of_advance hflush m.others hselfflush hg
    rw [hc]
    exact h.ckpt_flush g st' hst'
  · refine h.ckpt.moves m hc fun b ps _ _ hown => ?_
    obtain ⟨st, hst, himg⟩ := hown
    rw [hflush, Option.some.injEq, FlushClaim.mk.injEq] at hst
    obtain ⟨rfl, rfl⟩ := hst
    refine ⟨stage', hselfflush, fun img himg' lsn hlsn hlt => ?_⟩
    rw [m.page, hrecords] at hlsn
    rcases himage with ⟨-, heq⟩ | ⟨hfree, heq⟩
    · exact himg img (by rw [← heq]; exact himg') lsn hlsn hlt
    · rw [heq, Option.some.injEq] at himg'
      rw [← himg']
      exact hall hfree lsn hlsn

theorem moves_advance (hstage : ∀ img my_gen, stage ≠ .Bumped img my_gen) :
    Moves s (s.advance f owner stage) f :=
  moves_modify rfl fun o img my_gen hb => by
    rw [Option.some.injEq, FlushClaim.mk.injEq] at hb
    exact absurd hb.2 (hstage img my_gen)

theorem Moves.with_parties (m : Moves s t f) (e : EvictPc) (c : CkptPc) :
    Moves s { t with evictor := e, ckpt := c } f :=
  ⟨m.others, m.page, m.frame_count, m.page_table, m.durable, m.written, m.written_eq, m.flush_gen,
    m.bumped, m.clock, m.records⟩

theorem resume_evictor (ok : Bool) (h : s.evictor = .Flushing f) :
    s.resume ok .Evictor = { s with evictor := if ok then .Ready f else .Restoring f } := by
  simp only [resume, h]

theorem resume_checkpoint (ok : Bool) {b : ℕ} {ps : List PageId} (h : s.ckpt = .Own b f ps) :
    s.resume ok .Checkpoint = { s with ckpt := if ok then .Flushing b ps else .Aborted } := by
  simp only [resume, h]

/-- How a flush may end: well, with its image durable and `dirty` as it is, or with
`dirty` set. -/
def Ends (s : CkptPool) (f : ℕ) (stage : FlushStage) (d ok : Bool) : Prop :=
  if ok then d = (s.frames f).dirty ∧
    ∃ img, stage.image = some img ∧ img ≤ s.durable (s.frames f).page_id
  else d = true

variable {d : Bool}

theorem FrameOk.release {ok : Bool} (h : Inv s)
    (hflush : (s.frames f).flushing = some ⟨owner, stage⟩) (hends : s.Ends f stage d ok) :
    FrameOk s { s.frames f with dirty := d, flushing := none } := by
  have hr := h.frames f
  have hpage := h.page_of_flushing hflush
  unfold Ends at hends
  split at hends
  · obtain ⟨hd, img, himg, hle⟩ := hends
    refine ⟨hr.guards, fun h0 => absurd h0 hpage, fun hw => .inl ?_, hr.content, hr.applied,
      fun lsn hlsn => ?_⟩
    · rcases hr.marked hw with hdirty | ⟨o, hclaimed⟩
      · exact hd.trans hdirty
      · rw [hflush, Option.some.injEq, FlushClaim.mk.injEq] at hclaimed
        rw [hclaimed.2] at himg
        exact absurd himg (by simp [FlushStage.image])
    · rcases hr.covered lsn hlsn with hdur | hdirty | ⟨c, hcl, hcovered⟩
      · exact .inl hdur
      · exact .inr (.inl (hd.trans hdirty))
      · rw [hflush, Option.some.injEq] at hcl
        exact .inl ((hcovered img (by rw [← hcl]; exact himg)).trans hle)
  · exact ⟨hr.guards, fun h0 => absurd h0 hpage, fun _ => .inl hends, hr.content, hr.applied,
      fun _ _ => .inr (.inl hends)⟩

section Release

variable {k : CkptFrame → CkptFrame} {ok : Bool}
  (hk : k (s.frames f) = { s.frames f with dirty := d, flushing := none })

include hk

theorem moves_release : Moves s (s.modify f k) f :=
  moves_modify (by rw [hk]) fun o img my_gen hb => by
    rw [hk] at hb
    simp at hb

variable (h : Inv s) (hflush : (s.frames f).flushing = some ⟨owner, stage⟩)

include h hflush

/-- A flush is over, with the two parties left to the caller. -/
theorem Inv.release_as {e : EvictPc} {c : CkptPc}
    (hends : s.Ends f stage d ok) (htable : ∀ g, e = .Unmapped g ↔ s.evictor = .Unmapped g)
    (hevict : EvictOk { (s.modify f k) with evictor := e, ckpt := c })
    (hevictor : ∀ g, g ≠ f → s.evictor = .Flushing g → e = .Flushing g)
    (hckpt_flush : ∀ g b ps, g ≠ f → s.ckpt = .Own b g ps → c = .Own b g ps)
    (hckpt : CkptOk { (s.modify f k) with evictor := e, ckpt := c }) :
    Inv { (s.modify f k) with evictor := e, ckpt := c } := by
  have hself : (s.modify f k).frames f = { s.frames f with dirty := d, flushing := none } := by
    rw [modify_frames_self, hk]
  have hframe : FrameOk s ((s.modify f k).frames f) := by
    rw [hself]
    exact FrameOk.release h hflush hends
  have m := (moves_release hk).with_parties e c
  -- the frame's flush is gone, every other is as it was
  have hold : ∀ g c, ((s.modify f k).frames g).flushing = some c →
      g ≠ f ∧ (s.frames g).flushing = some c := by
    intro g c hg
    by_cases hgf : g = f
    · rw [hgf, hself] at hg
      simp at hg
    · rw [modify_frames_of_ne k hgf] at hg
      exact ⟨hgf, hg⟩
  refine h.moves m (hframe.of_eq rfl rfl rfl) (fun cl hcl => absurd rfl (hold f cl hcl).1)
    h.durable_le h.synced_le (h.synced.moves m h.synced_le) htable hevict (fun g st hg => ?_)
    (fun g st hg => ?_) hckpt
  · obtain ⟨hne, hg'⟩ := hold g _ hg
    exact hevictor g hne (h.evictor_flush g st hg')
  · obtain ⟨hne, hg'⟩ := hold g _ hg
    obtain ⟨b, ps, hck⟩ := h.ckpt_flush g st hg'
    exact ⟨b, ps, hckpt_flush g b ps hne hck⟩

/-- The evictor, when a flush that is not its own is over. -/
theorem EvictOk.release (hne : owner ≠ .Evictor) : EvictOk (s.modify f k) := by
  refine h.evict.moves (moves_release hk) rfl fun hf hframe => ?_
  rw [modify_frames_self, hk]
  refine hframe.of_not_clean (not_clean_of_flushing hflush) rfl rfl rfl fun st _ hst => ?_
  rw [hflush, Option.some.injEq, FlushClaim.mk.injEq] at hst
  exact absurd hst.1 hne

/-- The checkpoint, when a flush that is not its own is over. -/
theorem CkptOk.release (hne : owner ≠ .Checkpoint) : CkptOk (s.modify f k) := by
  refine h.ckpt.moves (moves_release hk) rfl fun b ps _ _ hown => ?_
  obtain ⟨st, hst, -⟩ := hown
  rw [hflush, Option.some.injEq, FlushClaim.mk.injEq] at hst
  exact absurd hst.1 hne

/-- **A flush is over**, and whoever called it goes on. -/
theorem Inv.release (hends : s.Ends f stage d ok) : Inv ((s.modify f k).resume ok owner) := by
  cases howner : owner with
  | Other =>
    subst howner
    exact Inv.release_as hk h hflush hends (fun g => Iff.rfl) (EvictOk.release hk h hflush (by simp))
      (fun _ _ hg => hg) (fun _ _ _ _ hg => hg) (CkptOk.release hk h hflush (by simp))
  | Evictor =>
    subst howner
    have hev := h.evictor_flush f stage hflush
    obtain ⟨hlt, hvictim, hclean, -⟩ := h.evict_at hev rfl
    rw [resume_evictor ok (show (s.modify f k).evictor = .Flushing f from hev)]
    refine Inv.release_as hk h hflush hends (fun g => ?_)
      (evictOk_of_frame (by cases ok <;> rfl) hlt ?_) (fun g hne hg => ?_) (fun _ _ _ _ hg => hg)
      (CkptOk.release hk h hflush (by simp))
    · rw [hev]
      cases ok <;> simp
    · simp only [modify_frames_self, hk]
      cases ok with
      | false => exact hvictim
      | true => exact ⟨hvictim, hends.1.trans hclean, rfl⟩
    · rw [hev, EvictPc.Flushing.injEq] at hg
      exact absurd hg.symm hne
  | Checkpoint =>
    subst howner
    obtain ⟨b, ps, hck⟩ := h.ckpt_flush f stage hflush
    rw [resume_checkpoint ok (show (s.modify f k).ckpt = .Own b f ps from hck)]
    refine Inv.release_as hk h hflush hends (fun g => Iff.rfl) (EvictOk.release hk h hflush (by simp))
      (fun _ _ hg => hg) (fun g b' ps' hne hg => ?_) ?_
    · rw [hck, CkptPc.Own.injEq] at hg
      exact absurd hg.2.1.symm hne
    · cases ok with
      | false => trivial
      | true =>
        have hckpt := h.ckpt
        unfold CkptOk at hckpt
        rw [hck] at hckpt
        obtain ⟨hb, ⟨st, hst, himage⟩, hpages⟩ := hckpt
        rw [hflush, Option.some.injEq, FlushClaim.mk.injEq] at hst
        obtain ⟨-, rfl⟩ := hst
        obtain ⟨-, img, himg, hle⟩ := hends
        refine ⟨hb, fun p => ?_⟩
        rcases hpages p with hsafe | hmem | rfl
        · exact .inl hsafe
        · exact .inr hmem
        · exact .inl fun lsn hlsn hlt => (himage img himg lsn hlsn hlt).trans hle

end Release

theorem Inv.covers_written (h : Inv s) : s.Covers s.flush_gen s.written := by
  intro g owner img my_gen hg _
  exact (h.stages g _ hg).1

theorem Inv.write (h : Inv s) (hflush : (s.frames f).flushing = some ⟨owner, .Claimed⟩)
    (hfree : (s.frames f).writer = .Free) :
    Inv { (s.advance f owner (.Written (s.frames f).content)) with
      written := update s.written (s.frames f).page_id (s.frames f).content } := by
  have hr := h.frames f
  have hcontent := hr.content (h.page_of_flushing hflush)
  have hm := @moves_advance s f owner (.Written (s.frames f).content) (by simp)
  have hgrows : ∀ p, s.written p ≤
      update s.written (s.frames f).page_id (s.frames f).content p := by
    intro p
    by_cases hp : p = (s.frames f).page_id
    · rw [hp, update_self]
      exact hcontent
    · rw [update_of_ne hp]
  have m : Moves s { (s.advance f owner (.Written (s.frames f).content)) with
      written := update s.written (s.frames f).page_id (s.frames f).content } f :=
    ⟨hm.others, hm.page, rfl, rfl, hm.durable, hgrows, fun p hp => update_of_ne hp _ _,
      hm.flush_gen, hm.bumped, hm.clock, hm.records⟩
  refine h.advance m hflush advance_frames_self rfl ?_ (.inr ⟨hfree, rfl⟩) ?_
    (fun p => (h.durable_le p).trans (hgrows p)) h.synced_le (h.synced.moves m h.synced_le) rfl rfl
  · simp only [update_self, le_refl]
  · simp only [StageOk, update_self, le_refl]

theorem Inv.bump (h : Inv s) {img : ℕ} (hflush : (s.frames f).flushing = some ⟨owner, .Written img⟩) :
    Inv { (s.advance f owner (.Bumped img (s.flush_gen + 1))) with
      flush_gen := s.flush_gen + 1 } := by
  have hst : img ≤ s.written (s.frames f).page_id := h.stages f _ hflush
  have m : Moves s { (s.advance f owner (.Bumped img (s.flush_gen + 1))) with
      flush_gen := s.flush_gen + 1 } f := by
    refine ⟨fun g hg => advance_frames_of_ne hg, ?_, rfl, rfl, fun _ => le_refl _, fun _ => le_refl _,
      fun _ _ => rfl, Nat.le_succ _, fun o i g hb => .inr ?_, le_refl _, fun p lsn hl => .inl hl⟩
    · simp only [advance_frames_self]
    · simp only [advance_frames_self, Option.some.injEq, FlushClaim.mk.injEq,
        FlushStage.Bumped.injEq] at hb
      omega
  exact h.advance m hflush advance_frames_self rfl
    ((h.frames f).content (h.page_of_flushing hflush)) (.inl ⟨by simp, rfl⟩)
    ⟨hst, le_refl _⟩ h.durable_le (h.synced_le.trans (Nat.le_succ _))
    (h.synced.moves m h.synced_le) rfl rfl

/-- A flush goes on and nothing else changes. -/
theorem Inv.advance_only (h : Inv s) (hflush : (s.frames f).flushing = some ⟨owner, stage⟩)
    (hne : stage ≠ .Claimed) (himage : stage'.image = stage.image)
    (hbumped : ∀ img my_gen, stage' ≠ .Bumped img my_gen)
    (hstage : (s.advance f owner stage').StageOk (s.frames f).page_id stage') :
    Inv (s.advance f owner stage') :=
  h.advance (moves_advance hbumped) hflush advance_frames_self rfl
    ((h.frames f).content (h.page_of_flushing hflush)) (.inl ⟨hne, himage⟩) hstage h.durable_le
    h.synced_le (h.synced.moves (moves_advance hbumped) h.synced_le) rfl rfl

theorem Inv.sync_end (h : Inv s) {img covered : ℕ} {snap : PageId → ℕ}
    (hflush : (s.frames f).flushing = some ⟨owner, .Syncing img covered snap⟩) :
    Inv { (s.advance f owner (.Synced img covered)) with
      durable := fun p => max (s.durable p) (snap p) } := by
  obtain ⟨himg, hsnap, hcovered, hcovers⟩ := h.stages f _ hflush
  have hm := @moves_advance s f owner (.Synced img covered) (by simp)
  have m : Moves s { (s.advance f owner (.Synced img covered)) with
      durable := fun p => max (s.durable p) (snap p) } f :=
    ⟨hm.others, hm.page, rfl, rfl, fun p => le_max_left _ _, hm.written, hm.written_eq, hm.flush_gen,
      hm.bumped, hm.clock, hm.records⟩
  refine h.advance m hflush advance_frames_self rfl
    ((h.frames f).content (h.page_of_flushing hflush)) (.inl ⟨by simp, rfl⟩)
    ⟨himg.trans (le_max_right _ _), hcovered,
      (hcovers.moves m hcovered).mono fun p => le_max_right _ _⟩
    (fun p => max_le (h.durable_le p) (hsnap p)) h.synced_le
    ((h.synced.moves m h.synced_le).mono fun p => le_max_left _ _) rfl rfl

/-- `synced_gen` moves up to a generation whose fsync is over. -/
theorem Inv.publish (h : Inv s) {img covered : ℕ}
    (hflush : (s.frames f).flushing = some ⟨owner, .Synced img covered⟩) :
    Inv { (s.advance f owner (.Durable img)) with synced_gen := max s.synced_gen covered } := by
  obtain ⟨himg, hcovered, hcovers⟩ := h.stages f _ hflush
  have hm := @moves_advance s f owner (.Durable img) (by simp)
  have m : Moves s { (s.advance f owner (.Durable img)) with
      synced_gen := max s.synced_gen covered } f :=
    ⟨hm.others, hm.page, rfl, rfl, hm.durable, hm.written, hm.written_eq, hm.flush_gen, hm.bumped,
      hm.clock, hm.records⟩
  refine h.advance m hflush advance_frames_self rfl
    ((h.frames f).content (h.page_of_flushing hflush)) (.inl ⟨by simp, rfl⟩) himg h.durable_le
    (max_le h.synced_le hcovered) (fun g o i my_gen hg hgen => ?_) rfl rfl
  rcases le_max_iff.mp hgen with hsynced | hcov
  · exact h.synced.moves m h.synced_le g o i my_gen hg hsynced
  · exact hcovers.moves m hcovered g o i my_gen hg hcov

theorem Inv.flush_step (h : Inv s) {op : FlushOp} (hstep : s.flush_step f op = some t) : Inv t := by
  unfold CkptPool.flush_step at hstep
  split at hstep
  · simp at hstep
  · rename_i owner stage hflush
    have hst := h.stages f _ hflush
    split at hstep
    case h_1 =>
      obtain ⟨hfree, rfl⟩ := guarded hstep
      exact h.write hflush hfree
    case h_2 img =>
      cases hstep
      exact h.bump hflush
    case h_3 img my_gen =>
      split_ifs at hstep with hgen <;> cases hstep
      · exact h.advance_only hflush (by simp) rfl (by simp) hst.1
      · -- the generation is covered: a sync that started after this write is over
        exact h.advance_only hflush (by simp) rfl (by simp)
          (h.synced f owner img my_gen hflush (by omega))
    case h_4 img =>
      cases hstep
      exact h.advance_only hflush (by simp) rfl (by simp) ⟨hst, le_refl _⟩
    case h_5 img =>
      cases hstep
      exact h.advance_only hflush (by simp) rfl (by simp) ⟨hst, Nat.zero_le _⟩
    case h_6 img covered =>
      cases hstep
      refine h.advance_only hflush (by simp) rfl (by simp)
        ⟨hst.1, fun q => le_refl _, hst.2, ?_⟩
      refine Covers.moves (fun g o i my_gen hg hgen => ?_) (moves_advance (by simp)) hst.2
      exact h.covers_written g o i my_gen hg (hgen.trans hst.2)
    case h_7 img covered snap =>
      cases hstep
      exact h.sync_end hflush
    case h_8 img covered =>
      cases hstep
      exact h.publish hflush
    case h_9 img =>
      cases hstep
      exact Inv.release rfl h hflush ⟨rfl, img, rfl, hst⟩
    case h_10 =>
      cases hstep
      exact Inv.release rfl h hflush rfl
    case h_11 img covered snap =>
      cases hstep
      exact Inv.release rfl h hflush rfl
    case h_12 => simp at hstep

theorem moves_claim : Moves s (s.claim f owner) f :=
  moves_modify rfl fun o img my_gen hb => by
    rw [Option.some.injEq, FlushClaim.mk.injEq] at hb
    exact absurd hb.2 (by simp)

/-- A frame is claimed, with the two parties left to the caller. -/
theorem Inv.claim_as (h : Inv s) {e : EvictPc} {c : CkptPc} (hnone : (s.frames f).flushing = none)
    (hclaim : s.Claimable f) (htable : ∀ g, e = .Unmapped g ↔ s.evictor = .Unmapped g)
    (hevict : EvictOk { (s.claim f owner) with evictor := e, ckpt := c })
    (hevictor : ∀ g, s.evictor = .Flushing g → e = .Flushing g)
    (hckpt_flush : ∀ g b ps, s.ckpt = .Own b g ps → c = .Own b g ps)
    (hown : match owner with
      | .Other => True
      | .Evictor => e = .Flushing f
      | .Checkpoint => ∃ b ps, c = .Own b f ps)
    (hckpt : CkptOk { (s.claim f owner) with evictor := e, ckpt := c }) :
    Inv { (s.claim f owner) with evictor := e, ckpt := c } := by
  have hr := h.frames f
  have hself : (s.claim f owner).frames f =
      { s.frames f with dirty := false, flushing := some ⟨owner, .Claimed⟩ } := by
    rw [claim, modify_frames_self]
  have m := (@moves_claim s f owner).with_parties e c
  have hframe : FrameOk s ((s.claim f owner).frames f) := by
    rw [hself]
    refine ⟨hr.guards, fun h0 => absurd h0 hclaim.2, fun _ => .inr ⟨owner, rfl⟩, hr.content,
      hr.applied, fun lsn _ => .inr (.inr ⟨_, rfl, fun img himg => ?_⟩)⟩
    exact absurd himg (by simp [FlushStage.image])
  have hflush : ∀ g o st, ((s.claim f owner).frames g).flushing = some ⟨o, st⟩ →
      g = f ∧ o = owner ∨ (s.frames g).flushing = some ⟨o, st⟩ := by
    intro g o st hg
    by_cases hgf : g = f
    · rw [hgf, hself, Option.some.injEq, FlushClaim.mk.injEq] at hg
      exact .inl ⟨hgf, hg.1.symm⟩
    · rw [CkptPool.claim, modify_frames_of_ne _ hgf] at hg
      exact .inr hg
  refine h.moves m (hframe.of_eq rfl rfl rfl) (fun cl hcl => ?_) h.durable_le h.synced_le
    (h.synced.moves m h.synced_le) htable hevict (fun g st hg => ?_) (fun g st hg => ?_) hckpt
  · simp only [hself, Option.some.injEq] at hcl
    rw [← hcl]
    trivial
  · rcases hflush g .Evictor st hg with ⟨rfl, rfl⟩ | hold
    · exact hown
    · exact hevictor g (h.evictor_flush g st hold)
  · rcases hflush g .Checkpoint st hg with ⟨rfl, rfl⟩ | hold
    · exact hown
    · obtain ⟨b, ps, hck⟩ := h.ckpt_flush g st hold
      exact ⟨b, ps, hckpt_flush g b ps hck⟩

/-- The checkpoint sees another party's claim. -/
theorem CkptOk.claim (h : Inv s) (hnone : (s.frames f).flushing = none) :
    CkptOk (s.claim f owner) := by
  refine h.ckpt.moves moves_claim rfl fun b ps _ _ hown => ?_
  obtain ⟨st, hst, -⟩ := hown
  rw [hnone] at hst
  simp at hst

/-- The evictor sees another party's claim. -/
theorem EvictOk.claim (h : Inv s) (hclaim : s.Claimable f) : EvictOk (s.claim f owner) := by
  refine h.evict.moves moves_claim rfl fun hf hframe => ?_
  rw [CkptPool.claim, modify_frames_self]
  have hdirty : (s.frames f).dirty ≠ false := by simp [hclaim.1]
  exact hframe.of_not_clean (fun hclean => hdirty hclean.1) rfl rfl rfl
    fun _ hd _ => absurd hd hdirty

theorem Inv.claim_other (h : Inv s) (hnone : (s.frames f).flushing = none)
    (hclaim : s.Claimable f) : Inv (s.claim f .Other) :=
  @Inv.claim_as s f .Other h s.evictor s.ckpt hnone hclaim (fun _ => Iff.rfl) (EvictOk.claim h hclaim)
    (fun _ hg => hg) (fun _ _ _ hg => hg) trivial (CkptOk.claim h hnone)

/-- A clean frame with no flush has its page durable. -/
theorem FrameOk.durable_of_clean {r : CkptFrame} (h : FrameOk s r) (hclean : Clean r) {lsn : ℕ}
    (hlsn : (r.page_id, lsn) ∈ s.records) : lsn ≤ s.durable r.page_id := by
  rcases h.covered lsn hlsn with hdur | hdirty | ⟨c, hc, -⟩
  · exact hdur
  · rw [hclean.1] at hdirty
    simp at hdirty
  · rw [hclean.2] at hc
    simp at hc

/-- What `flush_frame_write` finds clean is clean. -/
theorem Inv.clean_of_not_claimable (h : Inv s) (hnone : (s.frames f).flushing = none)
    (hclaim : ¬ s.Claimable f) : Clean (s.frames f) := by
  refine ⟨?_, hnone⟩
  by_cases hp : (s.frames f).page_id = PageId.INVALID
  · exact ((h.frames f).empty hp).2.1
  · exact Bool.eq_false_iff.mpr fun hd => hclaim ⟨hd, hp⟩

end Flush

/-! ### The parties on their own -/

section Parties

variable {s t : CkptPool} {f n : ℕ} {e : EvictPc} {c : CkptPc}

theorem moves_parties : Moves s { s with clock := s.clock + n, evictor := e, ckpt := c } f :=
  ⟨fun _ _ => rfl, rfl, rfl, rfl, fun _ => le_refl _, fun _ => le_refl _, fun _ _ => rfl, le_refl _,
    fun _ _ _ hb => .inl hb, Nat.le_add_right _ _, fun _ _ hl => .inl hl⟩

/-- A step of the evictor or the checkpoint that touches no frame. -/
theorem Inv.parties (h : Inv s) (htable : ∀ g, e = .Unmapped g ↔ s.evictor = .Unmapped g)
    (hevict : EvictOk { s with clock := s.clock + n, evictor := e, ckpt := c })
    (hevictor : ∀ g, s.evictor = .Flushing g → e = .Flushing g)
    (hckpt_flush : ∀ g b ps, s.ckpt = .Own b g ps → c = .Own b g ps)
    (hckpt : CkptOk { s with clock := s.clock + n, evictor := e, ckpt := c }) :
    Inv { s with clock := s.clock + n, evictor := e, ckpt := c } := by
  have m : Moves s { s with clock := s.clock + n, evictor := e, ckpt := c } 0 := moves_parties
  refine h.moves m ((h.frames 0).of_eq rfl rfl rfl)
    (fun cl hcl => (h.stages 0 cl hcl).moves m) h.durable_le h.synced_le
    (h.synced.moves m h.synced_le) htable hevict (fun g st hg => hevictor g (h.evictor_flush g st hg))
    (fun g st hg => ?_) hckpt
  obtain ⟨b, ps, hck⟩ := h.ckpt_flush g st hg
  exact ⟨b, ps, hckpt_flush g b ps hck⟩

theorem Inv.log (h : Inv s) : Inv { s with clock := s.clock + n } :=
  h.parties (e := s.evictor) (c := s.ckpt) (fun _ => Iff.rfl) h.evict (fun _ hg => hg)
    (fun _ _ _ hg => hg)
    (h.ckpt.moves (moves_parties (f := 0)) rfl fun _ _ _ hb hown =>
      hown.moves (moves_parties (f := 0)) hb rfl)

/-- The evictor goes on from `s.evictor`, which is not a flush of its own, to `e`. -/
theorem Inv.evictor_to (h : Inv s) (hfrom : ∀ g, s.evictor ≠ .Flushing g ∧ s.evictor ≠ .Unmapped g)
    (hto : ∀ g, e ≠ .Unmapped g) (hevict : EvictOk { s with evictor := e }) :
    Inv { s with evictor := e } :=
  h.parties (n := 0) (c := s.ckpt) (fun g => iff_of_false (hto g) (hfrom g).2) hevict
    (fun g hg => absurd hg (hfrom g).1) (fun _ _ _ hg => hg) h.ckpt

/-- The checkpoint goes on from `s.ckpt`, which is not a flush of its own, to `c`. -/
theorem Inv.ckpt_to (h : Inv s) (hfrom : ∀ b g ps, s.ckpt ≠ .Own b g ps)
    (hckpt : CkptOk { s with ckpt := c }) : Inv { s with ckpt := c } :=
  h.parties (n := 0) (e := s.evictor) (fun _ => Iff.rfl) h.evict (fun _ hg => hg)
    (fun g b ps hg => absurd hg (hfrom b g ps)) hckpt

end Parties

/-! ### Evictions -/

section Evict

variable {s t : CkptPool} {f g : ℕ} {p : PageId}

/-- The evictor takes or gives back a frame: only `evicting` changes. -/
theorem Inv.set_evicting (h : Inv s) {v : Bool} {e : EvictPc}
    (hfrom : ∀ g, s.evictor ≠ .Flushing g ∧ s.evictor ≠ .Unmapped g)
    (hto : ∀ g, e ≠ .Unmapped g)
    (hevict : EvictOk { (s.modify f fun r => { r with evicting := v }) with evictor := e }) :
    Inv { (s.modify f fun r => { r with evicting := v }) with evictor := e } := by
  have hr := h.frames f
  have hm := moves_modify (s := s) (f := f) (k := fun r => { r with evicting := v }) rfl
    fun _ _ _ hb => hb
  have m : Moves s { (s.modify f fun r => { r with evicting := v }) with evictor := e } f :=
    hm.with_parties e s.ckpt
  have hflush : ∀ g, ((s.modify f fun r => { r with evicting := v }).frames g).flushing =
      (s.frames g).flushing := by
    intro g
    by_cases hg : g = f
    · rw [hg, modify_frames_self]
    · rw [modify_frames_of_ne _ hg]
  refine h.moves m ?_ (fun c hc => ?_) h.durable_le h.synced_le (h.synced.moves m h.synced_le)
    (fun g => iff_of_false (hto g) (hfrom g).2) hevict (fun g st hg => ?_) (fun g st hg => ?_) ?_
  · simp only [modify_frames_self]
    exact ⟨hr.guards, hr.empty, hr.marked, hr.content, hr.applied, hr.covered⟩
  · rw [m.page]
    exact (h.stages f c (by rwa [← hflush])).moves m
  · rw [hflush] at hg
    exact absurd (h.evictor_flush g st hg) (hfrom g).1
  · rw [hflush] at hg
    exact h.ckpt_flush g st hg
  · exact h.ckpt.moves m rfl fun b _ _ hb hown => hown.moves m hb (hflush f)

/-- The mapping of a durable victim is removed. -/
theorem Inv.unmap (h : Inv s) (hfrom : ∀ g, s.evictor ≠ .Flushing g ∧ s.evictor ≠ .Unmapped g)
    (hf : f < s.frame_count) (hvictim : Victim (s.frames f)) (hclean : Clean (s.frames f)) :
    Inv { s with
      page_table := if (s.frames f).page_id ≠ PageId.INVALID then
        update s.page_table (s.frames f).page_id none else s.page_table
      evictor := .Unmapped f } := by
  set page_table := if (s.frames f).page_id ≠ PageId.INVALID then
        update s.page_table (s.frames f).page_id none else s.page_table with htab
  have hself : page_table (s.frames f).page_id = none := by
    rw [htab]
    split_ifs with hp
    · exact update_self _ _ _
    · by_contra hne
      obtain ⟨g, hg⟩ := Option.ne_none_iff_exists'.mp hne
      exact hp (h.table.mapped _ g hg).2
  have hother : ∀ q, q ≠ (s.frames f).page_id → page_table q = s.page_table q := by
    intro q hq
    rw [htab]
    split_ifs
    · exact update_of_ne hq _ _
    · rfl
  refine ⟨fun g => (h.frames g).of_eq rfl rfl rfl, h.stages, h.durable_le, h.synced_le, h.synced,
    h.logged, h.absent, ⟨fun q g hq => ?_, fun g hg => ?_, fun g hg => ?_, h.table.bounded⟩,
    evictOk_of_frame rfl hf ⟨hvictim, hclean⟩,
    fun g st hg => absurd (h.evictor_flush g st hg) (hfrom g).1, h.ckpt_flush, h.ckpt⟩
  · replace hq : page_table q = some g := hq
    by_cases hqf : q = (s.frames f).page_id
    · rw [hqf, hself] at hq
      simp at hq
    · rw [hother q hqf] at hq
      exact h.table.mapped q g hq
  · by_cases hgf : (s.frames g).page_id = (s.frames f).page_id
    · rw [h.table.unique (hgf ▸ hg) hgf]
      exact .inr rfl
    · have hmapped := (h.table.resident g hg).resolve_right (hfrom g).2
      exact .inl ((hother _ hgf).trans hmapped)
  · rw [EvictPc.Unmapped.injEq] at hg
    rw [← hg]
    exact hself

/-- Frame `f` changes its page while no flush is on it and its old page is safe. -/
structure Remaps (s t : CkptPool) (f : ℕ) : Prop where
  others : ∀ g, g ≠ f → t.frames g = s.frames g
  idle : (s.frames f).flushing = none
  idle' : (t.frames f).flushing = none
  safe : ∀ lsn, ((s.frames f).page_id, lsn) ∈ s.records → lsn ≤ s.durable (s.frames f).page_id
  rest : t.written = s.written ∧ t.durable = s.durable ∧ t.flush_gen = s.flush_gen ∧
    t.synced_gen = s.synced_gen ∧ t.records = s.records ∧ t.clock = s.clock ∧ t.ckpt = s.ckpt ∧
    t.frame_count = s.frame_count

theorem Remaps.flushing (m : Remaps s t f) {c : FlushClaim} (hc : (t.frames g).flushing = some c) :
    t.frames g = s.frames g := by
  refine m.others g fun hg => ?_
  rw [hg, m.idle'] at hc
  simp at hc

theorem Remaps.covers (m : Remaps s t f) {gen : ℕ} {d : PageId → ℕ} (h : s.Covers gen d) :
    t.Covers gen d := by
  intro g owner img my_gen hg hgen
  have heq := m.flushing hg
  rw [heq] at hg ⊢
  exact h g owner img my_gen hg hgen

theorem Remaps.stage (m : Remaps s t f) {stage : FlushStage} (h : s.StageOk p stage) :
    t.StageOk p stage := by
  obtain ⟨hw, hd, hgen, -⟩ := m.rest
  cases stage with
  | Claimed => trivial
  | Written img => simpa only [StageOk, hw] using h
  | Checked img => simpa only [StageOk, hw] using h
  | Bumped img my_gen => simpa only [StageOk, hw, hgen] using h
  | Covering img covered => simpa only [StageOk, hw, hgen] using h
  | Syncing img covered snap =>
    obtain ⟨himg, hsnap, hcovered, hcovers⟩ := h
    exact ⟨himg, by rw [hw]; exact hsnap, by rw [hgen]; exact hcovered, m.covers hcovers⟩
  | Synced img covered =>
    obtain ⟨himg, hcovered, hcovers⟩ := h
    exact ⟨by rw [hd]; exact himg, by rw [hgen]; exact hcovered, by rw [hd]; exact m.covers hcovers⟩
  | Durable img => simpa only [StageOk, hd] using h

theorem Remaps.ckpt (m : Remaps s t f) (h : CkptOk s) : CkptOk t := by
  obtain ⟨-, hd, -, -, hrec, hclock, hck, -⟩ := m.rest
  have hsafe : ∀ b p, t.Safe b p ↔ s.Safe b p := fun b p => by rw [Safe, Safe, hrec, hd]
  have hpage : ∀ b g p, (s.frames g).page_id = p → s.Safe b p ∨ (t.frames g).page_id = p := by
    intro b g p hp
    by_cases hg : g = f
    · rw [hg] at hp
      exact .inl (hp ▸ fun lsn hlsn _ => m.safe lsn hlsn)
    · exact .inr (by rw [m.others g hg, hp])
  unfold CkptOk at h ⊢
  simp only [hck, hclock, hsafe]
  cases hk : s.ckpt <;> rw [hk] at h
  case Idle => trivial
  case Aborted => trivial
  case Flushing b ps => exact h
  case Done b => exact h
  case Scanning b i ps =>
    refine ⟨h.1, fun p => ?_⟩
    rcases h.2 p with hp | hp | ⟨g, hig, hp⟩
    · exact .inl hp
    · exact .inr (.inl hp)
    · exact (hpage b g p hp).imp_right fun hp' => .inr ⟨g, hig, hp'⟩
  case Waiting b g ps =>
    refine ⟨h.1, fun p => ?_⟩
    rcases h.2 p with hp | hp | hp
    · exact .inl hp
    · exact .inr (.inl hp)
    · exact (hpage b g p hp).imp_right Or.inr
  case Own b g ps =>
    obtain ⟨hb, ⟨stage, hstage, himage⟩, hpages⟩ := h
    have hg : g ≠ f := fun hg => by
      rw [hg, m.idle] at hstage
      simp at hstage
    refine ⟨hb, ⟨stage, by rw [m.others g hg, hstage], ?_⟩, fun p => ?_⟩
    · rw [m.others g hg, hrec]
      exact himage
    · rw [m.others g hg]
      exact hpages p

/-- **Frame `f` changes its page.** -/
theorem Inv.remaps (h : Inv s) (m : Remaps s t f) (hframe : FrameOk s (t.frames f))
    (htable : TableOk t) (hevict : EvictOk t) (hidle : ∀ g, s.evictor ≠ .Flushing g) : Inv t := by
  obtain ⟨hw, hd, hgen, hsgen, hrec, hclock, hck, -⟩ := m.rest
  refine ⟨fun g => FrameOk.of_eq ?_ hw hd hrec, fun g c hc => ?_, by rw [hd, hw]; exact h.durable_le,
    by rw [hsgen, hgen]; exact h.synced_le, by rw [hsgen, hd]; exact m.covers h.synced,
    by rw [hrec, hclock]; exact h.logged, fun p lsn hlsn => ?_, htable, hevict,
    fun g st hg => ?_, fun g st hg => ?_, m.ckpt h.ckpt⟩
  · by_cases hg : g = f
    · rw [hg]
      exact hframe
    · rw [m.others g hg]
      exact h.frames g
  · have heq := m.flushing hc
    rw [heq] at hc ⊢
    exact m.stage (h.stages g c hc)
  · rw [hrec] at hlsn
    rw [hd]
    rcases h.absent p lsn hlsn with ⟨g, hg⟩ | hdur
    · by_cases hgf : g = f
      · rw [hgf] at hg
        subst hg
        exact .inr (m.safe lsn hlsn)
      · exact .inl ⟨g, by rw [m.others g hgf, hg]⟩
    · exact .inr hdur
  · have heq := m.flushing hg
    rw [heq] at hg
    exact absurd (h.evictor_flush g st hg) (hidle g)
  · have heq := m.flushing hg
    rw [heq] at hg
    rw [hck]
    exact h.ckpt_flush g st hg

/-- An evicted page is durable, so nothing is lost with its frame. -/
theorem Inv.reset (h : Inv s) (hev : s.evictor = .Unmapped f) :
    Inv { (s.modify f fun r =>
        { r with page_id := PageId.INVALID, pin_count := 0, dirty := false, evicting := false,
                 flushing := none }) with
      evictor := .Empty f } := by
  have hr := h.frames f
  obtain ⟨hlt, ⟨-, hpin⟩, hclean⟩ := h.evict_at hev rfl
  have hguards := hr.guards
  rw [hpin] at hguards
  have hfree := hr.free_of_unpinned hpin
  refine h.remaps (f := f)
    ⟨fun g hg => update_of_ne hg _ _, hclean.2, by simp only [modify_frames_self],
      fun lsn hlsn => hr.durable_of_clean hclean hlsn, rfl, rfl, rfl, rfl, rfl, rfl, rfl, rfl⟩
    ?_ ⟨fun p g hp => ?_, fun g hg => ?_, fun g hg => absurd hg (by simp), fun g hg => ?_⟩
    (evictOk_of_frame rfl hlt ?_) (fun g => by simp [hev])
  · simp only [modify_frames_self]
    refine ⟨hguards, fun _ => ⟨rfl, rfl, rfl⟩, fun hw => ?_, fun h0 => absurd rfl h0,
      fun lsn hlsn => absurd rfl (h.logged _ lsn hlsn).1,
      fun lsn hlsn => absurd rfl (h.logged _ lsn hlsn).1⟩
    simp only [hfree] at hw
    simp at hw
  · replace hp : s.page_table p = some g := hp
    have hmapped := h.table.mapped p g hp
    have hg : g ≠ f := fun hg => by
      have hnone := h.table.unmapped f hev
      rw [← hg, hmapped.1, hp] at hnone
      simp at hnone
    simp only [modify_frames_of_ne _ hg]
    exact hmapped
  · by_cases hgf : g = f
    · simp only [hgf, modify_frames_self] at hg
      exact absurd rfl hg
    · simp only [modify_frames_of_ne _ hgf] at hg ⊢
      refine .inl ((h.table.resident g hg).resolve_right fun hu => hgf ?_)
      rw [hev, EvictPc.Unmapped.injEq] at hu
      exact hu.symm
  · by_cases hgf : g = f
    · rw [hgf]
      exact hlt
    · simp only [modify_frames_of_ne _ hgf] at hg
      exact h.table.bounded g hg
  · simp only [EvictFrame, modify_frames_self]

/-- A page that is read back has every record: it was durable when its frame was given up. -/
theorem Inv.load (h : Inv s) (hev : s.evictor = .Empty f) (hp : p ≠ PageId.INVALID)
    (hnone : s.page_table p = none) :
    Inv { (s.modify f fun r =>
        { r with page_id := p, pin_count := 1, dirty := false, content := s.written p }) with
      page_table := update s.page_table p (some f)
      evictor := .Idle } := by
  have hr := h.frames f
  obtain ⟨hlt, hpage⟩ := h.evict_at hev rfl
  replace hpage : (s.frames f).page_id = PageId.INVALID := hpage
  obtain ⟨hpin, -, hflush⟩ := hr.empty hpage
  have hguards := hr.guards
  rw [hpin] at hguards
  have hfree := hr.free_of_unpinned hpin
  -- no frame holds the page, for it is in no table and no frame is half-way out
  have hnowhere : ∀ g, (s.frames g).page_id ≠ p := by
    intro g hg
    rcases h.table.resident g (hg ▸ hp) with hm | hu
    · rw [hg, hnone] at hm
      simp at hm
    · rw [hev] at hu
      simp at hu
  have hdurable : ∀ lsn, (p, lsn) ∈ s.records → lsn ≤ s.durable p := by
    intro lsn hlsn
    rcases h.absent p lsn hlsn with ⟨g, hg⟩ | hdur
    · exact absurd hg (hnowhere g)
    · exact hdur
  refine h.remaps (f := f)
    ⟨fun g hg => update_of_ne hg _ _, hflush, by simp only [modify_frames_self, hflush],
      fun lsn hlsn => absurd hpage (h.logged _ lsn hlsn).1, rfl, rfl, rfl, rfl, rfl, rfl, rfl, rfl⟩
    ?_ ⟨fun q g hq => ?_, fun g hg => ?_, fun g hg => absurd hg (by simp), fun g hg => ?_⟩
    (fun g hg => absurd hg (by simp [EvictPc.frame])) (fun g => by simp [hev])
  · simp only [modify_frames_self]
    refine ⟨?_, fun h0 => absurd h0 hp, fun hw => ?_, fun _ => le_refl _,
      fun lsn hlsn => .inl ((hdurable lsn hlsn).trans (h.durable_le p)),
      fun lsn hlsn => .inl (hdurable lsn hlsn)⟩
    · exact hguards.trans (Nat.zero_le _)
    · simp only [hfree] at hw
      simp at hw
  · by_cases hqp : q = p
    · simp only [hqp, update_self, Option.some.injEq] at hq
      rw [← hq, hqp]
      simp only [modify_frames_self]
      exact ⟨trivial, hp⟩
    · simp only [update_of_ne hqp] at hq
      have hmapped := h.table.mapped q g hq
      have hg : g ≠ f := fun hg => by
        rw [hg, hpage] at hmapped
        exact hmapped.2 hmapped.1.symm
      simp only [modify_frames_of_ne _ hg]
      exact hmapped
  · refine .inl ?_
    by_cases hgf : g = f
    · simp only [hgf, modify_frames_self, update_self]
    · simp only [modify_frames_of_ne _ hgf] at hg ⊢
      rw [update_of_ne (hnowhere g)]
      exact (h.table.resident g hg).resolve_right (by simp [hev])
  · by_cases hgf : g = f
    · rw [hgf]
      exact hlt
    · simp only [modify_frames_of_ne _ hgf] at hg
      exact h.table.bounded g hg

theorem Inv.evict_step (h : Inv s) {op : EvictOp} (hstep : s.evict_step op = some t) : Inv t := by
  unfold CkptPool.evict_step at hstep
  split at hstep
  case h_1 f hev =>
    obtain ⟨⟨hlt, hpin, -, hnone⟩, rfl⟩ := guarded hstep
    refine h.set_evicting (fun g => by simp [hev]) (fun g => by simp) (evictOk_of_frame rfl hlt ?_)
    simp only [EvictFrame, modify_frames_self]
    exact ⟨⟨rfl, hpin⟩, fun hd => ⟨hd, Option.isNone_iff_eq_none.mp hnone⟩⟩
  case h_2 f hev =>
    obtain ⟨hlt, hvictim, -⟩ := h.evict_at hev rfl
    split_ifs at hstep with hsome hclaim <;> cases hstep
    · have hnone : (s.frames f).flushing = none := by simpa using hsome
      refine @Inv.claim_as s f .Evictor h (.Flushing f) s.ckpt hnone hclaim (fun g => by simp [hev])
        (evictOk_of_frame rfl hlt ?_) (fun g hg => by simp [hev] at hg) (fun _ _ _ hg => hg) rfl
        (CkptOk.claim h hnone)
      simp only [EvictFrame, CkptPool.claim, modify_frames_self]
      exact ⟨hvictim, trivial, _, rfl⟩
    · have hnone : (s.frames f).flushing = none := by simpa using hsome
      exact h.evictor_to (fun g => by simp [hev]) (fun g => by simp)
        (evictOk_of_frame rfl hlt ⟨hvictim, h.clean_of_not_claimable hnone hclaim⟩)
  case h_3 f hev =>
    cases hstep
    obtain ⟨hlt, hvictim, hclean⟩ := h.evict_at hev rfl
    exact h.unmap (fun g => by simp [hev]) hlt hvictim (hclean rfl)
  case h_4 f hev =>
    cases hstep
    obtain ⟨hlt, hvictim, hclean⟩ := h.evict_at hev rfl
    exact h.unmap (fun g => by simp [hev]) hlt hvictim hclean
  case h_5 f hev =>
    cases hstep
    exact h.reset hev
  case h_6 page_id f hev =>
    obtain ⟨⟨hp, hnone⟩, rfl⟩ := guarded hstep
    exact h.load hev hp hnone
  case h_7 f hev =>
    cases hstep
    exact h.evictor_to (fun g => by simp [hev]) (fun g => by simp) fun g hg =>
      absurd hg (by simp [EvictPc.frame])
  case h_8 f hev =>
    cases hstep
    exact h.set_evicting (fun g => by simp [hev]) (fun g => by simp) fun g hg =>
      absurd hg (by simp [EvictPc.frame])
  case h_9 => simp at hstep

end Evict

/-! ### The checkpoint -/

section Ckpt

variable {s t : CkptPool} {f : ℕ} {p : PageId}

/-- A page that is not in the table is durable. -/
theorem Inv.durable_of_not_mapped (h : Inv s) (hnone : s.page_table p = none) {lsn : ℕ}
    (hlsn : (p, lsn) ∈ s.records) : lsn ≤ s.durable p := by
  rcases h.absent p lsn hlsn with ⟨g, rfl⟩ | hdur
  · rcases h.table.resident g (h.logged _ lsn hlsn).1 with hm | hu
    · rw [hnone] at hm
      simp at hm
    · -- the evictor has unmapped it and not yet reset the frame
      exact (h.frames g).durable_of_clean (h.evict_at hu rfl).2.2 hlsn
  · exact hdur

theorem Inv.ckpt_step (h : Inv s) {op : CkptOp} (hok : s.ScanOk (.ckpt op))
    (hstep : s.ckpt_step op = some t) : Inv t := by
  have hckpt := h.ckpt
  unfold CkptPool.ckpt_step at hstep
  split at hstep
  case h_1 size hck =>
    obtain ⟨-, rfl⟩ := guarded hstep
    refine h.parties (e := s.evictor) (fun _ => Iff.rfl) h.evict (fun _ hg => hg)
      (fun g b ps hg => by simp [hck] at hg) ⟨Nat.le_add_right _ _, fun p => ?_⟩
    by_cases hp : ∃ g, (s.frames g).page_id = p
    · obtain ⟨g, hg⟩ := hp
      exact .inr (.inr ⟨g, Nat.zero_le _, hg⟩)
    · exact .inl fun lsn hlsn _ => (h.absent p lsn hlsn).resolve_left hp
  case h_2 b i ps hck =>
    unfold CkptOk at hckpt
    rw [hck] at hckpt
    obtain ⟨-, rfl⟩ := guarded hstep
    refine h.ckpt_to (fun _ _ _ => by simp [hck]) ⟨hckpt.1, fun p => ?_⟩
    rcases hckpt.2 p with hsafe | hmem | ⟨g, hig, hg⟩
    · exact .inl hsafe
    · refine .inr (.inl ?_)
      split_ifs
      · exact List.mem_append_left _ hmem
      · exact hmem
    · rcases Nat.eq_or_lt_of_le hig with rfl | hlt
      · by_cases hclaim : s.Claimable i
        · rw [if_pos hclaim, ← hg]
          exact .inr (.inl (List.mem_append_right _ (List.mem_singleton_self _)))
        · -- clean, and by the condition with no flush in flight
          left
          intro lsn hlsn _
          rw [← hg] at hlsn ⊢
          refine (h.frames i).durable_of_clean (h.clean_of_not_claimable ?_ hclaim) hlsn
          by_contra hne
          have hdirty := hok i (by rw [hck]; rfl) (Option.isSome_iff_ne_none.mpr hne)
          exact hclaim ⟨hdirty, (h.logged _ lsn hlsn).1⟩
      · exact .inr (.inr ⟨g, hlt, hg⟩)
  case h_3 b i ps hck =>
    unfold CkptOk at hckpt
    rw [hck] at hckpt
    split_ifs at hstep with hi
    cases hstep
    refine h.ckpt_to (fun _ _ _ => by simp [hck]) ⟨hckpt.1, fun p => ?_⟩
    rcases hckpt.2 p with hsafe | hmem | ⟨g, hig, hg⟩
    · exact .inl hsafe
    · exact .inr hmem
    · left
      intro lsn hlsn _
      have hlt := h.table.bounded g (by rw [hg]; exact (h.logged p lsn hlsn).1)
      omega
  case h_4 b p ps hck =>
    unfold CkptOk at hckpt
    rw [hck] at hckpt
    split at hstep
    · rename_i hnone
      cases hstep
      refine h.ckpt_to (fun _ _ _ => by simp [hck]) ⟨hckpt.1, fun q => ?_⟩
      rcases hckpt.2 q with hsafe | hmem
      · exact .inl hsafe
      · rcases List.mem_cons.mp hmem with rfl | hmem
        · exact .inl fun lsn hlsn _ => h.durable_of_not_mapped hnone hlsn
        · exact .inr hmem
    · rename_i f hsome
      cases hstep
      refine h.ckpt_to (fun _ _ _ => by simp [hck]) ⟨hckpt.1, fun q => ?_⟩
      rcases hckpt.2 q with hsafe | hmem
      · exact .inl hsafe
      · rcases List.mem_cons.mp hmem with rfl | hmem
        · exact .inr (.inr (h.table.mapped q f hsome).1)
        · exact .inr (.inl hmem)
  case h_5 b f ps hck =>
    unfold CkptOk at hckpt
    rw [hck] at hckpt
    obtain ⟨hb, hpages⟩ := hckpt
    split_ifs at hstep with hsome hclaim <;> cases hstep
    · have hnone : (s.frames f).flushing = none := by simpa using hsome
      have m : Moves s { (s.claim f .Checkpoint) with ckpt := .Own b f ps } f :=
        moves_claim.with_parties s.evictor (.Own b f ps)
      refine @Inv.claim_as s f .Checkpoint h s.evictor (.Own b f ps) hnone hclaim (fun _ => Iff.rfl)
        (EvictOk.claim h hclaim) (fun _ hg => hg) (fun g b ps hg => by simp [hck] at hg)
        ⟨b, ps, rfl⟩ ⟨hb, ⟨.Claimed, ?_, fun img himg => absurd himg (by simp [FlushStage.image])⟩,
          fun p => ?_⟩
      · simp only [CkptPool.claim, modify_frames_self]
      · rw [m.page]
        exact hpages p
    · have hnone : (s.frames f).flushing = none := by simpa using hsome
      have hclean := h.clean_of_not_claimable hnone hclaim
      refine h.ckpt_to (fun _ _ _ => by simp [hck]) ⟨hb, fun p => ?_⟩
      rcases hpages p with hsafe | hmem | rfl
      · exact .inl hsafe
      · exact .inr hmem
      · exact .inl fun lsn hlsn _ => (h.frames f).durable_of_clean hclean hlsn
  case h_6 b hck =>
    unfold CkptOk at hckpt
    rw [hck] at hckpt
    cases hstep
    exact h.ckpt_to (fun _ _ _ => by simp [hck])
      ⟨hckpt.1, fun p => (hckpt.2 p).resolve_right (by simp)⟩
  case h_7 hck =>
    cases hstep
    exact h.ckpt_to (fun _ _ _ => by simp [hck]) trivial
  case h_8 => simp at hstep

theorem Inv.step (h : Inv s) {op : Op} (hok : s.ScanOk op) (hstep : s.step op = some t) : Inv t := by
  cases op with
  | pin page_id => exact h.pin hstep
  | writer f op => exact h.writer_step hstep
  | log size =>
    simp only [CkptPool.step, Option.some.injEq] at hstep
    rw [← hstep]
    exact h.log
  | claim f =>
    obtain ⟨⟨hnone, hclaim⟩, rfl⟩ := guarded hstep
    exact h.claim_other (Option.isNone_iff_eq_none.mp hnone) hclaim
  | flush f op => exact h.flush_step hstep
  | evict op => exact h.evict_step hstep
  | ckpt op => exact h.ckpt_step hok hstep

theorem inv_open (frame_count clock : ℕ) (data_file : PageId → ℕ) :
    Inv (CkptPool.open frame_count clock data_file) where
  frames _ := ⟨le_refl _, fun _ => ⟨rfl, rfl, rfl⟩, fun hw => by simp [CkptPool.open] at hw,
    fun hp => absurd rfl hp, fun _ hlsn => absurd hlsn (by simp [CkptPool.open]),
    fun _ hlsn => absurd hlsn (by simp [CkptPool.open])⟩
  stages _ _ hc := absurd hc (by simp [CkptPool.open])
  durable_le _ := le_refl _
  synced_le := le_refl _
  synced _ _ _ _ hc := absurd hc (by simp [CkptPool.open])
  logged _ _ hlsn := absurd hlsn (by simp [CkptPool.open])
  absent _ _ hlsn := absurd hlsn (by simp [CkptPool.open])
  table := ⟨fun _ _ hp => absurd hp (by simp [CkptPool.open]), fun _ hp => absurd rfl hp,
    fun _ he => absurd he (by simp [CkptPool.open]), fun _ hp => absurd rfl hp⟩
  evict _ hf := absurd hf (by simp [CkptPool.open, EvictPc.frame])
  evictor_flush _ _ hc := absurd hc (by simp [CkptPool.open])
  ckpt_flush _ _ hc := absurd hc (by simp [CkptPool.open])
  ckpt := trivial

end Ckpt

end CkptPool

/-- **Checkpoint completeness**, in every interleaving in which the scan for dirty pages
meets no frame that is claimed and clean. -/
theorem checkpoint_complete (frame_count clock begin_lsn : ℕ) (data_file : PageId → ℕ)
    (ops : List CkptPool.Op) (t : CkptPool)
    (hscan : AllSteps CkptPool.step CkptPool.ScanOk (CkptPool.open frame_count clock data_file) ops)
    (hrun : run CkptPool.step (CkptPool.open frame_count clock data_file) ops = some t)
    (hdone : t.ckpt = .Done begin_lsn) : CheckpointComplete t begin_lsn := by
  have hinv := run_invariant_of_allSteps CkptPool.ScanOk CkptPool.Inv
    (fun s op u hs hok hstep => hs.step hok hstep)
    (CkptPool.inv_open frame_count clock data_file) hscan hrun
  have hckpt := hinv.ckpt
  unfold CkptPool.CkptOk at hckpt
  rw [hdone] at hckpt
  exact fun p lsn hlsn hlt => hckpt.2 p lsn hlsn hlt

/-- A checkpoint that flushes page 7 itself. -/
def dirty_frame_run : List CkptPool.Op :=
  [.evict (.choose 0), .evict .unmap, .evict .reset, .evict (.load 7), .writer 0 .latch,
    .writer 0 .mark_dirty, .writer 0 (.append 50), .ckpt (.begin 30), .writer 0 .stamp,
    .ckpt .scan, .writer 0 .release, .ckpt .collected, .ckpt .lookup, .ckpt .flush,
    .flush 0 .write, .flush 0 .bump, .flush 0 .check, .flush 0 .load_covered,
    .flush 0 .sync_start, .flush 0 .sync_end, .flush 0 .publish, .flush 0 .finish,
    .ckpt .superblock]

/-- The writer appends before the checkpoint begins and stamps the page after; the
checkpoint's flush waits for its latch. -/
theorem checkpoint_complete_dirty_frame :
    ∃ t, run CkptPool.step (CkptPool.open 1 100 fun _ => 0) dirty_frame_run = some t ∧
      (7, 100) ∈ t.records ∧ CheckpointComplete t 150 := by
  refine exists_of_map_eq (fun t => (t.ckpt, t.records)) (b := (.Done 150, [(7, 100)]))
    (by decide +kernel) fun t ht hsnap => ?_
  rw [Prod.mk.injEq] at hsnap
  exact ⟨by rw [hsnap.2]; exact List.mem_singleton_self _,
    checkpoint_complete 1 100 150 (fun _ => 0) dirty_frame_run t (by decide +kernel) ht hsnap.1⟩

end Ams
