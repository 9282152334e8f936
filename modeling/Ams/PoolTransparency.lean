/-
The buffer pool is invisible: a caller sees a plain map from page ids to pages.

The map is `last`, the bytes the last write guard on each page left, and before there
was one the bytes in the data file. `PoolCore` ties it to the pool: a frame that holds a
page holds its `last` bytes, the data file has them for every page that is in no frame
or in a clean one, and the table maps a page to a frame exactly when the frame holds the
page. Each call keeps it whether it succeeds or fails; where in a call it does not hold
(a claimed page is not dirty and not yet written), the next step of the same call
restores it.
-/
import Ams.BufferPool
import Ams.Lib.Run

set_option autoImplicit false

namespace Ams

open Ams.Lib BufferPool
open Function (update update_self update_of_ne)

/-! ## The invariant -/

structure PoolCore (s : BufferPool) (last : PageId → Page) : Prop where
  table : ∀ shard p f, s.page_table shard p = some f ↔
    shard = s.shard_index p ∧ p ≠ 0 ∧ (s.frames f).frame_meta.page_id = p
  bounded : ∀ f, (s.frames f).frame_meta.page_id ≠ 0 → f < s.frame_count
  content : ∀ f, (s.frames f).frame_meta.page_id ≠ 0 →
    (s.frames f).content = last (s.frames f).frame_meta.page_id
  clean : ∀ f, (s.frames f).frame_meta.page_id ≠ 0 → (s.frames f).frame_meta.dirty = false →
    s.data_file (s.frames f).frame_meta.page_id = last (s.frames f).frame_meta.page_id
  absent : ∀ p, p ≠ 0 → (∀ f, (s.frames f).frame_meta.page_id ≠ p) → s.data_file p = last p

/-- No guard is held and no flush is in flight. -/
def FrameMeta.Idle (m : FrameMeta) : Prop :=
  m.pin_count = 0 ∧ m.evicting = false ∧ m.flushing = false

def PoolIdle (s : BufferPool) : Prop := ∀ f, (s.frames f).frame_meta.Idle

theorem PoolIdle.of_others {s t : BufferPool} (h : PoolIdle s) (f : ℕ)
    (hothers : ∀ f', f' ≠ f → t.frames f' = s.frames f') (hf : (t.frames f).frame_meta.Idle) :
    PoolIdle t := by
  intro f'
  by_cases hf' : f' = f
  · rw [hf']
    exact hf
  · rw [hothers f' hf']
    exact h f'

section Core

variable {s t : BufferPool} {last : PageId → Page} {f : ℕ} {g : Frame → Frame}

theorem PoolCore.open (frame_count shards : ℕ) (data_file : PageId → Page) :
    PoolCore (BufferPool.open frame_count shards data_file) data_file := by
  refine ⟨fun shard p f => ⟨fun h => ?_, fun h => ?_⟩, fun f h => absurd rfl h,
    fun f h => absurd rfl h, fun f h => absurd rfl h, fun _ _ _ => rfl⟩
  · exact absurd h (by simp [BufferPool.open])
  · exact absurd h.2.2.symm h.2.1

/-- A page is in one frame at most. -/
theorem PoolCore.unique (hs : PoolCore s last) {f' : ℕ}
    (hne : (s.frames f).frame_meta.page_id ≠ 0)
    (heq : (s.frames f').frame_meta.page_id = (s.frames f).frame_meta.page_id) : f' = f := by
  have h : s.page_table (s.shard_index (s.frames f).frame_meta.page_id)
      (s.frames f).frame_meta.page_id = some f := (hs.table _ _ f).mpr ⟨rfl, hne, rfl⟩
  have h' : s.page_table (s.shard_index (s.frames f).frame_meta.page_id)
      (s.frames f).frame_meta.page_id = some f' := (hs.table _ _ f').mpr ⟨rfl, hne, heq⟩
  exact Option.mem_unique h' h

theorem PoolCore.lookup_eq_some (hs : PoolCore s last) {p : PageId} :
    s.lookup p = some f ↔ p ≠ 0 ∧ (s.frames f).frame_meta.page_id = p := by
  unfold BufferPool.lookup
  rw [hs.table]
  exact ⟨fun h => h.2, fun h => ⟨rfl, h⟩⟩

theorem PoolCore.lookup_eq_none (hs : PoolCore s last) {p : PageId} (hp : p ≠ 0) :
    s.lookup p = none ↔ ∀ f, (s.frames f).frame_meta.page_id ≠ p := by
  rw [Option.eq_none_iff_forall_ne_some]
  refine forall_congr' fun f => ?_
  rw [ne_eq, hs.lookup_eq_some]
  exact ⟨fun h heq => h ⟨hp, heq⟩, fun h hmem => h hmem.2⟩

@[simp] theorem modify_frames_self : (s.modify f g).frames f = g (s.frames f) :=
  update_self _ _ _

theorem modify_frames_of_ne {f' : ℕ} (h : f' ≠ f) : (s.modify f g).frames f' = s.frames f' :=
  update_of_ne h _ _

theorem modify_meta_frames_self {g : FrameMeta → FrameMeta} : (s.modify_meta f g).frames f =
    { s.frames f with frame_meta := g (s.frames f).frame_meta } := modify_frames_self

theorem modify_meta_frames_of_ne {g : FrameMeta → FrameMeta} {f' : ℕ} (h : f' ≠ f) :
    (s.modify_meta f g).frames f' = s.frames f' := modify_frames_of_ne h

theorem modify_modify {g' : Frame → Frame} :
    (s.modify f g).modify f g' = s.modify f fun frame => g' (g frame) := by
  unfold BufferPool.modify
  simp only [update_self, Function.update_idem]

theorem modify_set_data {data : PageId → Page} :
    { (s.modify f g) with data_file := data } = ({ s with data_file := data }).modify f g := rfl

theorem modify_page_id
    (hid : (g (s.frames f)).frame_meta.page_id = (s.frames f).frame_meta.page_id) (f' : ℕ) :
    ((s.modify f g).frames f').frame_meta.page_id = (s.frames f').frame_meta.page_id := by
  by_cases h : f' = f
  · rw [h, modify_frames_self, hid]
  · rw [modify_frames_of_ne h]

/-- A change to a frame that keeps its page, and to the page's last bytes. -/
theorem PoolCore.change (hs : PoolCore s last) {last' : PageId → Page}
    (hid : (g (s.frames f)).frame_meta.page_id = (s.frames f).frame_meta.page_id)
    (hcontent : (s.frames f).frame_meta.page_id ≠ 0 →
      (g (s.frames f)).content = last' (s.frames f).frame_meta.page_id)
    (hclean : (s.frames f).frame_meta.page_id ≠ 0 → (g (s.frames f)).frame_meta.dirty = false →
      s.data_file (s.frames f).frame_meta.page_id = last' (s.frames f).frame_meta.page_id)
    (hlast : ∀ q, q ≠ (s.frames f).frame_meta.page_id → last' q = last q) :
    PoolCore (s.modify f g) last' := by
  have hpage := modify_page_id hid
  have hother : ∀ f', f' ≠ f → (s.frames f').frame_meta.page_id ≠ 0 →
      last' (s.frames f').frame_meta.page_id = last (s.frames f').frame_meta.page_id :=
    fun f' h hne => hlast _ fun heq => h (hs.unique (heq ▸ hne) heq)
  refine ⟨fun shard p f' => ?_, fun f' hne => ?_, fun f' hne => ?_, fun f' hne hd => ?_,
    fun p hp hall => ?_⟩
  · rw [hpage]
    exact hs.table shard p f'
  · rw [hpage] at hne
    exact hs.bounded f' hne
  · rw [hpage] at hne ⊢
    by_cases h : f' = f
    · rw [h] at hne ⊢
      rw [modify_frames_self, hcontent hne]
    · rw [modify_frames_of_ne h, hother f' h hne]
      exact hs.content f' hne
  · rw [hpage] at hne ⊢
    by_cases h : f' = f
    · rw [h] at hne hd ⊢
      rw [modify_frames_self] at hd
      exact hclean hne hd
    · rw [modify_frames_of_ne h] at hd
      rw [hother f' h hne]
      exact hs.clean f' hne hd
  · rw [hlast p fun h => hall f (by rw [hpage, h])]
    exact hs.absent p hp fun f' => by rw [← hpage]; exact hall f'

/-- A change to a frame that keeps its page and its bytes, and calls a page clean only when it
is on disk. -/
theorem PoolCore.modify (hs : PoolCore s last)
    (hid : (g (s.frames f)).frame_meta.page_id = (s.frames f).frame_meta.page_id)
    (hcontent : (s.frames f).frame_meta.page_id ≠ 0 →
      (g (s.frames f)).content = (s.frames f).content)
    (hclean : (s.frames f).frame_meta.page_id ≠ 0 → (g (s.frames f)).frame_meta.dirty = false →
      (s.frames f).frame_meta.dirty = false ∨
        s.data_file (s.frames f).frame_meta.page_id = last (s.frames f).frame_meta.page_id) :
    PoolCore (s.modify f g) last := by
  refine hs.change hid (fun hne => (hcontent hne).trans (hs.content f hne)) (fun hne hd => ?_)
    fun _ _ => rfl
  rcases hclean hne hd with hd | hd
  · exact hs.clean f hne hd
  · exact hd

theorem PoolCore.modify_meta (hs : PoolCore s last) {g : FrameMeta → FrameMeta}
    (hid : (g (s.frames f).frame_meta).page_id = (s.frames f).frame_meta.page_id)
    (hclean : (g (s.frames f).frame_meta).dirty = false → (s.frames f).frame_meta.dirty = false) :
    PoolCore (s.modify_meta f g) last :=
  hs.modify hid (fun _ => rfl) fun _ hd => .inl (hclean hd)

/-- A change to the bytes of a page, by a guard that leaves it dirty. -/
theorem PoolCore.modify_content (hs : PoolCore s last) {p : PageId}
    (hf : (s.frames f).frame_meta.page_id = p) (hid : (g (s.frames f)).frame_meta.page_id = p)
    (hdirty : (g (s.frames f)).frame_meta.dirty = true) :
    PoolCore (s.modify f g) (update last p (g (s.frames f)).content) := by
  subst hf
  refine hs.change hid (fun _ => by rw [update_self]) (fun _ hd => ?_) fun q hq => update_of_ne hq ..
  rw [hdirty] at hd
  exact absurd hd (by decide)

/-- A write to the data file: of the page's own bytes, or of anything while it is dirty. -/
theorem PoolCore.set_data (hs : PoolCore s last) {p : PageId} {page : Page}
    (hwrite : page = last p ∨ ∃ f, (s.frames f).frame_meta.page_id = p ∧ p ≠ 0 ∧
      (s.frames f).frame_meta.dirty = true) :
    PoolCore { s with data_file := update s.data_file p page } last := by
  refine ⟨hs.table, hs.bounded, hs.content, fun f hne hd => ?_, fun q hq hall => ?_⟩
  · by_cases h : (s.frames f).frame_meta.page_id = p
    · rcases hwrite with heq | ⟨f', hf', hp, hd'⟩
      · simp only [h, update_self, heq]
      · have hff : f = f' := hs.unique (by rw [hf']; exact hp) (h.trans hf'.symm)
        simp only [hff, hd'] at hd
        exact absurd hd (by decide)
    · simp only [update_of_ne h]
      exact hs.clean f hne hd
  · by_cases h : q = p
    · rcases hwrite with heq | ⟨f', hf', -, -⟩
      · simp only [h, update_self, heq]
      · exact absurd (hf'.trans h.symm) (hall f')
    · simp only [update_of_ne h]
      exact hs.absent q hq hall

end Core

/-! ## Flushes -/

/-- What is left of a plan after some operations. -/
structure IoAfter (io io' : PoolIo) : Prop where
  reliable : io.budget = none → io'.budget = none
  current_lsn : io'.current_lsn = io.current_lsn

theorem IoAfter.refl (io : PoolIo) : IoAfter io io := ⟨fun h => h, rfl⟩

theorem IoAfter.trans {io io' io'' : PoolIo} (h : IoAfter io io') (h' : IoAfter io' io'') :
    IoAfter io io'' :=
  ⟨fun hb => h'.reliable (h.reliable hb), h'.current_lsn.trans h.current_lsn⟩

theorem op_ok {io io' : PoolIo} (h : io.op = .ok io') : IoAfter io io' := by
  unfold PoolIo.op at h
  split at h
  · rw [← Except.ok.inj h]
    exact IoAfter.refl io
  · simp at h
  · rename_i n hb
    rw [← Except.ok.inj h]
    exact ⟨fun hnone => absurd (hb.symm.trans hnone) (by simp), rfl⟩

theorem op_error {io : PoolIo} {e : PoolStop} (h : io.op = .error e) :
    io.budget ≠ none ∧ e ≠ .Waits := by
  unfold PoolIo.op at h
  split at h
  · simp at h
  · rename_i hb
    rw [← Except.error.inj h]
    exact ⟨by rw [hb]; simp, by simp⟩
  · simp at h

theorem wal_before_data_ok {lsn : Lsn} {io io' : PoolIo} (h : wal_before_data lsn io = .ok io') :
    IoAfter io io' := by
  unfold wal_before_data at h
  split_ifs at h
  · split at h
    · simp at h
    · rename_i io₁ hop
      rw [← Except.ok.inj h]
      exact ⟨(op_ok hop).reliable, (op_ok hop).current_lsn⟩
  · rw [← Except.ok.inj h]
    exact IoAfter.refl io

theorem wal_before_data_error {lsn : Lsn} {io : PoolIo} {e : PoolStop}
    (h : wal_before_data lsn io = .error e) : io.budget ≠ none ∧ e ≠ .Waits := by
  unfold wal_before_data at h
  split_ifs at h
  split at h
  · rename_i e' hop
    rw [← Except.error.inj h]
    exact op_error hop
  · simp at h

/-- What a flush leaves alone. -/
structure FlushEffect (s t : BufferPool) (f : ℕ) : Prop where
  others : ∀ f', f' ≠ f → t.frames f' = s.frames f'
  page_id : (t.frames f).frame_meta.page_id = (s.frames f).frame_meta.page_id
  content : (t.frames f).content = (s.frames f).content
  pin_count : (t.frames f).frame_meta.pin_count = (s.frames f).frame_meta.pin_count
  evicting : (t.frames f).frame_meta.evicting = (s.frames f).frame_meta.evicting
  reference : (t.frames f).frame_meta.reference = (s.frames f).frame_meta.reference
  table : t.page_table = s.page_table
  frame_count : t.frame_count = s.frame_count
  shards : t.shards = s.shards
  clock_hand : t.clock_hand = s.clock_hand
  checkpoint_lsn : t.checkpoint_lsn = s.checkpoint_lsn

section Flush

variable {s t : BufferPool} {last : PageId → Page} {f : ℕ} {io : PoolIo}

theorem FlushEffect.refl (s : BufferPool) (f : ℕ) : FlushEffect s s f :=
  ⟨fun _ _ => rfl, rfl, rfl, rfl, rfl, rfl, rfl, rfl, rfl, rfl, rfl⟩

/-- How the write half of a flush can end. -/
theorem flush_frame_write_cases (s : BufferPool) (f : ℕ) (io : PoolIo)
    (hidle : (s.frames f).frame_meta.flushing = false) :
    (((s.frames f).frame_meta.dirty = false ∨ (s.frames f).frame_meta.page_id = 0) ∧
      s.flush_frame_write f io = (s, .ok (none, io))) ∨
    ((s.frames f).frame_meta.dirty = true ∧ (s.frames f).frame_meta.page_id ≠ 0 ∧
      ∃ saved, ((∃ e data, e ≠ .Waits ∧ io.budget ≠ none ∧
          (data = s.data_file ∨
            ∃ page, data = update s.data_file (s.frames f).frame_meta.page_id page) ∧
          s.flush_frame_write f io =
            (({ s with data_file := data }).modify_meta f (fun m =>
              { m with
                dirty := true
                first_dirty_lsn := restore_first_dirty_lsn 0 saved
                flushing := false }), .error e)) ∨
        (∃ io', IoAfter io io' ∧
          s.flush_frame_write f io =
            (({ s with
                data_file := update s.data_file (s.frames f).frame_meta.page_id
                  (s.frames f).content }).modify_meta f (fun m =>
              { m with flushing := true, dirty := false, first_dirty_lsn := 0, needs_fpi := true }),
              .ok (some saved, io'))))) := by
  by_cases hclean : (s.frames f).frame_meta.dirty = false ∨ (s.frames f).frame_meta.page_id = 0
  · refine .inl ⟨hclean, ?_⟩
    unfold BufferPool.flush_frame_write
    simp only [hidle, Bool.false_eq_true, if_false, if_pos hclean]
  · have hdirty : (s.frames f).frame_meta.dirty = true ∧ (s.frames f).frame_meta.page_id ≠ 0 := by
      rw [not_or, Bool.not_eq_false] at hclean
      exact hclean
    refine .inr ⟨hdirty.1, hdirty.2, (s.frames f).frame_meta.first_dirty_lsn, ?_⟩
    unfold BufferPool.flush_frame_write
    simp only [hidle, Bool.false_eq_true, if_false, if_neg hclean, modify_meta, modify_frames_self]
    cases hwal : wal_before_data (page_pd_lsn (s.frames f).content) io with
    | error e =>
      obtain ⟨hb, he⟩ := wal_before_data_error hwal
      refine .inl ⟨e, s.data_file, he, hb, .inl rfl, ?_⟩
      simp only [restore_dirty, modify_meta, modify_modify]
    | ok io₁ =>
      simp only
      cases hop : io₁.op with
      | error e =>
        obtain ⟨hb, he⟩ := op_error hop
        refine .inl ⟨e, _, he, fun h => hb ((wal_before_data_ok hwal).reliable h), .inr ⟨io₁.torn, rfl⟩, ?_⟩
        simp only [restore_dirty, modify_meta]
        rw [modify_set_data, modify_modify]
        rfl
      | ok io₂ =>
        refine .inr ⟨io₂, (wal_before_data_ok hwal).trans (op_ok hop), ?_⟩
        simp only
        rw [modify_set_data, modify_modify]
        rfl

/-- A change of a frame's flags after a flush, or without one. -/
theorem FlushEffect.then_modify_meta (h : FlushEffect s t f) {data : PageId → Page}
    {gen synced : ℕ} {g : FrameMeta → FrameMeta}
    (hg : ∀ m, (g m).page_id = m.page_id ∧ (g m).pin_count = m.pin_count ∧
      (g m).evicting = m.evicting ∧ (g m).reference = m.reference) :
    FlushEffect s (({ t with
      data_file := data, flush_gen := gen, synced_gen := synced }).modify_meta f g) f := by
  obtain ⟨hid, hpin, hev, href⟩ := hg (t.frames f).frame_meta
  refine ⟨fun f' hf => ?_, ?_, ?_, ?_, ?_, ?_, h.table, h.frame_count, h.shards, h.clock_hand,
    h.checkpoint_lsn⟩
  · rw [modify_meta_frames_of_ne hf]
    exact h.others f' hf
  · rw [modify_meta_frames_self, ← h.page_id]
    exact hid
  · rw [modify_meta_frames_self, ← h.content]
  · rw [modify_meta_frames_self, ← h.pin_count]
    exact hpin
  · rw [modify_meta_frames_self, ← h.evicting]
    exact hev
  · rw [modify_meta_frames_self, ← h.reference]
    exact href

/-- **The write half of a flush** keeps the invariant. A claim leaves the page clean and on
disk, with the frame marked as flushing; a failure leaves it dirty. -/
theorem flush_frame_write_spec (hs : PoolCore s last)
    (hidle : (s.frames f).frame_meta.flushing = false)
    {r : Except PoolStop (Option Lsn × PoolIo)} (h : s.flush_frame_write f io = (t, r)) :
    PoolCore t last ∧ FlushEffect s t f ∧
      EndsWith r (fun e => e ≠ .Waits ∧ io.budget ≠ none ∧ (t.frames f).frame_meta.flushing = false)
        fun x => (t.frames f).frame_meta.flushing = x.1.isSome ∧
          ((t.frames f).frame_meta.page_id ≠ 0 → (t.frames f).frame_meta.dirty = false) ∧
          IoAfter io x.2 := by
  rcases flush_frame_write_cases s f io hidle with ⟨hclean, heq⟩ | ⟨hdirty, hne, saved, herr | hok⟩
  · cases heq.symm.trans h
    refine ⟨hs, FlushEffect.refl s f, hidle, fun hne => ?_, IoAfter.refl _⟩
    rcases hclean with hclean | hzero
    · exact hclean
    · exact absurd hzero hne
  · obtain ⟨e, data, he, hb, hdata, heq⟩ := herr
    cases heq.symm.trans h
    -- the page may be torn on disk, and is dirty
    have hcore : PoolCore { s with data_file := data } last := by
      rcases hdata with rfl | ⟨page, rfl⟩
      · exact hs
      · exact hs.set_data (.inr ⟨f, rfl, hne, hdirty⟩)
    refine ⟨hcore.modify_meta rfl fun hd => absurd hd (by simp),
      (FlushEffect.refl s f).then_modify_meta fun _ => ⟨rfl, rfl, rfl, rfl⟩, he, hb, ?_⟩
    rw [modify_meta_frames_self]
  · obtain ⟨io₁, hb, heq⟩ := hok
    cases heq.symm.trans h
    have hcore : PoolCore { s with
        data_file := update s.data_file (s.frames f).frame_meta.page_id
          (s.frames f).content } last := hs.set_data (.inl (hs.content f hne))
    refine ⟨hcore.modify rfl (fun _ => rfl) (fun _ _ => .inr ?_),
      (FlushEffect.refl s f).then_modify_meta fun _ => ⟨rfl, rfl, rfl, rfl⟩, ?_⟩
    · show update s.data_file _ _ _ = _
      rw [update_self]
      exact hs.content f hne
    · rw [modify_meta_frames_self]
      exact ⟨rfl, fun _ => rfl, hb⟩

/-- Only the frames, the table, the shape and the data file matter. -/
theorem PoolCore.of_eq (hs : PoolCore s last) (hframes : t.frames = s.frames)
    (htable : t.page_table = s.page_table) (hcount : t.frame_count = s.frame_count)
    (hshards : t.shards = s.shards) (hdata : t.data_file = s.data_file) : PoolCore t last := by
  refine ⟨fun shard p f => ?_, fun f hne => ?_, fun f hne => ?_, fun f hne hd => ?_,
    fun p hp hall => ?_⟩
  · rw [htable, hframes, BufferPool.shard_index, hshards]
    exact hs.table shard p f
  · rw [hframes] at hne
    rw [hcount]
    exact hs.bounded f hne
  · rw [hframes] at hne ⊢
    exact hs.content f hne
  · rw [hframes] at hne hd ⊢
    rw [hdata]
    exact hs.clean f hne hd
  · rw [hframes] at hall
    rw [hdata]
    exact hs.absent p hp hall

theorem PoolCore.restore_dirty (hs : PoolCore s last) (f : ℕ) (saved : Lsn) :
    PoolCore (s.restore_dirty f saved) last := by
  unfold BufferPool.restore_dirty BufferPool.modify_meta
  exact hs.modify rfl (fun _ => rfl) fun _ hd => absurd hd (by simp)

/-- **A flush** keeps the invariant, and if it succeeds the page is clean. -/
theorem flush_frame_spec (hs : PoolCore s last) (hidle : (s.frames f).frame_meta.flushing = false)
    {r : Except PoolStop PoolIo} (h : s.flush_frame f io = (t, r)) :
    PoolCore t last ∧ FlushEffect s t f ∧ (t.frames f).frame_meta.flushing = false ∧
      EndsWith r (fun e => e ≠ .Waits ∧ io.budget ≠ none) fun io' =>
        ((t.frames f).frame_meta.page_id ≠ 0 → (t.frames f).frame_meta.dirty = false) ∧
        IoAfter io io' := by
  unfold BufferPool.flush_frame at h
  cases hwrite : s.flush_frame_write f io with
  | mk s₁ r₁ =>
  obtain ⟨hcore, heff, hend⟩ := flush_frame_write_spec hs hidle hwrite
  rw [hwrite] at h
  match r₁ with
  | .error e =>
    cases h
    obtain ⟨he, hb, hflush⟩ := hend
    exact ⟨hcore, heff, hflush, he, hb⟩
  | .ok (none, io₁) =>
    cases h
    obtain ⟨hflush, hclean, hb⟩ := hend
    exact ⟨hcore, heff, hflush, hclean, hb⟩
  | .ok (some saved, io₁) =>
    obtain ⟨-, hclean, hb⟩ := hend
    -- ending the flush, in any of the states the generations can be in
    have hended : ∀ gen synced io', IoAfter io io' → ∀ u,
        u = ({ s₁ with flush_gen := gen, synced_gen := synced }).modify_meta f
          (fun m => { m with flushing := false }) →
        PoolCore u last ∧ FlushEffect s u f ∧ (u.frames f).frame_meta.flushing = false ∧
          ((u.frames f).frame_meta.page_id ≠ 0 → (u.frames f).frame_meta.dirty = false) ∧
          IoAfter io io' := by
      rintro gen synced io' hio u rfl
      have hcore' : PoolCore { s₁ with flush_gen := gen, synced_gen := synced } last :=
        hcore.of_eq rfl rfl rfl rfl rfl
      refine ⟨hcore'.modify_meta rfl fun hd => hd, ?_, ?_⟩
      · exact heff.then_modify_meta fun _ => ⟨rfl, rfl, rfl, rfl⟩
      · rw [modify_meta_frames_self]
        exact ⟨rfl, hclean, hio⟩
    simp only at h
    split_ifs at h with hgen
    · cases hop : io₁.op with
      | error e =>
        rw [hop] at h
        cases h
        obtain ⟨hbe, he⟩ := op_error hop
        refine ⟨?_, ?_, ?_, he, fun h => hbe (hb.reliable h)⟩
        · have hcore' : PoolCore { s₁ with flush_gen := s₁.flush_gen + 1 } last :=
            hcore.of_eq rfl rfl rfl rfl rfl
          exact hcore'.restore_dirty f saved
        · exact heff.then_modify_meta fun _ => ⟨rfl, rfl, rfl, rfl⟩
        · rw [restore_dirty, modify_meta_frames_self]
      | ok io₂ =>
        rw [hop] at h
        cases h
        exact hended _ _ io₂ (hb.trans (op_ok hop)) _ rfl
    · cases h
      exact hended _ _ io₁ hb _ rfl

end Flush

/-! ## Eviction -/

/-- What no call but its setter changes. -/
structure SameShape (s t : BufferPool) : Prop where
  frame_count : t.frame_count = s.frame_count
  shards : t.shards = s.shards
  checkpoint_lsn : t.checkpoint_lsn = s.checkpoint_lsn

/-- What finding a frame leaves alone: no page comes in. -/
structure EvictEffect (s t : BufferPool) : Prop extends SameShape s t where
  pages : ∀ f, (t.frames f).frame_meta.page_id ≠ 0 →
    (t.frames f).frame_meta.page_id = (s.frames f).frame_meta.page_id

theorem EvictEffect.trans {s t u : BufferPool} (h : EvictEffect s t) (h' : EvictEffect t u) :
    EvictEffect s u := by
  refine ⟨⟨h'.frame_count.trans h.frame_count, h'.shards.trans h.shards,
    h'.checkpoint_lsn.trans h.checkpoint_lsn⟩, fun f hne => ?_⟩
  have hpage := h'.pages f hne
  rw [hpage] at hne ⊢
  exact h.pages f hne

section Evict

variable {s t : BufferPool} {last : PageId → Page} {f : ℕ} {io : PoolIo}

theorem vacate_frames (p : PageId) : (s.vacate f p).frames =
    update s.frames f { s.frames f with frame_meta := {} } := by
  unfold BufferPool.vacate
  simp only
  split_ifs
  · rfl
  · rfl

theorem vacate_fields (p : PageId) : (s.vacate f p).data_file = s.data_file ∧
    (s.vacate f p).frame_count = s.frame_count ∧ (s.vacate f p).shards = s.shards ∧
    (s.vacate f p).checkpoint_lsn = s.checkpoint_lsn := by
  unfold BufferPool.vacate
  simp only
  split_ifs
  · exact ⟨rfl, rfl, rfl, rfl⟩
  · exact ⟨rfl, rfl, rfl, rfl⟩

/-- Taking a clean page out of its frame. -/
theorem PoolCore.vacate (hs : PoolCore s last) {p : PageId}
    (hf : (s.frames f).frame_meta.page_id = p)
    (hclean : p ≠ 0 → (s.frames f).frame_meta.dirty = false) : PoolCore (s.vacate f p) last := by
  have hself : ((s.vacate f p).frames f).frame_meta.page_id = 0 := by
    rw [vacate_frames, update_self]
  have hother : ∀ f', f' ≠ f → (s.vacate f p).frames f' = s.frames f' := by
    intro f' h
    rw [vacate_frames, update_of_ne h]
  obtain ⟨hdata, hcount, hshards, -⟩ := @vacate_fields s f p
  have hshard : ∀ q, (s.vacate f p).shard_index q = s.shard_index q := by
    intro q
    rw [BufferPool.shard_index, hshards]
    rfl
  -- the table has lost the page's entry and no other
  have htable : ∀ shard q, (s.vacate f p).page_table shard q =
      if p ≠ 0 ∧ shard = s.shard_index p ∧ q = p then none else s.page_table shard q := by
    intro shard q
    unfold BufferPool.vacate
    simp only
    split_ifs with h0 h1 h2
    · exact absurd h0 h1.1
    · rfl
    · show (if shard = s.shard_index p ∧ q = p then none else s.page_table shard q) = none
      rw [if_pos h2.2]
    · show (if shard = s.shard_index p ∧ q = p then none else s.page_table shard q) = _
      rw [if_neg fun h => h2 ⟨h0, h⟩]
  have hne : ∀ f', ((s.vacate f p).frames f').frame_meta.page_id ≠ 0 → f' ≠ f := by
    intro f' h heq
    rw [heq] at h
    exact h hself
  refine ⟨fun shard q f' => ?_, fun f' h => ?_, fun f' h => ?_, fun f' h hd => ?_, fun q hq hall => ?_⟩
  · rw [htable, hshard]
    by_cases hgone : p ≠ 0 ∧ shard = s.shard_index p ∧ q = p
    · rw [if_pos hgone]
      refine ⟨fun h => absurd h (by simp), fun ⟨_, hq, hpage⟩ => ?_⟩
      have hf' := hne f' (by rw [hpage]; exact hq)
      rw [hother f' hf', hgone.2.2, ← hf] at hpage
      exact absurd (hs.unique (by rw [hf]; exact hgone.1) hpage) hf'
    · rw [if_neg hgone, hs.table]
      by_cases hff : f' = f
      · rw [hff, hself, hf]
        refine ⟨fun ⟨hsh, hq, hpq⟩ => ?_, fun ⟨_, hq, hpq⟩ => absurd hpq.symm hq⟩
        rw [← hpq] at hsh hq
        exact absurd ⟨hq, hsh, hpq.symm⟩ hgone
      · rw [hother f' hff]
  · have hf' := hne f' h
    rw [hother f' hf'] at h
    rw [hcount]
    exact hs.bounded f' h
  · have hf' := hne f' h
    rw [hother f' hf'] at h ⊢
    exact hs.content f' h
  · have hf' := hne f' h
    rw [hother f' hf'] at h hd ⊢
    rw [hdata]
    exact hs.clean f' h hd
  · rw [hdata]
    by_cases hqp : q = p
    · rw [hqp, ← hf]
      rw [hqp] at hq
      exact hs.clean f (by rw [hf]; exact hq) (hclean hq)
    · refine hs.absent q hq fun f' => ?_
      by_cases hff : f' = f
      · rw [hff, hf]
        exact fun h => hqp h.symm
      · rw [← hother f' hff]
        exact hall f'

/-- **The victim** is flushed if it is dirty, and then taken out; a failed flush leaves it where
it was. -/
theorem evict_victim_spec (hs : PoolCore s last) (hidle : PoolIdle s) {hand : ℕ}
    {r : Except PoolStop (ℕ × PoolIo)} (h : s.evict_victim hand io = (t, r)) :
    PoolCore t last ∧ PoolIdle t ∧ EvictEffect s t ∧
      EndsWith r (fun e => e ≠ .Waits ∧ io.budget ≠ none) fun x => x.1 = hand ∧
        (t.frames hand).frame_meta.page_id = 0 ∧ IoAfter io x.2 := by
  obtain ⟨hpin, hev, hfl⟩ := hidle hand
  have hcore : PoolCore (s.modify_meta hand fun m => { m with evicting := true }) last :=
    hs.modify_meta rfl fun hd => hd
  unfold BufferPool.evict_victim at h
  simp only at h
  cases hflush : (if (s.frames hand).frame_meta.dirty = true ∧
      (s.frames hand).frame_meta.page_id ≠ PageId.INVALID then
        (s.modify_meta hand fun m => { m with evicting := true }).flush_frame hand io
      else (s.modify_meta hand fun m => { m with evicting := true }, .ok io)) with
  | mk u r₁ =>
  rw [hflush] at h
  -- what is known of the flushed state, whether the victim was dirty or not
  have hflushed : PoolCore u last ∧ (u.frames hand).frame_meta.flushing = false ∧
      (∀ f', f' ≠ hand → u.frames f' = s.frames f') ∧
      (u.frames hand).frame_meta.page_id = (s.frames hand).frame_meta.page_id ∧
      (u.frames hand).frame_meta.pin_count = 0 ∧ u.frame_count = s.frame_count ∧
      u.shards = s.shards ∧ u.checkpoint_lsn = s.checkpoint_lsn ∧
      EndsWith r₁ (fun e => e ≠ .Waits ∧ io.budget ≠ none) fun io' =>
        ((u.frames hand).frame_meta.page_id ≠ 0 → (u.frames hand).frame_meta.dirty = false) ∧
        IoAfter io io' := by
    split_ifs at hflush with hdirty
    · obtain ⟨hcore', heff, hfl', hend⟩ :=
        flush_frame_spec hcore (by rw [modify_meta_frames_self]; exact hfl) hflush
      refine ⟨hcore', hfl', fun f' hf' => ?_, ?_, ?_, heff.frame_count, heff.shards,
        heff.checkpoint_lsn, hend⟩
      · rw [heff.others f' hf']
        exact modify_frames_of_ne hf'
      · rw [heff.page_id, modify_meta_frames_self]
      · rw [heff.pin_count, modify_meta_frames_self]
        exact hpin
    · cases hflush
      rw [modify_meta_frames_self]
      refine ⟨hcore, hfl, fun f' hf' => modify_frames_of_ne hf', rfl, hpin, rfl, rfl, rfl, fun hne => ?_,
        IoAfter.refl io⟩
      by_contra hd
      rw [Bool.not_eq_false] at hd
      exact hdirty ⟨hd, hne⟩
  obtain ⟨hcore', hfl', hothers, hpage, hpin', hcount, hshards, hckpt, hend⟩ := hflushed
  match r₁ with
  | .error e =>
    cases h
    refine ⟨hcore'.modify_meta rfl fun hd => hd, hidle.of_others hand (fun f' hf' => ?_) ?_,
      ⟨⟨hcount, hshards, hckpt⟩, fun f' _ => ?_⟩, hend⟩
    · rw [modify_meta_frames_of_ne hf', hothers f' hf']
    · rw [modify_meta_frames_self]
      exact ⟨hpin', rfl, hfl'⟩
    · by_cases hf' : f' = hand
      · rw [hf', modify_meta_frames_self]
        exact hpage
      · rw [modify_meta_frames_of_ne hf', hothers f' hf']
  | .ok io₁ =>
    cases h
    obtain ⟨hclean, hafter⟩ := hend
    refine ⟨hcore'.vacate hpage fun hne => hclean (by rw [hpage]; exact hne),
      hidle.of_others hand (fun f' hf' => ?_) ?_, ⟨⟨?_, ?_, ?_⟩, fun f' hne => ?_⟩, rfl, ?_, hafter⟩
    · rw [vacate_frames, update_of_ne hf', hothers f' hf']
    · rw [vacate_frames, update_self]
      exact ⟨rfl, rfl, rfl⟩
    · exact (vacate_fields _).2.1.trans hcount
    · exact (vacate_fields _).2.2.1.trans hshards
    · exact (vacate_fields _).2.2.2.trans hckpt
    · rw [vacate_frames] at hne ⊢
      by_cases hf' : f' = hand
      · rw [hf', update_self] at hne
        exact absurd rfl hne
      · rw [update_of_ne hf', hothers f' hf']
    · rw [vacate_frames, update_self]

/-- A scan of one frame, when no guard is held: it loses its reference bit, or is the victim. -/
theorem evict_scan_succ (hidle : PoolIdle s) (scans : ℕ) (io : PoolIo) :
    evict_scan (scans + 1) s io =
      if (s.frames (s.clock_hand % s.frame_count)).frame_meta.reference then
        evict_scan scans (({ s with clock_hand := s.clock_hand + 1 }).modify_meta
          (s.clock_hand % s.frame_count) fun m => { m with reference := false }) io
      else ({ s with clock_hand := s.clock_hand + 1 }).evict_victim
        (s.clock_hand % s.frame_count) io := by
  obtain ⟨hpin, hev, hfl⟩ := hidle (s.clock_hand % s.frame_count)
  rw [evict_scan]
  simp only
  rw [if_neg]
  rw [hpin, hev, hfl]
  simp

theorem PoolCore.clear_reference (hs : PoolCore s last) {hand : ℕ} :
    PoolCore (({ s with clock_hand := s.clock_hand + 1 }).modify_meta hand
      fun m => { m with reference := false }) last := by
  have hs' : PoolCore { s with clock_hand := s.clock_hand + 1 } last := hs.of_eq rfl rfl rfl rfl rfl
  exact hs'.modify_meta rfl fun hd => hd

theorem PoolIdle.clear_reference (hs : PoolIdle s) {hand : ℕ} :
    PoolIdle (({ s with clock_hand := s.clock_hand + 1 }).modify_meta hand
      fun m => { m with reference := false }) := by
  refine hs.of_others hand (fun f' hf' => modify_frames_of_ne hf') ?_
  rw [modify_meta_frames_self]
  exact hs hand

/-- **The CLOCK scan** gives an empty frame or an error, and keeps the invariant. -/
theorem evict_scan_spec {scans : ℕ} (hs : PoolCore s last) (hidle : PoolIdle s)
    (hn : 0 < s.frame_count) {r : Except PoolStop (ℕ × PoolIo)}
    (h : evict_scan scans s io = (t, r)) :
    PoolCore t last ∧ PoolIdle t ∧ EvictEffect s t ∧
      EndsWith r (· ≠ .Waits) fun x => x.1 < s.frame_count ∧
        (t.frames x.1).frame_meta.page_id = 0 ∧ IoAfter io x.2 := by
  induction scans generalizing s with
  | zero =>
    cases h
    exact ⟨hs, hidle, ⟨⟨rfl, rfl, rfl⟩, fun _ _ => rfl⟩, PoolStop.noConfusion⟩
  | succ scans ih =>
    rw [evict_scan_succ hidle] at h
    generalize hhand : s.clock_hand % s.frame_count = hand at h
    split_ifs at h with href
    · have heff : EvictEffect s (({ s with clock_hand := s.clock_hand + 1 }).modify_meta hand
          fun m => { m with reference := false }) := by
        refine ⟨⟨rfl, rfl, rfl⟩, fun f _ => ?_⟩
        by_cases hf : f = hand
        · rw [hf, modify_meta_frames_self]
        · rw [modify_meta_frames_of_ne hf]
      obtain ⟨hcore, hidle', heff', hend⟩ := ih hs.clear_reference hidle.clear_reference hn h
      exact ⟨hcore, hidle', heff.trans heff', hend⟩
    · have hs' : PoolCore { s with clock_hand := s.clock_hand + 1 } last :=
        hs.of_eq rfl rfl rfl rfl rfl
      have hidle' : PoolIdle { s with clock_hand := s.clock_hand + 1 } := hidle
      obtain ⟨hcore, hid, heff, hend⟩ := evict_victim_spec hs' hidle' h
      refine ⟨hcore, hid, ⟨⟨heff.frame_count, heff.shards, heff.checkpoint_lsn⟩, heff.pages⟩, ?_⟩
      match r with
      | .error e => exact hend.1
      | .ok (hand', io') =>
        obtain ⟨rfl, hempty, hafter⟩ := hend
        exact ⟨hhand ▸ Nat.mod_lt _ hn, hempty, hafter⟩

/-- A scan finds a frame without its reference bit, if there is one before it ends. -/
theorem evict_scan_reliable {scans j : ℕ} (hs : PoolCore s last) (hidle : PoolIdle s)
    (hio : io.budget = none) (hj : j < scans)
    (href : (s.frames ((s.clock_hand + j) % s.frame_count)).frame_meta.reference = false) :
    ∃ t hand io', evict_scan scans s io = (t, .ok (hand, io')) := by
  induction scans generalizing s j with
  | zero => exact absurd hj (Nat.not_lt_zero j)
  | succ scans ih =>
    rw [evict_scan_succ hidle]
    split_ifs with hbit
    · -- the frame at the hand is passed over, so the one we know of comes later
      have hj0 : j ≠ 0 := by
        rintro rfl
        rw [Nat.add_zero, hbit] at href
        exact absurd href (by decide)
      apply @ih _ (j - 1) hs.clear_reference hidle.clear_reference (by omega)
      have hpos : s.clock_hand + 1 + (j - 1) = s.clock_hand + j := by omega
      show ((({ s with clock_hand := s.clock_hand + 1 }).modify_meta
        (s.clock_hand % s.frame_count) fun m => { m with reference := false }).frames
        ((s.clock_hand + 1 + (j - 1)) % s.frame_count)).frame_meta.reference = false
      rw [hpos]
      by_cases hf : (s.clock_hand + j) % s.frame_count = s.clock_hand % s.frame_count
      · rw [hf, modify_meta_frames_self]
      · rw [modify_meta_frames_of_ne hf]
        exact href
    · have hs' : PoolCore { s with clock_hand := s.clock_hand + 1 } last :=
        hs.of_eq rfl rfl rfl rfl rfl
      have hidle' : PoolIdle { s with clock_hand := s.clock_hand + 1 } := hidle
      cases hvictim : ({ s with clock_hand := s.clock_hand + 1 } : BufferPool).evict_victim
        (s.clock_hand % s.frame_count) io with
      | mk t r =>
      match r with
      | .error e =>
        exact absurd hio (evict_victim_spec hs' hidle' hvictim).2.2.2.2
      | .ok (hand, io') => exact ⟨t, hand, io', rfl⟩

/-- **With one frame and no failure there is always a victim**: the first pass over the frames
clears the reference bits. -/
theorem evict_frame_reliable (hs : PoolCore s last) (hidle : PoolIdle s) (hn : 0 < s.frame_count)
    (hio : io.budget = none) : ∃ t hand io', s.evict_frame io = (t, .ok (hand, io')) := by
  unfold BufferPool.evict_frame
  rw [if_neg (by omega)]
  by_cases hbit : (s.frames (s.clock_hand % s.frame_count)).frame_meta.reference = false
  · exact @evict_scan_reliable s last io _ 0 hs hidle hio (by omega) hbit
  · obtain ⟨scans, hscans⟩ : ∃ scans, s.frame_count * 2 = scans + 1 := ⟨s.frame_count * 2 - 1, by omega⟩
    rw [hscans, evict_scan_succ hidle, if_pos (by rwa [Bool.not_eq_false] at hbit)]
    apply @evict_scan_reliable _ last io _ (s.frame_count - 1) hs.clear_reference
      hidle.clear_reference hio (by omega)
    have hround : (s.clock_hand + 1 + (s.frame_count - 1)) % s.frame_count =
        s.clock_hand % s.frame_count := by
      rw [show s.clock_hand + 1 + (s.frame_count - 1) = s.clock_hand + s.frame_count by omega,
        Nat.add_mod_right]
    show ((({ s with clock_hand := s.clock_hand + 1 }).modify_meta
      (s.clock_hand % s.frame_count) fun m => { m with reference := false }).frames
      ((s.clock_hand + 1 + (s.frame_count - 1)) % s.frame_count)).frame_meta.reference = false
    rw [hround, modify_meta_frames_self]

end Evict

/-! ## Pins -/

/-- One guard is held, on frame `f`. -/
structure PoolPinned (s : BufferPool) (f : ℕ) : Prop where
  others : ∀ f', f' ≠ f → (s.frames f').frame_meta.Idle
  pin_count : (s.frames f).frame_meta.pin_count = 1
  evicting : (s.frames f).frame_meta.evicting = false
  flushing : (s.frames f).frame_meta.flushing = false

section Pin

variable {s t : BufferPool} {last : PageId → Page} {f : ℕ} {io : PoolIo} {p : PageId}
  {g : Frame → Frame}

theorem PoolPinned.modify (hs : PoolPinned s f)
    (hpin : (g (s.frames f)).frame_meta.pin_count = (s.frames f).frame_meta.pin_count)
    (hev : (g (s.frames f)).frame_meta.evicting = (s.frames f).frame_meta.evicting)
    (hfl : (g (s.frames f)).frame_meta.flushing = (s.frames f).frame_meta.flushing) :
    PoolPinned (s.modify f g) f := by
  refine ⟨fun f' hf' => ?_, ?_, ?_, ?_⟩
  · rw [modify_frames_of_ne hf']
    exact hs.others f' hf'
  · rw [modify_frames_self, hpin]
    exact hs.pin_count
  · rw [modify_frames_self, hev]
    exact hs.evicting
  · rw [modify_frames_self, hfl]
    exact hs.flushing

/-- Dropping the guard. -/
theorem PoolPinned.drop (hs : PoolPinned s f)
    (hpin : (g (s.frames f)).frame_meta.pin_count = (s.frames f).frame_meta.pin_count - 1)
    (hev : (g (s.frames f)).frame_meta.evicting = (s.frames f).frame_meta.evicting)
    (hfl : (g (s.frames f)).frame_meta.flushing = (s.frames f).frame_meta.flushing) :
    PoolIdle (s.modify f g) := by
  intro f'
  by_cases hf' : f' = f
  · rw [hf', modify_frames_self]
    refine ⟨?_, hev.trans hs.evicting, hfl.trans hs.flushing⟩
    rw [hpin, hs.pin_count]
  · rw [modify_frames_of_ne hf']
    exact hs.others f' hf'

/-- A resident page is pinned where it is. -/
theorem try_pin_resident_of_lookup (hs : PoolCore s last) (hidle : PoolIdle s)
    (h : s.lookup p = some f) :
    ∃ t, s.try_pin_resident p = some (t, f) ∧ PoolCore t last ∧ PoolPinned t f ∧
      (t.frames f).frame_meta.page_id = p ∧ SameShape s t := by
  obtain ⟨-, hpage⟩ := hs.lookup_eq_some.mp h
  obtain ⟨hpin, hev, hfl⟩ := hidle f
  refine ⟨s.modify_meta f fun m => { m with pin_count := m.pin_count + 1, reference := true },
    ?_, ?_, ⟨fun f' hf' => ?_, ?_, ?_, ?_⟩, ?_, ⟨rfl, rfl, rfl⟩⟩
  · unfold BufferPool.try_pin_resident
    simp only [h, hpage, hev]
    simp
  · exact hs.modify_meta rfl fun hd => hd
  · rw [modify_meta_frames_of_ne hf']
    exact hidle f'
  · rw [modify_meta_frames_self]
    show (s.frames f).frame_meta.pin_count + 1 = 1
    rw [hpin]
  · rw [modify_meta_frames_self]
    exact hev
  · rw [modify_meta_frames_self]
    exact hfl
  · rw [modify_meta_frames_self]
    exact hpage

theorem try_pin_resident_of_absent (h : s.lookup p = none) : s.try_pin_resident p = none := by
  unfold BufferPool.try_pin_resident
  simp only [h]

/-- The pool with a frame that has been handed to a page. -/
def placed (s : BufferPool) (f : ℕ) (p : PageId) (frame : Frame) : BufferPool :=
  { s with
    frames := update s.frames f frame
    page_table := fun shard q =>
      if shard = s.shard_index p ∧ q = p then some f else s.page_table shard q }

/-- What `install` makes of an empty frame. -/
def loaded (frame : Frame) (p : PageId) (content : Page) : Frame where
  frame_meta :=
    { frame.frame_meta with
      page_id := p
      pin_count := 1
      reference := true
      dirty := false
      cached_lsn := page_pd_lsn content
      first_dirty_lsn := 0
      needs_fpi := true }
  content := content

theorem install_modify {content : Page} :
    (s.modify f fun frame => { frame with content := content }).install f p =
      placed s f p (loaded (s.frames f) p content) := by
  unfold BufferPool.install
  simp only [modify_modify]
  rfl

theorem placed_modify {frame : Frame} : (placed s f p frame).modify f g = placed s f p (g frame) := by
  unfold BufferPool.modify placed
  simp only [update_self, Function.update_idem]

@[simp] theorem placed_frames_self {frame : Frame} : (placed s f p frame).frames f = frame :=
  update_self _ _ _

theorem placed_frames_of_ne {frame : Frame} {f' : ℕ} (h : f' ≠ f) :
    (placed s f p frame).frames f' = s.frames f' := update_of_ne h _ _

/-- Give an empty frame to a page that is in none. -/
theorem PoolCore.place (hs : PoolCore s last) (hf : f < s.frame_count)
    (hempty : (s.frames f).frame_meta.page_id = 0) (hp : p ≠ 0)
    (habsent : ∀ f', (s.frames f').frame_meta.page_id ≠ p) {frame : Frame}
    (hid : frame.frame_meta.page_id = p)
    (hclean : frame.frame_meta.dirty = false → s.data_file p = frame.content) :
    PoolCore (placed s f p frame) (update last p frame.content) := by
  refine ⟨fun shard q f' => ?_, fun f' hne => ?_, fun f' hne => ?_, fun f' hne hd => ?_,
    fun q hq hall => ?_⟩
  · show (if shard = s.shard_index p ∧ q = p then some f else s.page_table shard q) = some f' ↔
      shard = s.shard_index q ∧ q ≠ 0 ∧ ((placed s f p frame).frames f').frame_meta.page_id = q
    by_cases hnew : shard = s.shard_index p ∧ q = p
    · rw [if_pos hnew, hnew.2]
      refine ⟨fun h => ?_, fun h => ?_⟩
      · rw [← Option.some.inj h, placed_frames_self, hid]
        exact ⟨hnew.1, hp, rfl⟩
      · by_contra hne
        have hf' : f' ≠ f := fun heq => hne (congrArg some heq.symm)
        rw [placed_frames_of_ne hf'] at h
        exact habsent f' h.2.2
    · rw [if_neg hnew, hs.table]
      by_cases hf' : f' = f
      · rw [hf', placed_frames_self, hempty, hid]
        refine ⟨fun h => absurd h.2.2.symm h.2.1, fun ⟨hsh, _, hpq⟩ => ?_⟩
        rw [← hpq] at hsh
        exact absurd ⟨hsh, hpq.symm⟩ hnew
      · rw [placed_frames_of_ne hf']
  · by_cases hf' : f' = f
    · rw [hf']
      exact hf
    · rw [placed_frames_of_ne hf'] at hne
      exact hs.bounded f' hne
  · by_cases hf' : f' = f
    · rw [hf', placed_frames_self, hid, update_self]
    · rw [placed_frames_of_ne hf'] at hne ⊢
      rw [update_of_ne (habsent f')]
      exact hs.content f' hne
  · by_cases hf' : f' = f
    · rw [hf', placed_frames_self] at hd
      rw [hf', placed_frames_self, hid, update_self]
      exact hclean hd
    · rw [placed_frames_of_ne hf'] at hne hd ⊢
      rw [update_of_ne (habsent f')]
      exact hs.clean f' hne hd
  · have hqp : q ≠ p := by
      rintro rfl
      apply hall f
      rw [placed_frames_self, hid]
    rw [update_of_ne hqp]
    refine hs.absent q hq fun f' => ?_
    by_cases hf' : f' = f
    · rw [hf', hempty]
      exact fun h => hq h.symm
    · have := hall f'
      rwa [placed_frames_of_ne hf'] at this

/-- A frame has been found for a page that is in none. -/
structure FrameFound (s t : BufferPool) (last : PageId → Page) (p : PageId) (f : ℕ) : Prop where
  core : PoolCore t last
  idle : PoolIdle t
  bound : f < t.frame_count
  empty : (t.frames f).frame_meta.page_id = 0
  absent : ∀ f', (t.frames f').frame_meta.page_id ≠ p
  shape : SameShape s t

/-- **A miss**: the page gets an empty frame, with its bytes on disk or with zeros. -/
theorem alloc_frame_of_absent (hs : PoolCore s last) (hidle : PoolIdle s) (hn : 0 < s.frame_count)
    (hp : p ≠ 0) (habsent : s.lookup p = none) (load : Bool)
    {r : Except PoolStop (ℕ × PoolIo)} (h : s.alloc_frame p load io = (t, r)) :
    EndsWith r (fun e => e ≠ .Waits ∧ io.budget ≠ none ∧ PoolCore t last ∧ PoolIdle t ∧ SameShape s t)
      fun x => IoAfter io x.2 ∧ ∃ u, FrameFound s u last p x.1 ∧
        t = placed u x.1 p (loaded (u.frames x.1) p (if load then last p else Page.zero)) := by
  unfold BufferPool.alloc_frame at h
  rw [try_pin_resident_of_absent habsent] at h
  simp only [habsent, Option.isSome_none, Bool.false_eq_true, if_false] at h
  cases hev : s.evict_frame io with
  | mk s₁ r₁ =>
  have hevict : evict_scan (s.frame_count * 2) s io = (s₁, r₁) := by
    unfold BufferPool.evict_frame at hev
    rwa [if_neg (by omega)] at hev
  obtain ⟨hcore, hidle1, heff, hend⟩ := evict_scan_spec hs hidle hn hevict
  rw [hev] at h
  match r₁ with
  | .error e =>
    cases h
    refine ⟨hend, fun hb => ?_, hcore, hidle1, heff.toSameShape⟩
    obtain ⟨t', hand, io', hrel⟩ := evict_frame_reliable hs hidle hn hb
    exact absurd (hev.symm.trans hrel) (by simp)
  | .ok (f, io₁) =>
    obtain ⟨hf, hempty, hafter⟩ := hend
    have hfound : FrameFound s s₁ last p f := by
      refine ⟨hcore, hidle1, by rw [heff.frame_count]; exact hf, hempty, fun f' hpage => ?_,
        heff.toSameShape⟩
      have hsame := heff.pages f' (by rw [hpage]; exact hp)
      exact (hs.lookup_eq_none hp).mp habsent f' (hsame.symm.trans hpage)
    simp only at h
    match load with
    | false =>
      simp only [Bool.false_eq_true, if_false, install_modify] at h
      cases h
      exact ⟨hafter, s₁, hfound, rfl⟩
    | true =>
      simp only [if_true, BufferPool.read_page_from_disk] at h
      cases hop : io₁.op with
      | error e =>
        rw [hop] at h
        cases h
        obtain ⟨hb, hw⟩ := op_error hop
        rw [modify_modify]
        refine ⟨hw, fun h => hb (hafter.reliable h), ?_,
          hidle1.of_others f (fun f' hf' => modify_frames_of_ne hf') ?_,
          ⟨heff.frame_count, heff.shards, heff.checkpoint_lsn⟩⟩
        · exact hcore.modify rfl (fun hne => absurd hempty hne) (fun hne => absurd hempty hne)
        · rw [modify_frames_self]
          exact hidle1 f
      | ok io₂ =>
        rw [hop] at h
        simp only [modify_modify, install_modify] at h
        cases h
        refine ⟨hafter.trans (op_ok hop), s₁, hfound, ?_⟩
        rw [if_pos rfl, ← hcore.absent p hp hfound.absent]
        rfl

/-- A page that is handed a frame is pinned there. -/
theorem FrameFound.pinned (h : FrameFound s t last p f) {frame : Frame}
    (hpin : frame.frame_meta.pin_count = 1)
    (hev : frame.frame_meta.evicting = (t.frames f).frame_meta.evicting)
    (hfl : frame.frame_meta.flushing = (t.frames f).frame_meta.flushing) :
    PoolPinned (placed t f p frame) f := by
  refine ⟨fun f' hf' => ?_, ?_, ?_, ?_⟩
  · rw [placed_frames_of_ne hf']
    exact h.idle f'
  · rw [placed_frames_self, hpin]
  · rw [placed_frames_self, hev]
    exact (h.idle f).2.1
  · rw [placed_frames_self, hfl]
    exact (h.idle f).2.2

/-- **Locating a page**: it is pinned in a frame that holds it, or the call fails with the
pool as it should be. -/
theorem locate_or_load_spec (hs : PoolCore s last) (hidle : PoolIdle s) (hn : 0 < s.frame_count)
    (hp : p ≠ 0) {r : Except PoolStop (ℕ × PoolIo)} (h : s.locate_or_load p io = (t, r)) :
    EndsWith r (fun e => e ≠ .Waits ∧ io.budget ≠ none ∧ PoolCore t last ∧ PoolIdle t ∧ SameShape s t)
      fun x => IoAfter io x.2 ∧ PoolCore t last ∧ PoolPinned t x.1 ∧
        (t.frames x.1).frame_meta.page_id = p ∧ SameShape s t := by
  unfold BufferPool.locate_or_load at h
  cases hlook : s.lookup p with
  | some f =>
    obtain ⟨t', hpin, hcore, hpinned, hpage, hckpt⟩ := try_pin_resident_of_lookup hs hidle hlook
    rw [hpin] at h
    cases h
    exact ⟨IoAfter.refl _, hcore, hpinned, hpage, hckpt⟩
  | none =>
    rw [try_pin_resident_of_absent hlook] at h
    have hend := alloc_frame_of_absent hs hidle hn hp hlook true h
    match r with
    | .error e => exact hend
    | .ok (f, io') =>
      obtain ⟨hafter, u, hfound, rfl⟩ := hend
      rw [if_pos rfl]
      refine ⟨hafter, ?_, hfound.pinned rfl rfl rfl, by rw [placed_frames_self]; rfl,
        ⟨hfound.shape.frame_count, hfound.shape.shards, hfound.shape.checkpoint_lsn⟩⟩
      have hplace := hfound.core.place hfound.bound hfound.empty hp hfound.absent
        (show (loaded (u.frames f) p (last p)).frame_meta.page_id = p from rfl)
        (fun _ => hfound.core.absent p hp hfound.absent)
      have hsame : update last p (loaded (u.frames f) p (last p)).content = last :=
        Function.update_eq_self p last
      rwa [hsame] at hplace

/-! ## Write guards -/

theorem PoolPinned.unpin (hs : PoolPinned s f) (hcore : PoolCore s last) :
    PoolCore (s.unpin f) last ∧ PoolIdle (s.unpin f) := by
  unfold BufferPool.unpin BufferPool.modify_meta
  exact ⟨hcore.modify rfl (fun _ => rfl) fun _ hd => .inl hd, hs.drop rfl rfl rfl⟩

/-- What dropping a write guard does to its frame. -/
def guard_dropped (frame : Frame) : Frame :=
  let frame := if frame.frame_meta.page_id = PageId.INVALID then frame
    else
      { frame with frame_meta :=
          { frame.frame_meta with
            first_dirty_lsn := if frame.frame_meta.first_dirty_lsn = Lsn.INVALID
              then page_pd_lsn frame.content else frame.frame_meta.first_dirty_lsn
            dirty := true } }
  { frame with frame_meta :=
      { frame.frame_meta with pin_count := frame.frame_meta.pin_count - 1 } }

theorem drop_mut_eq : s.drop_mut f = s.modify f guard_dropped := by
  unfold BufferPool.drop_mut BufferPool.unpin BufferPool.modify_meta
  simp only [modify_modify]
  rfl

theorem guard_dropped_spec {frame : Frame} (hp : p ≠ 0) (hpage : frame.frame_meta.page_id = p) :
    (guard_dropped frame).frame_meta.page_id = p ∧ (guard_dropped frame).content = frame.content ∧
      (guard_dropped frame).frame_meta.dirty = true ∧
      (guard_dropped frame).frame_meta.pin_count = frame.frame_meta.pin_count - 1 ∧
      (guard_dropped frame).frame_meta.evicting = frame.frame_meta.evicting ∧
      (guard_dropped frame).frame_meta.flushing = frame.frame_meta.flushing := by
  have hne : ¬ frame.frame_meta.page_id = PageId.INVALID := by
    rw [hpage]
    exact hp
  unfold guard_dropped
  rw [if_neg hne]
  exact ⟨hpage, rfl, rfl, rfl, rfl, rfl⟩

section Guard

variable (hs : PoolPinned s f) (hcore : PoolCore s last) (hp : p ≠ 0) (hpage : (s.frames f).frame_meta.page_id = p)

include hs hcore hp hpage

/-- A write guard dropped without a change. -/
theorem PoolPinned.drop_mut : PoolCore (s.drop_mut f) last ∧ PoolIdle (s.drop_mut f) := by
  obtain ⟨hid, hcontent, hdirty, hpin, hev, hfl⟩ := guard_dropped_spec hp hpage
  rw [drop_mut_eq]
  refine ⟨hcore.modify (hid.trans hpage.symm) (fun _ => hcontent) fun _ hd => ?_,
    hs.drop hpin hev hfl⟩
  rw [hdirty] at hd
  exact absurd hd (by decide)

/-- **Using a write guard**: the bytes it leaves are the page's last. -/
theorem PoolPinned.use_mut (change : Page → Page) :
    PoolCore (s.use_mut f change) (update last p (change (s.frames f).content)) ∧
      PoolIdle (s.use_mut f change) := by
  obtain ⟨hid, hcontent, hdirty, hpin, hev, hfl⟩ :=
    @guard_dropped_spec p { s.frames f with content := change (s.frames f).content } hp hpage
  have heq : s.use_mut f change =
      s.modify f fun frame => guard_dropped { frame with content := change frame.content } := by
    unfold BufferPool.use_mut
    rw [drop_mut_eq, modify_modify]
  rw [heq]
  refine ⟨?_, hs.drop hpin hev hfl⟩
  have hcore' := hcore.modify_content
    (g := fun frame => guard_dropped { frame with content := change frame.content }) hpage hid hdirty
  rwa [show (guard_dropped { s.frames f with content := change (s.frames f).content }).content =
    change (s.frames f).content from hcontent] at hcore'

/-- The stamp of a full-page image, if one is due. -/
structure Stamped (s : BufferPool) (page seen : Page) (lsn : ℕ) : Prop where
  due : s.checkpoint_lsn ≠ 0 ∧ page_pd_lsn page < s.checkpoint_lsn
  seen : seen = set_page_pd_lsn page lsn

/-- **`ensure_fpi`** leaves the page as it is, or stamps it. -/
theorem ensure_fpi_spec {r : Except PoolStop PoolIo}
    (h : s.ensure_fpi f io = (t, r)) :
    SameShape s t ∧ EndsWith r (fun e => e ≠ .Waits ∧ io.budget ≠ none ∧ t = s) fun _ =>
      PoolPinned t f ∧ (t.frames f).frame_meta.page_id = p ∧
      ∃ last', PoolCore t last' ∧ (∀ page, update last' p page = update last p page) ∧
        ((t.frames f).content = last p ∨ Stamped s (last p) (t.frames f).content io.current_lsn) := by
  have hcontent : (s.frames f).content = last p := by
    have := hcore.content f (by rw [hpage]; exact hp)
    rwa [hpage] at this
  unfold BufferPool.ensure_fpi at h
  simp only at h
  split_ifs at h with hgate
  · cases hop : io.op with
    | error e =>
      rw [hop] at h
      cases h
      obtain ⟨hb, hw⟩ := op_error hop
      exact ⟨⟨rfl, rfl, rfl⟩, hw, hb, rfl⟩
    | ok io₁ =>
      rw [hop] at h
      cases h
      refine ⟨⟨rfl, rfl, rfl⟩, hs.modify rfl rfl rfl, ?_, _,
        hcore.modify_content hpage hpage rfl, fun page => Function.update_idem _ _ _, .inr ?_⟩
      · rw [modify_frames_self]
        exact hpage
      · rw [modify_frames_self]
        refine ⟨⟨hgate.2.1, ?_⟩, ?_⟩
        · rw [← hcontent]
          exact hgate.2.2
        · rw [← hcontent, ← (op_ok hop).current_lsn]
  · cases h
    exact ⟨⟨rfl, rfl, rfl⟩, hs, hpage, last, hcore, fun _ => rfl, .inl hcontent⟩

end Guard

end Pin

/-! ## Batches -/

/-- The pool in the middle of a batch whose claims are `pending`. -/
structure Batch (s t : BufferPool) (last : PageId → Page) (pending : List (ℕ × Lsn)) : Prop where
  core : PoolCore t last
  shape : SameShape s t
  pages : ∀ f, (t.frames f).frame_meta.page_id = (s.frames f).frame_meta.page_id
  quiet : ∀ f, (t.frames f).frame_meta.pin_count = 0 ∧ (t.frames f).frame_meta.evicting = false
  flushing : ∀ f, (t.frames f).frame_meta.flushing = true → f ∈ pending.map Prod.fst

section Batch

variable {s t : BufferPool} {last : PageId → Page} {io : PoolIo} {pending : List (ℕ × Lsn)}

theorem Batch.start (hs : PoolCore s last) (hidle : PoolIdle s) : Batch s s last [] := by
  refine ⟨hs, ⟨rfl, rfl, rfl⟩, fun _ => rfl, fun f => ⟨(hidle f).1, (hidle f).2.1⟩, fun f h => ?_⟩
  rw [(hidle f).2.2] at h
  exact absurd h (by decide)

theorem Batch.idle (h : Batch s t last []) : PoolIdle t := by
  intro f
  refine ⟨(h.quiet f).1, (h.quiet f).2, ?_⟩
  by_contra hf
  rw [Bool.not_eq_false] at hf
  exact absurd (h.flushing f hf) List.not_mem_nil

/-- A flush of one frame in a batch. -/
theorem Batch.of_effect (h : Batch s t last pending) {u : BufferPool} {f : ℕ}
    {pending' : List (ℕ × Lsn)} (hcore : PoolCore u last) (heff : FlushEffect t u f)
    (hf : (u.frames f).frame_meta.flushing = true → f ∈ pending'.map Prod.fst)
    (hothers : ∀ f', f' ≠ f → f' ∈ pending.map Prod.fst → f' ∈ pending'.map Prod.fst) :
    Batch s u last pending' := by
  refine ⟨hcore, ⟨heff.frame_count.trans h.shape.frame_count, heff.shards.trans h.shape.shards,
    heff.checkpoint_lsn.trans h.shape.checkpoint_lsn⟩, fun f' => ?_, fun f' => ?_, fun f' hfl => ?_⟩
  · by_cases hff : f' = f
    · rw [hff, heff.page_id, h.pages]
    · rw [heff.others f' hff, h.pages]
  · by_cases hff : f' = f
    · rw [hff, heff.pin_count, heff.evicting]
      exact h.quiet f
    · rw [heff.others f' hff]
      exact h.quiet f'
  · by_cases hff : f' = f
    · rw [hff] at hfl ⊢
      exact hf hfl
    · rw [heff.others f' hff] at hfl
      exact hothers f' hff (h.flushing f' hfl)

/-- **The writes of a batch.** No page is in the list twice, so no frame that is claimed is
claimed again. -/
theorem claim_all_dirty_writes_spec {pages : List PageId} {u : BufferPool}
    {pending' : List (ℕ × Lsn)} {r : Except PoolStop PoolIo} (h : Batch s t last pending)
    (hnodup : pages.Nodup)
    (hpending : ∀ f ∈ pending.map Prod.fst, (s.frames f).frame_meta.page_id ∉ pages)
    (hrun : claim_all_dirty_writes pages t io pending = (u, pending', r)) :
    Batch s u last pending' ∧ r ≠ .error .Waits := by
  induction pages generalizing t io pending with
  | nil =>
    obtain ⟨rfl, h'⟩ := Prod.mk.inj hrun
    cases h'
    exact ⟨h, by simp⟩
  | cons p rest ih =>
    obtain ⟨hp, hrest⟩ := List.nodup_cons.mp hnodup
    have hpending' : ∀ f ∈ pending.map Prod.fst, (s.frames f).frame_meta.page_id ∉ rest :=
      fun f hf hmem => hpending f hf (.tail _ hmem)
    rw [claim_all_dirty_writes] at hrun
    cases hlook : t.lookup p with
    | none =>
      rw [hlook] at hrun
      exact ih h hrest hpending' hrun
    | some f =>
      obtain ⟨-, hpage⟩ := h.core.lookup_eq_some.mp hlook
      have hfp : (s.frames f).frame_meta.page_id = p := by rw [← h.pages, hpage]
      have hidle : (t.frames f).frame_meta.flushing = false := by
        by_contra hfl
        rw [Bool.not_eq_false] at hfl
        apply hpending f (h.flushing f hfl)
        rw [hfp]
        exact .head _
      simp only [hlook] at hrun
      cases hwrite : t.flush_frame_write f io with
      | mk t₁ r₁ =>
      obtain ⟨hcore, heff, hend⟩ := flush_frame_write_spec h.core hidle hwrite
      rw [hwrite] at hrun
      match r₁ with
      | .error e =>
        obtain ⟨rfl, h'⟩ := Prod.mk.inj hrun
        cases h'
        obtain ⟨hw, -, hfl⟩ := hend
        refine ⟨h.of_effect hcore heff (fun hfl' => ?_) (fun _ _ hmem => hmem), fun heq => ?_⟩
        · rw [hfl] at hfl'
          exact absurd hfl' (by decide)
        · exact hw (Except.error.inj heq)
      | .ok (none, io₁) =>
        refine ih (h.of_effect hcore heff (fun hfl' => ?_) (fun _ _ hmem => hmem)) hrest hpending'
          hrun
        exact absurd (hend.1.symm.trans hfl') Bool.false_ne_true
      | .ok (some saved, io₁) =>
        refine ih (h.of_effect hcore heff (fun _ => ?_) (fun f' _ hmem => ?_)) hrest
          (fun f' hf' => ?_) hrun
        · simp
        · rw [List.map_append]
          exact List.mem_append_left _ hmem
        · rw [List.map_append, List.mem_append] at hf'
          rcases hf' with hf' | hf'
          · exact hpending' f' hf'
          · obtain rfl : f' = f := List.mem_singleton.mp hf'
            rw [hfp]
            exact hp

/-- Ending the claims one by one, however each is ended. -/
theorem Batch.finish {g : BufferPool → ℕ × Lsn → BufferPool}
    (hcore : ∀ {t claim}, PoolCore t last → PoolCore (g t claim) last)
    (heff : ∀ {t claim}, FlushEffect t (g t claim) claim.1)
    (hfl : ∀ {t claim}, ((g t claim).frames claim.1).frame_meta.flushing = false)
    (h : Batch s t last pending) : Batch s (pending.foldl g t) last [] := by
  induction pending generalizing t with
  | nil => exact h
  | cons claim rest ih =>
    rw [List.foldl_cons]
    refine ih (h.of_effect (hcore h.core) heff (fun hfl' => ?_) fun f' hne hmem => ?_)
    · rw [hfl] at hfl'
      exact absurd hfl' (by decide)
    · rw [List.map_cons, List.mem_cons] at hmem
      exact hmem.resolve_left hne

theorem Batch.restore_all (h : Batch s t last pending) : Batch s (t.restore_all pending) last [] := by
  unfold BufferPool.restore_all
  refine h.finish (fun hcore => hcore.restore_dirty _ _) (fun {t claim} => ?_) (fun {t claim} => ?_)
  · exact (FlushEffect.refl t claim.1).then_modify_meta fun _ => ⟨rfl, rfl, rfl, rfl⟩
  · rw [BufferPool.restore_dirty, modify_meta_frames_self]

theorem Batch.release_all (h : Batch s t last pending) : Batch s (t.release_all pending) last [] := by
  unfold BufferPool.release_all
  refine h.finish (fun {t claim} hcore => ?_) (fun {t claim} => ?_) (fun {t claim} => ?_)
  · exact hcore.modify_meta rfl fun hd => hd
  · exact (FlushEffect.refl t claim.1).then_modify_meta fun _ => ⟨rfl, rfl, rfl, rfl⟩
  · rw [modify_meta_frames_self]

theorem nodup_dirty_page_ids (hs : PoolCore s last) : s.dirty_page_ids.Nodup := by
  unfold BufferPool.dirty_page_ids
  refine List.Nodup.filterMap (fun f f' p hp hp' => ?_) List.nodup_range
  simp only [Option.mem_def, Option.ite_none_right_eq_some, Option.some.injEq] at hp hp'
  refine hs.unique hp'.1.2 ?_
  rw [hp.2, hp'.2]

end Batch

/-! ## Calls -/

/-- What the last write guards have left, after a call. -/
def after_reply (last : PageId → Page) : Except PoolStop PoolReply → PageId → Page
  | .ok (.Wrote p _ left) => update last p left
  | _ => last

/-- Every call returns, with the pool as it should be. -/
structure CallOk (s : BufferPool) (last : PageId → Page) (t : BufferPool)
    (r : Except PoolStop PoolReply) : Prop where
  core : PoolCore t (after_reply last r)
  idle : PoolIdle t
  frame_count : t.frame_count = s.frame_count
  shards : t.shards = s.shards
  returns : r ≠ .error .Waits

section Call

variable {s t : BufferPool} {last : PageId → Page} {io : PoolIo} {p : PageId}
  {r : Except PoolStop PoolReply}

/-- A call that failed with the pool as it should be. -/
theorem CallOk.failed {e : PoolStop} (h : e ≠ .Waits ∧ io.budget ≠ none ∧ PoolCore t last ∧
    PoolIdle t ∧ SameShape s t) : CallOk s last t (.error e) :=
  ⟨h.2.2.1, h.2.2.2.1, h.2.2.2.2.frame_count, h.2.2.2.2.shards, by simpa using h.1⟩

/-- **`pin`** shows the page's last bytes. -/
theorem pin_spec (hs : PoolCore s last) (hidle : PoolIdle s) (hn : 0 < s.frame_count)
    (h : s.pin p io = (t, r)) :
    CallOk s last t r ∧ (∀ reply, r = .ok reply → reply = .Read (last p)) ∧
      (p ≠ 0 → io.budget = none → ∃ reply, r = .ok reply) := by
  unfold BufferPool.pin at h
  split_ifs at h with hp
  · cases h
    exact ⟨⟨hs, hidle, rfl, rfl, by simp⟩, fun reply hr => absurd hr (by simp),
      fun hne => absurd hp hne⟩
  · cases hloc : s.locate_or_load p io with
    | mk s₁ r₁ =>
    have hend := locate_or_load_spec hs hidle hn hp hloc
    rw [hloc] at h
    match r₁ with
    | .error e =>
      cases h
      exact ⟨.failed hend, fun reply hr => absurd hr (by simp), fun _ hnone => absurd hnone hend.2.1⟩
    | .ok (f, io₁) =>
      cases h
      obtain ⟨-, hcore, hpinned, hpage, hshape⟩ := hend
      obtain ⟨hcore', hidle'⟩ := hpinned.unpin hcore
      refine ⟨⟨hcore', hidle', hshape.frame_count, hshape.shards, by simp⟩, fun reply hr => ?_,
        fun _ _ => ⟨_, rfl⟩⟩
      rw [← Except.ok.inj hr, hcore.content f (by rw [hpage]; exact hp), hpage]

/-- **`pin_mut`** shows the page's last bytes, up to the stamp of a full-page image, and what
its caller makes of them are the page's last bytes from then on. -/
theorem pin_mut_spec (hs : PoolCore s last) (hidle : PoolIdle s) (hn : 0 < s.frame_count)
    {change : Page → Page} (h : s.pin_mut p change io = (t, r)) :
    CallOk s last t r ∧
      (∀ reply, r = .ok reply → ∃ seen, reply = .Wrote p seen (change seen) ∧
        (seen = last p ∨ Stamped s (last p) seen io.current_lsn)) ∧
      (p ≠ 0 → io.budget = none → ∃ reply, r = .ok reply) := by
  unfold BufferPool.pin_mut at h
  split_ifs at h with hp
  · cases h
    exact ⟨⟨hs, hidle, rfl, rfl, by simp⟩, fun reply hr => absurd hr (by simp),
      fun hne => absurd hp hne⟩
  · cases hloc : s.locate_or_load p io with
    | mk s₁ r₁ =>
    have hend := locate_or_load_spec hs hidle hn hp hloc
    rw [hloc] at h
    match r₁ with
    | .error e =>
      cases h
      exact ⟨.failed hend, fun reply hr => absurd hr (by simp), fun _ hnone => absurd hnone hend.2.1⟩
    | .ok (f, io₁) =>
      obtain ⟨hafter, hcore, hpinned, hpage, hshape⟩ := hend
      simp only at h
      -- the frame is dirty from the pin on
      have hcore1 : PoolCore (s₁.modify_meta f fun m => { m with dirty := true }) last :=
        hcore.modify_meta rfl fun hd => absurd hd (by simp)
      have hpinned1 : PoolPinned (s₁.modify_meta f fun m => { m with dirty := true }) f :=
        hpinned.modify rfl rfl rfl
      have hpage1 : ((s₁.modify_meta f fun m =>
          { m with dirty := true }).frames f).frame_meta.page_id = p := by
        rw [modify_meta_frames_self]
        exact hpage
      cases hfpi : (s₁.modify_meta f fun m => { m with dirty := true }).ensure_fpi f io₁ with
      | mk s₂ r₂ =>
      obtain ⟨hshape2, hend2⟩ := ensure_fpi_spec hpinned1 hcore1 hp hpage1 hfpi
      rw [hfpi] at h
      match r₂ with
      | .error e =>
        cases h
        obtain ⟨hw, hb, rfl⟩ := hend2
        obtain ⟨hcore', hidle'⟩ := hpinned1.drop_mut hcore1 hp hpage1
        exact ⟨⟨hcore', hidle', hshape.frame_count, hshape.shards, by simpa using hw⟩,
          fun reply hr => absurd hr (by simp), fun _ hnone => absurd (hafter.reliable hnone) hb⟩
      | .ok io₂ =>
        cases h
        obtain ⟨hpinned2, hpage2, last', hcore2, hlast, hseen⟩ := hend2
        obtain ⟨hcore', hidle'⟩ := hpinned2.use_mut hcore2 hp hpage2 change
        rw [hlast] at hcore'
        refine ⟨⟨hcore', hidle', hshape2.frame_count.trans hshape.frame_count,
          hshape2.shards.trans hshape.shards, by simp⟩, fun reply hr => ⟨_,
          (Except.ok.inj hr).symm, ?_⟩, fun _ _ => ⟨_, rfl⟩⟩
        rcases hseen with hseen | hseen
        · exact .inl hseen
        · right
          rw [hafter.current_lsn] at hseen
          have hck : (s₁.modify_meta f fun m => { m with dirty := true }).checkpoint_lsn =
              s.checkpoint_lsn := hshape.checkpoint_lsn
          exact ⟨by rw [← hck]; exact hseen.due, hseen.seen⟩

/-- The frame of a new page, before its guard is used. -/
def marked (s : BufferPool) (f : ℕ) : BufferPool :=
  s.modify_meta f fun m => { m with needs_fpi := false, dirty := true }

/-- **`new_page`** shows zeros, or the bytes of a recycled page if that is still resident. -/
theorem new_page_spec (hs : PoolCore s last) (hidle : PoolIdle s) (hn : 0 < s.frame_count)
    (hp : p ≠ 0) {change : Page → Page} (h : s.new_page p change io = (t, r)) :
    CallOk s last t r ∧
      (∀ reply, r = .ok reply → ∃ seen, reply = .Wrote p seen (change seen) ∧
        seen = if (s.lookup p).isSome then last p else Page.zero) := by
  unfold BufferPool.new_page at h
  -- the guard, once the frame is marked
  have hguard : ∀ {s₁ : BufferPool} {f : ℕ} {last' : PageId → Page}, SameShape s s₁ →
      PoolCore (marked s₁ f) last' → PoolPinned (marked s₁ f) f →
      (s₁.frames f).frame_meta.page_id = p → last' p = (s₁.frames f).content →
      (∀ page, update last' p page = update last p page) →
      (last' p = if (s.lookup p).isSome then last p else Page.zero) →
      ((marked s₁ f).use_mut f change, Except.ok (PoolReply.Wrote p ((marked s₁ f).frames f).content
        (change ((marked s₁ f).frames f).content))) = (t, r) →
      CallOk s last t r ∧ (∀ reply, r = .ok reply → ∃ seen,
        reply = .Wrote p seen (change seen) ∧
          seen = if (s.lookup p).isSome then last p else Page.zero) := by
    intro s₁ f last' hshape hcore hpinned hpage hcontent hlast hseen heq
    have hself : ((marked s₁ f).frames f).content = last' p := by
      rw [marked, modify_meta_frames_self, hcontent]
    have hpage' : ((marked s₁ f).frames f).frame_meta.page_id = p := by
      rw [marked, modify_meta_frames_self]
      exact hpage
    obtain ⟨hcore', hidle'⟩ := hpinned.use_mut hcore hp hpage' change
    cases heq
    rw [hlast] at hcore'
    refine ⟨⟨hcore', hidle', hshape.frame_count, hshape.shards, by simp⟩, fun reply hr => ⟨_,
      (Except.ok.inj hr).symm, ?_⟩⟩
    rw [hself]
    exact hseen
  cases hlook : s.lookup p with
  | some f =>
    rw [← hlook]
    obtain ⟨s₁, hpin, hcore, hpinned, hpage, hshape⟩ := try_pin_resident_of_lookup hs hidle hlook
    have halloc : s.alloc_frame p false io = (s₁, .ok (f, io)) := by
      unfold BufferPool.alloc_frame
      rw [hpin]
    rw [halloc] at h
    refine hguard hshape ?_ ?_ hpage ?_ (fun _ => rfl) (by rw [hlook]; rfl) h
    · exact hcore.modify_meta rfl fun hd => absurd hd (by simp)
    · unfold marked BufferPool.modify_meta
      exact hpinned.modify rfl rfl rfl
    · rw [hcore.content f (by rw [hpage]; exact hp), hpage]
  | none =>
    rw [← hlook]
    cases halloc : s.alloc_frame p false io with
    | mk s₁ r₁ =>
    have hend := alloc_frame_of_absent hs hidle hn hp hlook false halloc
    rw [halloc] at h
    match r₁ with
    | .error e =>
      cases h
      exact ⟨.failed hend, fun reply hr => absurd hr (by simp)⟩
    | .ok (f, io₁) =>
      obtain ⟨-, u, hfound, rfl⟩ := hend
      have hplaced := hfound.core.place hfound.bound hfound.empty hp hfound.absent
        (show ({ loaded (u.frames f) p Page.zero with frame_meta :=
          { (loaded (u.frames f) p Page.zero).frame_meta with
            needs_fpi := false, dirty := true } } : Frame).frame_meta.page_id = p from rfl)
        (fun hd => absurd hd (by simp))
      simp only [Bool.false_eq_true, if_false] at h
      refine @hguard (placed u f p (loaded (u.frames f) p Page.zero)) f
        (update last p Page.zero) ⟨hfound.shape.frame_count, hfound.shape.shards,
        hfound.shape.checkpoint_lsn⟩ ?_ ?_ ?_ ?_ (fun page => Function.update_idem _ _ _)
        (by rw [hlook]; exact update_self _ _ _) h
      · rw [marked, modify_meta, placed_modify]
        exact hplaced
      · rw [marked, modify_meta, placed_modify]
        exact hfound.pinned rfl rfl rfl
      · rw [placed_frames_self]
        rfl
      · rw [placed_frames_self, update_self]
        rfl

theorem CallOk.of_flush {α : Type} {x : Except PoolStop α} (h : PoolCore t last ∧ PoolIdle t ∧
    t.frame_count = s.frame_count ∧ t.shards = s.shards ∧ x ≠ .error .Waits) :
    CallOk s last t (x.map fun _ => .Done) := by
  obtain ⟨hcore, hid, hcount, hshards, hw⟩ := h
  match x with
  | .error e => exact ⟨hcore, hid, hcount, hshards, by simpa [Except.map] using hw⟩
  | .ok _ => exact ⟨hcore, hid, hcount, hshards, by simp [Except.map]⟩

theorem flush_spec (hs : PoolCore s last) (hidle : PoolIdle s) {r : Except PoolStop PoolIo}
    (h : s.flush p io = (t, r)) :
    PoolCore t last ∧ PoolIdle t ∧ t.frame_count = s.frame_count ∧ t.shards = s.shards ∧
      r ≠ .error .Waits := by
  unfold BufferPool.flush at h
  split_ifs at h with hp
  · cases h
    exact ⟨hs, hidle, rfl, rfl, by simp⟩
  · split at h
    · cases h
      exact ⟨hs, hidle, rfl, rfl, by simp⟩
    · rename_i f _
      obtain ⟨hcore, heff, hfl, hend⟩ := flush_frame_spec hs (hidle f).2.2 h
      refine ⟨hcore, hidle.of_others f heff.others ?_, heff.frame_count, heff.shards, ?_⟩
      · exact ⟨heff.pin_count.trans (hidle f).1, heff.evicting.trans (hidle f).2.1, hfl⟩
      · rintro rfl
        exact hend.1 rfl

theorem flush_all_dirty_spec (hs : PoolCore s last) (hidle : PoolIdle s)
    {r : Except PoolStop (ℕ × PoolIo)} (h : s.flush_all_dirty io = (t, r)) :
    PoolCore t last ∧ PoolIdle t ∧ t.frame_count = s.frame_count ∧ t.shards = s.shards ∧
      r ≠ .error .Waits := by
  have hdone : ∀ {u : BufferPool}, Batch s u last [] →
      PoolCore u last ∧ PoolIdle u ∧ u.frame_count = s.frame_count ∧ u.shards = s.shards :=
    fun hu => ⟨hu.core, hu.idle, hu.shape.frame_count, hu.shape.shards⟩
  unfold BufferPool.flush_all_dirty at h
  cases hclaim : claim_all_dirty_writes s.dirty_page_ids s io [] with
  | mk s₁ rest =>
  obtain ⟨pending, r₁⟩ := rest
  obtain ⟨hbatch, hw⟩ := claim_all_dirty_writes_spec (Batch.start hs hidle)
    (nodup_dirty_page_ids hs) (by simp) hclaim
  rw [hclaim] at h
  match r₁ with
  | .error e =>
    cases h
    obtain ⟨hcore, hid, hcount, hshards⟩ := hdone hbatch.restore_all
    exact ⟨hcore, hid, hcount, hshards, by simpa using hw⟩
  | .ok io₁ =>
    simp only at h
    split_ifs at h with hnil
    · cases h
      rw [hnil] at hbatch
      obtain ⟨hcore, hid, hcount, hshards⟩ := hdone hbatch
      exact ⟨hcore, hid, hcount, hshards, by simp⟩
    · cases hop : io₁.op with
      | error e =>
        rw [hop] at h
        cases h
        obtain ⟨hcore, hid, hcount, hshards⟩ := hdone hbatch.restore_all
        exact ⟨hcore, hid, hcount, hshards, by simpa using (op_error hop).2⟩
      | ok io₂ =>
        rw [hop] at h
        cases h
        obtain ⟨hcore, hid, hcount, hshards⟩ := hdone hbatch.release_all
        exact ⟨hcore, hid, hcount, hshards, by simp⟩

end Call

/-! ## Runs -/

/-- The pool, and what the last write guard on each page has left. -/
structure PoolSys where
  pool : BufferPool
  last : PageId → Page

def PoolSys.open (frame_count shards : ℕ) (data_file : PageId → Page) : PoolSys :=
  ⟨BufferPool.open frame_count shards data_file, data_file⟩

/-- The allocator never gives out page 0. -/
def PoolCall.allowed : PoolCall → Bool
  | .new_page page_id _ => page_id ≠ PageId.INVALID
  | _ => true

/-- A call, with what the disk and the log do during it. -/
def PoolSys.step (s : PoolSys) (l : PoolCall × PoolIo) : Option PoolSys :=
  if l.1.allowed then
    some ⟨(s.pool.call l.2 l.1).1, after_reply s.last (s.pool.call l.2 l.1).2⟩
  else none

/-- **Every call keeps the invariant**, whether it succeeds or fails. -/
theorem call_spec {s : BufferPool} {last : PageId → Page} {io : PoolIo} {call : PoolCall}
    (hs : PoolCore s last) (hidle : PoolIdle s) (hn : 0 < s.frame_count)
    (hcall : call.allowed = true) : CallOk s last (s.call io call).1 (s.call io call).2 := by
  match call with
  | .pin p => exact (pin_spec hs hidle hn rfl).1
  | .pin_mut p change => exact (pin_mut_spec hs hidle hn rfl).1
  | .new_page p change =>
    exact (new_page_spec hs hidle hn (of_decide_eq_true hcall) rfl).1
  | .flush p => exact .of_flush (flush_spec hs hidle rfl)
  | .flush_all_dirty => exact .of_flush (flush_all_dirty_spec hs hidle rfl)
  | .set_checkpoint_lsn lsn =>
    exact ⟨hs.of_eq rfl rfl rfl rfl rfl, hidle, rfl, rfl, by simp [BufferPool.call]⟩

/-- The pool between calls. -/
structure PoolInv (frame_count shards : ℕ) (s : PoolSys) : Prop where
  core : PoolCore s.pool s.last
  idle : PoolIdle s.pool
  frame_count : s.pool.frame_count = frame_count
  shards : s.pool.shards = shards

theorem PoolInv.open (frame_count shards : ℕ) (data_file : PageId → Page) :
    PoolInv frame_count shards (PoolSys.open frame_count shards data_file) :=
  ⟨PoolCore.open _ _ _, fun _ => ⟨rfl, rfl, rfl⟩, rfl, rfl⟩

theorem PoolInv.step {frame_count shards : ℕ} (hn : 1 ≤ frame_count) {s t : PoolSys}
    {l : PoolCall × PoolIo} (hs : PoolInv frame_count shards s) (hst : s.step l = some t) :
    PoolInv frame_count shards t := by
  unfold PoolSys.step at hst
  split_ifs at hst with hcall
  cases hst
  have hok := @call_spec _ _ l.2 _ hs.core hs.idle (by rw [hs.frame_count]; exact hn) hcall
  exact ⟨hok.core, hok.idle, hok.frame_count.trans hs.frame_count, hok.shards.trans hs.shards⟩

/-- **The buffer pool is transparent.** Take any pool with a frame and any sequence of calls from
one caller, with any reads, writes, fsyncs and log operations failing. Afterwards the table maps a
page to a frame exactly when the frame holds the page, no page is in two frames, and the next
`pin` or `pin_mut` of a page returns, shows what the last write guard on the page left, apart from
the stamp of the full-page image this very `pin_mut` makes, and succeeds if no operation fails. -/
theorem buffer_pool_transparent (frame_count shards : ℕ) (data_file : PageId → Page)
    (hn : 1 ≤ frame_count) {ls : List (PoolCall × PoolIo)} {s : PoolSys}
    (hrun : Lib.run PoolSys.step (PoolSys.open frame_count shards data_file) ls = some s) :
    (∀ shard p f, s.pool.page_table shard p = some f ↔
      shard = p % shards ∧ p ≠ 0 ∧ f < frame_count ∧ (s.pool.frames f).frame_meta.page_id = p) ∧
    (∀ f f', (s.pool.frames f).frame_meta.page_id ≠ 0 →
      (s.pool.frames f').frame_meta.page_id = (s.pool.frames f).frame_meta.page_id → f' = f) ∧
    (∀ p io, (s.pool.pin p io).2 ≠ .error .Waits ∧
      (∀ reply, (s.pool.pin p io).2 = .ok reply → reply = .Read (s.last p)) ∧
      (p ≠ 0 → io.budget = none → ∃ reply, (s.pool.pin p io).2 = .ok reply)) ∧
    (∀ p change io, (s.pool.pin_mut p change io).2 ≠ .error .Waits ∧
      (∀ reply, (s.pool.pin_mut p change io).2 = .ok reply →
        ∃ seen, reply = .Wrote p seen (change seen) ∧
          (seen = s.last p ∨ Stamped s.pool (s.last p) seen io.current_lsn)) ∧
      (p ≠ 0 → io.budget = none → ∃ reply, (s.pool.pin_mut p change io).2 = .ok reply)) := by
  have hs : PoolInv frame_count shards s :=
    run_invariant _ (fun _ _ _ hs hst => hs.step hn hst) (PoolInv.open _ _ _) hrun
  have hcount : 0 < s.pool.frame_count := by
    rw [hs.frame_count]
    exact hn
  refine ⟨fun shard p f => ?_, fun f f' hne heq => hs.core.unique hne heq, fun p io => ?_,
    fun p change io => ?_⟩
  · rw [hs.core.table, BufferPool.shard_index, hs.shards]
    refine ⟨fun ⟨hsh, hp, hpage⟩ => ⟨hsh, hp, ?_, hpage⟩, fun ⟨hsh, hp, _, hpage⟩ => ⟨hsh, hp, hpage⟩⟩
    rw [← hs.frame_count]
    apply hs.core.bounded
    rw [hpage]
    exact hp
  · obtain ⟨hok, hread, hrel⟩ := pin_spec hs.core hs.idle hcount (Prod.mk.eta (p := s.pool.pin p io)).symm
    exact ⟨hok.returns, hread, hrel⟩
  · obtain ⟨hok, hwrote, hrel⟩ := pin_mut_spec hs.core hs.idle hcount
      (Prod.mk.eta (p := s.pool.pin_mut p change io)).symm
    exact ⟨hok.returns, hwrote, hrel⟩

/-- Nothing fails. -/
def quiet_io : PoolIo := ⟨none, .BufferPoolFull, Page.zero, 8, 8⟩

/-- With one frame, the second page drives the first out to disk. -/
def evicting_calls : List (PoolCall × PoolIo) :=
  [(.new_page 1 fun page => page.write 100 [5], quiet_io), (.new_page 2 fun page => page, quiet_io)]

theorem buffer_pool_transparent_one_frame :
    ∃ s, Lib.run PoolSys.step (PoolSys.open 1 1 fun _ => Page.zero) evicting_calls = some s ∧
      s.pool.page_table 0 2 = some 0 ∧ s.pool.page_table 0 1 = none ∧ (s.last 1).byte 100 = 5 ∧
      (s.pool.pin 1 quiet_io).2 = .ok (.Read (s.last 1)) := by
  refine Lib.exists_of_map_eq
    (fun s => ((s.pool.frames 0).frame_meta.page_id, (s.last 1).byte 100)) (b := (2, 5))
    (by decide +kernel) fun s hs hval => ?_
  obtain ⟨hpage, hbyte⟩ := Prod.mk.inj hval
  obtain ⟨htable, -, hpin, -⟩ := buffer_pool_transparent 1 1 _ (le_refl 1) hs
  refine ⟨(htable 0 2 0).mpr ⟨by decide, by decide, by decide, hpage⟩, ?_, hbyte, ?_⟩
  · rw [Option.eq_none_iff_forall_ne_some]
    intro f hf
    obtain ⟨-, -, hlt, hp⟩ := (htable 0 1 f).mp hf
    obtain rfl : f = 0 := by omega
    rw [hpage] at hp
    exact absurd hp (by decide)
  · obtain ⟨-, hread, hrel⟩ := hpin 1 quiet_io
    obtain ⟨reply, hreply⟩ := hrel (by decide) rfl
    rw [hreply, hread reply hreply]

end Ams
