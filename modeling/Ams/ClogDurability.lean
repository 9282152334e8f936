/-
What a checkpoint may rely on: once `flush_dirty` has returned `Ok`, a crash at any
later time leaves every state that was not set since then.

The pages reach their files in three ways: by a flush, by an eviction, and in part by a
write that fails. None of these is an fsync, so the argument is about where the bytes
that are not durable yet are remembered. A page with such bytes is in a segment listed
in `unsynced_segments`, or it is held by a dirty frame (a failing write leaves its
frame dirty, and lists nothing). A flush that returns `Ok` has cleaned every frame and
then synced every listed segment, so nothing is left.

# Moves

Apart from setting a state, the cache and its files change by five kinds of move only,
whatever the operation. The two invariants of this file are proved move by move:
`Tracked`, which gives the durable state at the flush, and `Within`, which says that
every image of a page, on disk or cached, satisfies a predicate. The predicate used is
that one XID has one state; tearing a page keeps it, and so does setting another XID.
-/
import Ams.ClogBuffer

set_option autoImplicit false

namespace Ams

open Lib
open Function (update update_self update_of_ne)

/-! ## Moves -/

/-- One change of the cache or its files that sets no state. -/
inductive ClogMove (b : ClogBuffer) : ClogBuffer → Prop
  | swept (c : ClogBuffer) (hs : b.Swept c) : ClogMove b c
  | torn (v old : ℕ) (mask : Fin 8192 → Bool) (hv : v < b.count)
      (hold : (b.frames v).page_no = some old) (hd : (b.frames v).dirty = true) :
      ClogMove b { b with
        files := update b.files old
          ((b.files old).write (torn_page mask (b.files old).now (b.frames v).data)) }
  | back (v old : ℕ) (hv : v < b.count) (hold : (b.frames v).page_no = some old) :
      ClogMove b { b with
        files := update b.files old ((b.files old).write (b.frames v).data)
        unsynced_segments := b.unsynced_segments.insert (segment_id_of_page old)
        frames := update b.frames v { b.frames v with dirty := false } }
  | load (v p : ℕ) (table : ℕ → Option ℕ)
      (hd : (b.frames v).page_no = none ∨ (b.frames v).dirty = false) :
      ClogMove b { b with
        frames := update b.frames v ⟨some p, (b.files p).now, false, true⟩
        page_table := table }
  | sync (g : ℕ) : ClogMove b (b.sync_segment g)

theorem ClogMove.count {b c : ClogBuffer} (hm : ClogMove b c) : c.count = b.count := by
  cases hm with
  | swept _ hs => exact hs.count
  | torn => rfl
  | back => rfl
  | load => rfl
  | sync => rfl

section Moves

variable {I : ClogBuffer → Prop} (hmove : ∀ b c, ClogMove b c → I b → I c)

include hmove

/-- What every move keeps, finding a frame keeps. -/
theorem Located.keeps {b b' : ClogBuffer} {p : ℕ} {o : Option ℕ} (hl : Located b p b' o)
    (h : I b) : I b' := by
  cases hl with
  | hit i _ => exact hmove _ _ (.swept _ (ClogBuffer.swept_reference b b.clock_hand i true)) h
  | write_failed c v old left mask hs _ hv hold hd hleft =>
    rw [hleft]
    exact hmove _ _ (.torn v old mask (by rw [hs.count]; exact hv) hold hd)
      (hmove _ _ (.swept c hs) h)
  | read_failed _ hs _ => exact hmove _ _ (.swept _ hs) h
  | loaded c v table hs _ _ _ hd _ => exact hmove _ _ (.load v p _ hd) (hmove _ _ (.swept c hs) h)
  | written_loaded c v old table data hs _ hv _ hold _ _ hdata =>
    -- written back first, then replaced
    have hback := hmove _ _ (.back v old (by rw [hs.count]; exact hv) hold) (hmove _ _ (.swept c hs) h)
    have hload := hmove _ _ (.load v p (update table p (some v))
      (.inr (by simp only [update_self]))) hback
    rw [hdata]
    simpa only [Function.update_idem] using hload

theorem ClogBuffer.write_frames_keeps (io : ℕ → WriteIo) {frames : List ℕ} {b : ClogBuffer}
    (hf : ∀ i ∈ frames, i < b.count) (h : I b) : I (write_frames io frames b).1 := by
  induction frames generalizing b with
  | nil => exact h
  | cons i rest ih =>
    have hi : i < b.count := hf i (.head _)
    have hrest : ∀ j ∈ rest, j < b.count := fun j hj => hf j (.tail _ hj)
    rw [write_frames]
    split
    · rename_i page_no hp hd
      cases hio : io i with
      | ok => exact ih hrest (hmove _ _ (.back i page_no hi hp) h)
      | fails mask => exact hmove _ _ (.torn i page_no mask hi hp hd) h
    · exact ih hrest h

theorem ClogBuffer.sync_segments_keeps (io : ℕ → Bool) (order : List ℕ) {b : ClogBuffer}
    (h : I b) : I (sync_segments io order b).1 := by
  induction order generalizing b with
  | nil => exact h
  | cons g rest ih =>
    rw [sync_segments]
    by_cases hg : io g = true
    · rw [if_pos hg]
      exact ih (hmove _ _ (.sync g) h)
    · rw [if_neg hg]
      exact h

theorem ClogBuffer.flush_dirty_keeps {b : ClogBuffer} {io : FlushIo} {r : ClogBuffer × Bool}
    (hr : b.flush_dirty io = some r) (h : I b) : I r.1 := by
  have hw := write_frames_keeps hmove io.write (fun i hi => List.mem_range.mp hi) h
  unfold flush_dirty at hr
  rcases hwf : write_frames io.write (List.range b.count) b with ⟨c, ok⟩
  rw [hwf] at hw hr
  cases ok with
  | false =>
    rw [← Option.some.inj hr]
    exact hw
  | true =>
    simp only at hr
    split_ifs at hr
    rw [← Option.some.inj hr]
    exact sync_segments_keeps hmove io.sync io.order hw

end Moves

/-! ## What is not durable yet is remembered -/

/-- The page file has nothing that an fsync would add. -/
def ClogPageFile.Settled (f : ClogPageFile) : Prop := f.written = [] ∧ f.synced = f.now

/-- A page that is not settled is in a listed segment or in a dirty frame. -/
def Tracked (b : ClogBuffer) : Prop :=
  ∀ p, (b.files p).Settled ∨ segment_id_of_page p ∈ b.unsynced_segments ∨
    ∃ i < b.count, (b.frames i).page_no = some p ∧ (b.frames i).dirty = true

theorem Tracked.move {b c : ClogBuffer} (hm : ClogMove b c) (h : Tracked b) : Tracked c := by
  intro p
  cases hm with
  | swept c hs =>
    rw [hs.files, hs.unsynced, hs.count]
    simp only [hs.page_no, hs.dirty]
    exact h p
  | torn v old mask hv hold hd =>
    by_cases hp : p = old
    · rw [hp]
      exact .inr (.inr ⟨v, hv, hold, hd⟩)
    · simp only [update_of_ne hp]
      exact h p
  | back v old _ hold =>
    by_cases hp : p = old
    · rw [hp]
      exact .inr (.inl (List.mem_insert_iff.mpr (.inl rfl)))
    · simp only [update_of_ne hp]
      rcases h p with hset | hseg | ⟨i, hi, hip, hid⟩
      · exact .inl hset
      · exact .inr (.inl (List.mem_insert_iff.mpr (.inr hseg)))
      · have hiv : i ≠ v := by
          rintro rfl
          exact hp (Option.mem_unique hip hold)
        refine .inr (.inr ⟨i, hi, ?_⟩)
        rw [update_of_ne hiv]
        exact ⟨hip, hid⟩
  | load v q table hd =>
    rcases h p with hset | hseg | ⟨i, hi, hip, hid⟩
    · exact .inl hset
    · exact .inr (.inl hseg)
    · -- the frame taken was not the one that remembered the page
      have hiv : i ≠ v := by
        rintro rfl
        rcases hd with hd | hd
        · exact absurd (hip.symm.trans hd) (by simp)
        · exact absurd (hid.symm.trans hd) (by simp)
      refine .inr (.inr ⟨i, hi, ?_⟩)
      simp only [update_of_ne hiv]
      exact ⟨hip, hid⟩
  | sync g =>
    unfold ClogBuffer.sync_segment
    by_cases hp : segment_id_of_page p = g
    · refine .inl ?_
      simp only [if_pos hp]
      exact ⟨rfl, rfl⟩
    · simp only [if_neg hp]
      rcases h p with hset | hseg | hframe
      · exact .inl hset
      · exact .inr (.inl (List.mem_filter.mpr ⟨hseg, by simpa using hp⟩))
      · exact .inr (.inr hframe)

theorem Tracked.set_frame {b : ClogBuffer} (h : Tracked b) (i : ℕ) (data : ClogPage) :
    Tracked { b with
      frames := update b.frames i { b.frames i with data := data, dirty := true } } := by
  intro p
  rcases h p with hset | hseg | ⟨j, hj, hjp, hjd⟩
  · exact .inl hset
  · exact .inr (.inl hseg)
  · refine .inr (.inr ⟨j, hj, ?_⟩)
    by_cases hji : j = i
    · rw [hji] at hjp ⊢
      simp only [update_self]
      exact ⟨hjp, trivial⟩
    · simp only [update_of_ne hji]
      exact ⟨hjp, hjd⟩

namespace ClogBuffer

/-- The frame has nothing to write back. -/
def CleanFrame (b : ClogBuffer) (i : ℕ) : Prop :=
  (b.frames i).page_no = none ∨ (b.frames i).dirty = false

theorem cleanFrame_or_dirty (b : ClogBuffer) (i : ℕ) :
    b.CleanFrame i ∨ ∃ p, (b.frames i).page_no = some p ∧ (b.frames i).dirty = true := by
  cases hp : (b.frames i).page_no with
  | none => exact .inl (.inl hp)
  | some p =>
    cases hd : (b.frames i).dirty with
    | false => exact .inl (.inr hd)
    | true => exact .inr ⟨p, rfl, rfl⟩

/-- A frame written back. -/
def written (b : ClogBuffer) (i p : ℕ) : ClogBuffer :=
  { b with
    files := update b.files p ((b.files p).write (b.frames i).data)
    unsynced_segments := b.unsynced_segments.insert (segment_id_of_page p)
    frames := update b.frames i { b.frames i with dirty := false } }

theorem cleanFrame_written {b : ClogBuffer} {i j p : ℕ} (h : j = i ∨ b.CleanFrame j) :
    (b.written i p).CleanFrame j := by
  unfold CleanFrame written
  by_cases hji : j = i
  · subst hji
    exact .inr (by simp only [update_self])
  · simp only [update_of_ne hji]
    exact h.resolve_left hji

section Cons

variable {io : ℕ → WriteIo} {i : ℕ} (rest : List ℕ) {b : ClogBuffer}

theorem write_frames_cons_clean (h : b.CleanFrame i) :
    write_frames io (i :: rest) b = write_frames io rest b := by
  rw [write_frames]
  split
  · rename_i p hp hd
    rcases h with h | h
    · exact absurd (hp.symm.trans h) (by simp)
    · exact absurd (hd.symm.trans h) (by simp)
  · rfl

theorem write_frames_cons_ok {p : ℕ} (hp : (b.frames i).page_no = some p)
    (hd : (b.frames i).dirty = true) (hio : io i = .ok) :
    write_frames io (i :: rest) b = write_frames io rest (b.written i p) := by
  rw [write_frames]
  simp only [hp, hd, hio, write_page, written]

theorem write_frames_cons_fails {p : ℕ} (hp : (b.frames i).page_no = some p)
    (hd : (b.frames i).dirty = true) {mask : Fin 8192 → Bool} (hio : io i = .fails mask) :
    write_frames io (i :: rest) b =
      ({ b with
        files := update b.files p
          ((b.files p).write (torn_page mask (b.files p).now (b.frames i).data)) }, false) := by
  rw [write_frames]
  simp only [hp, hd, hio, write_page]

end Cons

theorem write_frames_clean (io : ℕ → WriteIo) {j : ℕ} (frames : List ℕ) {b : ClogBuffer}
    (h : b.CleanFrame j) : (write_frames io frames b).1.CleanFrame j := by
  induction frames generalizing b with
  | nil => exact h
  | cons i rest ih =>
    rcases b.cleanFrame_or_dirty i with hi | ⟨p, hp, hd⟩
    · rw [write_frames_cons_clean rest hi]
      exact ih h
    · cases hio : io i with
      | ok =>
        rw [write_frames_cons_ok rest hp hd hio]
        exact ih (cleanFrame_written (.inr h))
      | fails mask =>
        rw [write_frames_cons_fails rest hp hd hio]
        exact h

/-- The loop that ends without an error has cleaned every frame. -/
theorem write_frames_all_clean {io : ℕ → WriteIo} {frames : List ℕ} {b : ClogBuffer}
    (h : (write_frames io frames b).2 = true) :
    ∀ j ∈ frames, (write_frames io frames b).1.CleanFrame j := by
  induction frames generalizing b with
  | nil =>
    intro j hj
    simp at hj
  | cons i rest ih =>
    intro j hj
    rcases b.cleanFrame_or_dirty i with hi | ⟨p, hp, hd⟩
    · rw [write_frames_cons_clean rest hi] at h ⊢
      rcases List.mem_cons.mp hj with rfl | hj
      · exact write_frames_clean io rest hi
      · exact ih h j hj
    · cases hio : io i with
      | ok =>
        rw [write_frames_cons_ok rest hp hd hio] at h ⊢
        rcases List.mem_cons.mp hj with rfl | hj
        · exact write_frames_clean io rest (cleanFrame_written (.inl rfl))
        · exact ih h j hj
      | fails mask =>
        rw [write_frames_cons_fails rest hp hd hio] at h
        simp at h

/-- The fsyncs that all succeed settle every page of the segments visited, and leave the
frames alone. -/
theorem sync_segments_settled {io : ℕ → Bool} {order : List ℕ} {b : ClogBuffer}
    (h : (sync_segments io order b).2 = true) :
    (sync_segments io order b).1.frames = b.frames ∧
    (sync_segments io order b).1.count = b.count ∧
    ∀ p, (b.files p).Settled ∨ segment_id_of_page p ∈ order →
      ((sync_segments io order b).1.files p).Settled := by
  induction order generalizing b with
  | nil => exact ⟨rfl, rfl, fun p hp => hp.resolve_right (by simp)⟩
  | cons g rest ih =>
    rw [sync_segments] at h ⊢
    by_cases hg : io g = true
    · rw [if_pos hg] at h ⊢
      obtain ⟨hframes, hcount, hset⟩ := ih h
      refine ⟨hframes, hcount, fun p hp => hset p ?_⟩
      unfold sync_segment
      by_cases hpg : segment_id_of_page p = g
      · simp only [if_pos hpg]
        exact .inl ⟨rfl, rfl⟩
      · simp only [if_neg hpg]
        refine hp.imp id fun hmem => ?_
        exact (List.mem_cons.mp hmem).resolve_left hpg
    · rw [if_neg hg] at h
      simp at h

/-- **A flush that returns `Ok` leaves everything durable**: every frame is clean and
every page file settled. -/
theorem flush_dirty_settled {b c : ClogBuffer} {io : FlushIo} (ht : Tracked b)
    (h : b.flush_dirty io = some (c, true)) :
    (∀ i < c.count, c.CleanFrame i) ∧ ∀ p, (c.files p).Settled := by
  have hw : Tracked (write_frames io.write (List.range b.count) b).1 ∧
      (write_frames io.write (List.range b.count) b).1.count = b.count :=
    write_frames_keeps (I := fun c => Tracked c ∧ c.count = b.count)
      (fun _ _ hm hI => ⟨hI.1.move hm, hm.count.trans hI.2⟩)
      io.write (fun i hi => List.mem_range.mp hi) ⟨ht, rfl⟩
  unfold flush_dirty at h
  rcases hwf : write_frames io.write (List.range b.count) b with ⟨d, ok⟩
  rw [hwf] at hw h
  cases ok with
  | false => exact absurd (Option.some.inj h) (by simp)
  | true =>
    have hclean := @write_frames_all_clean io.write (List.range b.count) b (by rw [hwf])
    rw [hwf] at hclean
    simp only at h hw hclean
    split_ifs at h with hperm
    have hres := Option.some.inj h
    have hok : (sync_segments io.sync io.order d).2 = true := by rw [hres]
    obtain ⟨hframes, hcount, hset⟩ := sync_segments_settled hok
    rw [hres] at hframes hcount hset
    simp only at hframes hcount hset
    have hcl : ∀ i < c.count, c.CleanFrame i := by
      intro i hi
      rw [hcount, hw.2] at hi
      unfold CleanFrame
      rw [hframes]
      exact hclean i (List.mem_range.mpr hi)
    refine ⟨hcl, fun p => hset p ?_⟩
    rcases hw.1 p with hs | hseg | ⟨i, hi, hip, hid⟩
    · exact .inl hs
    · exact .inr (hperm.mem_iff.mpr hseg)
    · rw [hw.2] at hi
      rcases hclean i (List.mem_range.mpr hi) with hn | hn
      · exact absurd (hip.symm.trans hn) (by simp)
      · exact absurd (hid.symm.trans hn) (by simp)

end ClogBuffer

/-! ## Every image of a page -/

/-- Every image of page `p`, cached or in its file, satisfies `P`. -/
structure Within (P : ClogPage → Prop) (p : ℕ) (b : ClogBuffer) : Prop where
  now : P (b.files p).now
  synced : P (b.files p).synced
  written : ∀ data ∈ (b.files p).written, P data
  frames : ∀ i < b.count, (b.frames i).page_no = some p → P (b.frames i).data

namespace Within

variable {P : ClogPage → Prop} {p : ℕ} {b c : ClogBuffer}

/-- Another image is written to a page. -/
theorem write (h : Within P p b) {old : ℕ} {data : ClogPage} (hdata : old = p → P data) :
    P (update b.files old ((b.files old).write data) p).now ∧
    P (update b.files old ((b.files old).write data) p).synced ∧
    ∀ d ∈ (update b.files old ((b.files old).write data) p).written, P d := by
  by_cases hp : p = old
  · subst hp
    rw [update_self]
    refine ⟨hdata rfl, h.synced, fun d hd => ?_⟩
    rcases List.mem_cons.mp hd with rfl | hd
    · exact hdata rfl
    · exact h.written d hd
  · rw [update_of_ne hp]
    exact ⟨h.now, h.synced, h.written⟩

theorem move (htorn : ∀ mask old new, P old → P new → P (torn_page mask old new))
    (hm : ClogMove b c) (h : Within P p b) : Within P p c := by
  cases hm with
  | swept c hs =>
    refine ⟨?_, ?_, ?_, ?_⟩
    · rw [hs.files]; exact h.now
    · rw [hs.files]; exact h.synced
    · rw [hs.files]; exact h.written
    · intro i hi hp
      rw [hs.data]
      rw [hs.count] at hi
      rw [hs.page_no] at hp
      exact h.frames i hi hp
  | torn v old mask hv hold hd =>
    obtain ⟨hn, hsy, hw⟩ := @write P p b h old
      (torn_page mask (b.files old).now (b.frames v).data) fun heq => by
        subst heq
        exact htorn _ _ _ h.now (h.frames v hv hold)
    exact ⟨hn, hsy, hw, h.frames⟩
  | back v old hv hold =>
    obtain ⟨hn, hsy, hw⟩ := @write P p b h old (b.frames v).data fun heq => by
      subst heq
      exact h.frames v hv hold
    refine ⟨hn, hsy, hw, fun i hi hp => ?_⟩
    by_cases hiv : i = v
    · subst hiv
      simp only [update_self] at hp ⊢
      exact h.frames i hi hp
    · simp only [update_of_ne hiv] at hp ⊢
      exact h.frames i hi hp
  | load v q table hd =>
    refine ⟨h.now, h.synced, h.written, fun i hi hp => ?_⟩
    by_cases hiv : i = v
    · subst hiv
      simp only [update_self, Option.some.injEq] at hp ⊢
      rw [hp]
      exact h.now
    · simp only [update_of_ne hiv] at hp ⊢
      exact h.frames i hi hp
  | sync g =>
    unfold ClogBuffer.sync_segment
    by_cases hg : segment_id_of_page p = g
    · refine ⟨?_, ?_, ?_, h.frames⟩ <;> simp only [if_pos hg]
      · exact h.now
      · exact h.now
      · intro data hdata
        exact absurd hdata (by simp [ClogPageFile.sync, ClogPageFile.durable])
    · refine ⟨?_, ?_, ?_, h.frames⟩ <;> simp only [if_neg hg]
      · exact h.now
      · exact h.synced
      · exact h.written

/-- What a state set in a frame may do. -/
theorem set_frame (h : Within P p b) {i : ℕ} {xid : TxnId} {state : TxnState}
    (hp : (b.frames i).page_no = some (page_no_of_xid xid))
    (hset : ∀ data, page_no_of_xid xid = p → P data → P (set_page_state data xid state)) :
    Within P p { b with
      frames := update b.frames i { b.frames i with
        data := set_page_state (b.frames i).data xid state, dirty := true } } := by
  refine ⟨h.now, h.synced, h.written, fun j hj hjp => ?_⟩
  by_cases hji : j = i
  · subst hji
    simp only [update_self] at hjp ⊢
    exact hset _ (Option.mem_unique hp hjp) (h.frames j hj hjp)
  · simp only [update_of_ne hji] at hjp ⊢
    exact h.frames j hj hjp

end Within

/-! ## Runs -/

/-- The page reads of the operation succeed. -/
def ClogOp.ReadsOk : ClogOp → Prop
  | .get_state _ io => io.read_ok = true
  | .set_state _ _ io => io.read_ok = true
  | .flush_dirty _ => True

/-- The operation does not set the state of `xid`: it is not a `set_state` of it that
returns. -/
def ClogSys.Leaves (xid : TxnId) (s : ClogSys) : ClogOp → Prop
  | .set_state y state io => y = xid → (s.buf.set_state y state io).2 = false
  | _ => True

theorem ClogOp.ReadsOk.readSafe {op : ClogOp} (h : op.ReadsOk) (s : ClogSys) : s.ReadSafe op := by
  cases op with
  | get_state xid io => exact fun hr => absurd (h.symm.trans hr) (by simp)
  | set_state xid state io => exact fun hr => absurd (h.symm.trans hr) (by simp)
  | flush_dirty io => trivial

/-- What every move keeps, and every state set by the operation, the operation keeps. -/
theorem ClogSys.step_keeps {I : ClogBuffer → Prop} (hmove : ∀ b c, ClogMove b c → I b → I c)
    {s t : ClogSys} {op : ClogOp} (h : Coherent s.buf s.last) (hsafe : s.ReadSafe op)
    (hset : ∀ xid state io b i, op = .set_state xid state io →
      (s.buf.set_state xid state io).2 = true →
      (b.frames i).page_no = some (page_no_of_xid xid) → I b →
      I { b with frames := update b.frames i { b.frames i with
            data := set_page_state (b.frames i).data xid state, dirty := true } })
    (hst : s.step op = some t) (hI : I s.buf) : I t.buf := by
  cases op with
  | get_state xid io =>
    cases hst
    change I (s.buf.get_state xid io).1
    unfold ClogBuffer.get_state
    by_cases hx : xid = TxnId.INVALID
    · rw [if_pos hx]
      exact hI
    · rw [if_neg hx]
      have hkeep := (ClogBuffer.locate_frame_cases h.hand hsafe).keeps hmove hI
      rcases hl : s.buf.locate_frame (page_no_of_xid xid) io with ⟨c, o⟩
      rw [hl] at hkeep
      cases o with
      | none => exact hkeep
      | some i => exact hkeep
  | set_state xid state io =>
    have hbuf : t.buf = (s.buf.set_state xid state io).1 := by
      unfold ClogSys.step at hst
      simp only at hst
      rcases hs : s.buf.set_state xid state io with ⟨c, returned⟩
      rw [hs] at hst
      cases returned with
      | false => rw [← Option.some.inj hst]
      | true => rw [← Option.some.inj hst]
    specialize hset xid state io
    rw [hbuf]
    unfold ClogBuffer.set_state at hset ⊢
    by_cases hx : xid = TxnId.INVALID
    · rw [if_pos hx]
      exact hI
    · rw [if_neg hx] at hset ⊢
      have hkeep := (ClogBuffer.locate_frame_cases h.hand hsafe).keeps hmove hI
      have hloc := h.located (ClogBuffer.locate_frame_cases h.hand hsafe)
      rcases hl : s.buf.locate_frame (page_no_of_xid xid) io with ⟨c, o⟩
      rw [hl] at hkeep hloc hset
      cases o with
      | none => exact hkeep
      | some i => exact hset c i rfl rfl (hloc.2.2 i rfl).2 hkeep
  | flush_dirty io =>
    unfold ClogSys.step at hst
    simp only at hst
    split at hst
    · cases hst
    · next r hf =>
      cases hst
      exact ClogBuffer.flush_dirty_keeps hmove hf hI

/-- Just after a flush that returned `Ok`, every image of every page shows the states of
that moment. -/
theorem within_of_flush {n : ℕ} {s : ClogSys} (hok : ClogSys.Ok n s) (ht : Tracked s.buf)
    {io : FlushIo} {b : ClogBuffer} (hflush : s.buf.flush_dirty io = some (b, true)) {xid : TxnId}
    (hx : xid ≠ TxnId.INVALID) :
    Within (fun data => page_state data xid = some (s.last xid)) (page_no_of_xid xid) b := by
  obtain ⟨hcoh, -⟩ := hok.coherent.flush_dirty hflush
  obtain ⟨hclean, hset⟩ := ClogBuffer.flush_dirty_settled ht hflush
  have hframe : ∀ i < b.count, ∀ p, (b.frames i).page_no = some p →
      (b.frames i).data = (b.files p).now := by
    intro i hi p hp
    refine hcoh.clean i p hi hp ?_
    exact (hclean i hi).resolve_left fun hn => absurd (hp.symm.trans hn) (by simp)
  have hnow : page_state (b.files (page_no_of_xid xid)).now xid = some (s.last xid) := by
    rw [← hcoh.content xid hx]
    congr 1
    unfold ClogBuffer.content
    cases htab : b.page_table (page_no_of_xid xid) with
    | none => rfl
    | some i =>
      obtain ⟨hi, hp⟩ := (hcoh.table _ i).mp htab
      exact (hframe i hi _ hp).symm
  obtain ⟨hwritten, hsynced⟩ := hset (page_no_of_xid xid)
  refine ⟨hnow, ?_, ?_, ?_⟩
  · rw [hsynced]
    exact hnow
  · intro data hdata
    rw [hwritten] at hdata
    simp at hdata
  · intro i hi hp
    rw [hframe i hi _ hp]
    exact hnow

/-- A cache just opened reads the page from its file. -/
theorem ClogBuffer.open_get_state {m : ℕ} (hm : 0 < m) (files : ℕ → ClogPage) {xid : TxnId}
    (hx : xid ≠ TxnId.INVALID) :
    ((ClogBuffer.open m files).get_state xid .good).2 =
      page_state (files (page_no_of_xid xid)) xid := by
  obtain ⟨k, rfl⟩ : ∃ k, m = k + 1 := ⟨m - 1, by omega⟩
  unfold get_state
  rw [if_neg hx]
  simp only [locate_frame, find_victim, sweep, evict, ClogBuffer.open, LocateIo.good, if_true,
    update_self, ClogPageFile.durable]

/-- **A flush that returned `Ok` survives a crash.** From any commit log, after any run
in which the page reads succeed (writes and fsyncs may fail), let `flush_dirty` return
`Ok`. Then, however the run goes on and whenever it is cut by a crash that leaves of
each page its fsynced image or one written since, the log opened anew has for every
XID not set after the flush the state it had at the flush. -/
theorem clog_flush_survives_crash {n : ℕ} (hmin : MIN_FRAMES ≤ n) (_hmax : n ≤ MAX_FRAMES)
    {files : ℕ → ClogPage} {last : Clog}
    (hfiles : ∀ xid, xid ≠ TxnId.INVALID →
      page_state (files (page_no_of_xid xid)) xid = some (last xid))
    (hlast : last TxnId.INVALID = .InProgress)
    {before after : List ClogOp} {s t : ClogSys} {io : FlushIo} {b : ClogBuffer} {xid : TxnId}
    (hreads : ∀ op ∈ before ++ after, op.ReadsOk)
    (hbefore : run ClogSys.step ⟨.open n files, last⟩ before = some s)
    (hflush : s.buf.flush_dirty io = some (b, true))
    (hafter : run ClogSys.step ⟨b, s.last⟩ after = some t)
    (hleaves : AllSteps ClogSys.step (ClogSys.Leaves xid) ⟨b, s.last⟩ after)
    {m : ℕ} (hm : MIN_FRAMES ≤ m) (_hm' : m ≤ MAX_FRAMES) {files' : ℕ → ClogPage}
    (hcrash : ∀ p, (t.buf.files p).Survives (files' p)) :
    (s.buf.get_state xid .good).2 = some (s.last xid) ∧
    ((ClogBuffer.open m files').get_state xid .good).2 = some (s.last xid) := by
  have hn : 0 < n := lt_of_lt_of_le (by decide) hmin
  have hopen : ClogSys.Ok n ⟨.open n files, last⟩ :=
    ⟨ClogSys.open_coherent hn hfiles, rfl, hlast⟩
  have hopen' : Tracked (.open n files) := fun p => .inl ⟨rfl, rfl⟩
  -- up to the flush
  obtain ⟨hok, htracked⟩ := run_invariant_of_allSteps (fun s op => s.ReadSafe op)
    (fun s => ClogSys.Ok n s ∧ Tracked s.buf)
    (fun s op t hI hsafe hst => ⟨hI.1.step hsafe hst, ClogSys.step_keeps
      (fun _ _ hm hT => hT.move hm) hI.1.coherent hsafe
      (fun _ _ _ b i _ _ _ hT => hT.set_frame i _) hst hI.2⟩)
    ⟨hopen, hopen'⟩
    (allSteps_of_mem (fun op hop s => (hreads op (List.mem_append_left _ hop)).readSafe s) _) hbefore
  refine ⟨ClogBuffer.get_state_returns hok.coherent hok.reserved xid, ?_⟩
  by_cases hx : xid = TxnId.INVALID
  · unfold ClogBuffer.get_state
    rw [if_pos hx, hx, hok.reserved]
  -- from the flush to the crash
  obtain ⟨hcoh, hcount⟩ := hok.coherent.flush_dirty hflush
  have hok' : ClogSys.Ok n ⟨b, s.last⟩ := ⟨hcoh, hcount.trans hok.count, hok.reserved⟩
  have hsafe := @allSteps_of_mem _ _ ClogSys.step (fun s op => s.ReadSafe op) _
    (fun op hop s => (hreads op (List.mem_append_right _ hop)).readSafe s) ⟨b, s.last⟩
  obtain ⟨-, hwithin⟩ := run_invariant_of_allSteps _
    (fun t => ClogSys.Ok n t ∧
      Within (fun data => page_state data xid = some (s.last xid)) (page_no_of_xid xid) t.buf)
    (fun u op v hI hP hst => ⟨hI.1.step hP.1 hst, ClogSys.step_keeps
      (fun _ _ hm hW => hW.move (fun _ _ _ => page_state_torn) hm) hI.1.coherent hP.1
      (fun y state io c i hop hret hp hW => hW.set_frame hp fun data hpage hdata => by
        subst hop
        have hne : xid ≠ y := by
          rintro rfl
          exact absurd (hret.symm.trans (hP.2 rfl)) (by simp)
        rw [page_state_set_other data hne hpage.symm]
        exact hdata) hst hI.2⟩)
    ⟨hok', within_of_flush hok htracked hflush hx⟩ (hsafe.and hleaves) hafter
  -- what the crash leaves
  have himage : page_state (files' (page_no_of_xid xid)) xid = some (s.last xid) := by
    rcases hcrash (page_no_of_xid xid) with heq | hmem
    · rw [heq]
      exact hwithin.synced
    · exact hwithin.written _ hmem
  rw [ClogBuffer.open_get_state (lt_of_lt_of_le (by decide) hm) files' hx]
  exact himage

/-- The operations before the flush: a state is set and evicted, and set again. -/
def evicted_then_set : List ClogOp :=
  [.set_state 1 .Committed .good, .get_state 16384 .good, .get_state 32768 .good,
    .get_state 49152 .good, .get_state 65536 .good, .set_state 2 .Aborted .good]

/-- Page 0 was evicted and read back before the flush. After it XID 3 of the same page is
set, its write back fails half way, and the crash keeps the torn page. -/
theorem clog_flush_survives_crash_torn_page :
    ∃ s b t, run ClogSys.step (ClogSys.start 4) evicted_then_set = some s ∧
      s.buf.flush_dirty ⟨fun _ => .ok, [0], fun _ => true⟩ = some (b, true) ∧
      run ClogSys.step ⟨b, s.last⟩ [.set_state 3 .Aborted .good,
        .flush_dirty ⟨fun _ => .fails fun i => decide (i.val < 1), [], fun _ => true⟩] = some t ∧
      ∀ files' : ℕ → ClogPage, (∀ p, (t.buf.files p).Survives (files' p)) →
        ((ClogBuffer.open 8 files').get_state 1 .good).2 = some .Committed := by
  have heval : ((run ClogSys.step (ClogSys.start 4) evicted_then_set).bind fun s =>
      (s.buf.flush_dirty ⟨fun _ => .ok, [0], fun _ => true⟩).bind fun r =>
      (run ClogSys.step ⟨r.1, s.last⟩ [.set_state 3 .Aborted .good,
        .flush_dirty ⟨fun _ => .fails fun i => decide (i.val < 1), [], fun _ => true⟩]).map fun _ =>
        (r.2, s.last 1)) = some (true, .Committed) := by decide +kernel
  obtain ⟨s, hs, heval⟩ := Option.bind_eq_some_iff.mp heval
  obtain ⟨⟨b, ok⟩, hflush, heval⟩ := Option.bind_eq_some_iff.mp heval
  obtain ⟨t, ht, hval⟩ := Option.map_eq_some_iff.mp heval
  obtain ⟨rfl, hlast⟩ := Prod.mk.inj hval
  refine ⟨s, b, t, hs, hflush, ht, fun files' hcrash => ?_⟩
  have hreads : ∀ op ∈ evicted_then_set ++ [.set_state 3 .Aborted .good,
      .flush_dirty ⟨fun _ => .fails fun i => decide (i.val < 1), [], fun _ => true⟩],
      ClogOp.ReadsOk op := by
    simp [evicted_then_set, ClogOp.ReadsOk, LocateIo.good]
  have hleaves : AllSteps ClogSys.step (ClogSys.Leaves 1) ⟨b, s.last⟩ [.set_state 3 .Aborted .good,
      .flush_dirty ⟨fun _ => .fails fun i => decide (i.val < 1), [], fun _ => true⟩] :=
    ⟨fun heq => absurd heq (by decide), fun _ _ => ⟨trivial, fun _ _ => trivial⟩⟩
  have hstart : ClogSys.start 4 = ⟨.open 4 fun _ => .zero, fun _ => .InProgress⟩ := rfl
  rw [hstart] at hs
  have hthm := @clog_flush_survives_crash 4 (by decide) (by decide) (fun _ => .zero)
    (fun _ => .InProgress) (fun xid _ => page_state_zero xid) rfl evicted_then_set _ s t _ b 1
    hreads hs hflush ht hleaves 8 (by decide) (by decide) files' hcrash
  rw [← hlast]
  exact hthm.2

end Ams
