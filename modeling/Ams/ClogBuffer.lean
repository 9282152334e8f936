/-
The CLOG cache: `pg-txn/src/clog_buffer.rs`.

A fixed number of frames, a page table, and a clock sweep that picks the frame to
reuse. The sweep only clears reference bits and moves the hand, so everything that
matters happens in `locate_frame`, between the choice of a victim and the end of the
read into it.

There the order of the source is: write the victim back if it is dirty, drop it from
the page table, read the new page, and only then give the frame its new identity. A
read that fails in between leaves a frame that still says it holds the old page, and
no table entry for it. The next access to that page loads it into a second frame, and
when the sweep comes back to the first one, its stale bytes are written over the page
and the entry of the second is dropped. So the cache is coherent as long as no read
fails over a frame that holds a page. Writes may fail at any point: a victim whose
write-back failed keeps its entry and its dirty bit.
-/
import Ams.ClogFile
import Ams.Lib.Run

set_option autoImplicit false

namespace Ams

open Ams.Lib
open Function (update update_self update_of_ne)

/-! ## The cache -/

abbrev MIN_FRAMES : ℕ := 4
abbrev MAX_FRAMES : ℕ := 1024

/-- A frame; `page_no` is `none` for a frame that has never held a page. -/
structure ClogFrame where
  page_no : Option ℕ
  data : ClogPage
  dirty : Bool
  referenced : Bool

/-- The frames and the page table, with the segment store below them. -/
structure ClogBuffer where
  count : ℕ
  frames : ℕ → ClogFrame
  page_table : ℕ → Option ℕ
  clock_hand : ℕ
  files : ℕ → ClogPageFile
  unsynced_segments : List ℕ

/-- How the I/O of a `locate_frame` ends. -/
structure LocateIo where
  write : WriteIo
  read_ok : Bool

/-- How the I/O of a `flush_dirty` ends: the writes frame by frame, the order in which
the unsynced segments are visited, and their fsyncs. -/
structure FlushIo where
  write : ℕ → WriteIo
  order : List ℕ
  sync : ℕ → Bool

namespace ClogBuffer

/-- `ClogBuffer::open` over page files. -/
def «open» (count : ℕ) (files : ℕ → ClogPage) : ClogBuffer where
  count := count
  frames _ := ⟨none, ClogPage.zero, false, false⟩
  page_table _ := none
  clock_hand := 0
  files p := .durable (files p)
  unsynced_segments := []

/-- `ClogSegmentStore::write_page`. A failed write is not recorded as unsynced. -/
def write_page (b : ClogBuffer) (page_no : ℕ) (data : ClogPage) : WriteIo → ClogBuffer × Bool
  | .ok =>
    ({ b with
        files := update b.files page_no ((b.files page_no).write data)
        unsynced_segments := b.unsynced_segments.insert (segment_id_of_page page_no) }, true)
  | .fails mask =>
    let left := torn_page mask (b.files page_no).now data
    ({ b with files := update b.files page_no ((b.files page_no).write left) }, false)

/-- One turn of the sweep, over `k` frames. -/
def sweep (allow_dirty : Bool) : ℕ → ClogBuffer → ClogBuffer × Option ℕ
  | 0, b => (b, none)
  | k + 1, b =>
    let idx := b.clock_hand
    let b := { b with clock_hand := (idx + 1) % b.count }
    let frame := b.frames idx
    if frame.page_no = none then (b, some idx)
    else if frame.referenced then
      sweep allow_dirty k
        { b with frames := update b.frames idx { frame with referenced := false } }
    else if frame.dirty && !allow_dirty then sweep allow_dirty k b
    else (b, some idx)

/-- The sweep turns until it has a victim; from the second turn on, dirty frames are
taken too. Two turns are enough (`find_victim_isSome`). -/
def find_victim (b : ClogBuffer) : ClogBuffer × Option ℕ :=
  match sweep false b.count b with
  | (b, some idx) => (b, some idx)
  | (b, none) => sweep true b.count b

/-- The victim written back, if it is dirty, and dropped from the page table. -/
def evict (b : ClogBuffer) (victim : ℕ) (io : WriteIo) : ClogBuffer × Bool :=
  let frame := b.frames victim
  match frame.page_no with
  | none => (b, true)
  | some old =>
    match if frame.dirty then b.write_page old frame.data io else (b, true) with
    | (b, false) => (b, false)
    | (b, true) => ({ b with page_table := update b.page_table old none }, true)

/-- The frame holding `page_no`; `none` is an I/O error. -/
def locate_frame (b : ClogBuffer) (page_no : ℕ) (io : LocateIo) : ClogBuffer × Option ℕ :=
  match b.page_table page_no with
  | some idx =>
    ({ b with frames := update b.frames idx { b.frames idx with referenced := true } },
      some idx)
  | none =>
    match b.find_victim with
    | (b, none) => (b, none)
    | (b, some victim) =>
      match b.evict victim io.write with
      | (b, false) => (b, none)
      | (b, true) =>
        if io.read_ok then
          ({ b with
              frames := update b.frames victim
                ⟨some page_no, (b.files page_no).now, false, true⟩
              page_table := update b.page_table page_no (some victim) }, some victim)
        else (b, none)

/-- `get_state`; `none` is a panic. -/
def get_state (b : ClogBuffer) (xid : TxnId) (io : LocateIo) : ClogBuffer × Option TxnState :=
  if xid = TxnId.INVALID then (b, some .InProgress)
  else
    match b.locate_frame (page_no_of_xid xid) io with
    | (b, none) => (b, none)
    | (b, some idx) => (b, page_state (b.frames idx).data xid)

/-- `set_state`, and whether it returned. -/
def set_state (b : ClogBuffer) (xid : TxnId) (state : TxnState) (io : LocateIo) :
    ClogBuffer × Bool :=
  if xid = TxnId.INVALID then (b, true)
  else
    match b.locate_frame (page_no_of_xid xid) io with
    | (b, none) => (b, false)
    | (b, some idx) =>
      let frame := b.frames idx
      ({ b with
          frames := update b.frames idx
            { frame with data := set_page_state frame.data xid state, dirty := true } }, true)

/-- The first loop of `flush_dirty`: write back the dirty frames. -/
def write_frames (io : ℕ → WriteIo) : List ℕ → ClogBuffer → ClogBuffer × Bool
  | [], b => (b, true)
  | i :: rest, b =>
    let frame := b.frames i
    match frame.page_no, frame.dirty with
    | some page_no, true =>
      match b.write_page page_no frame.data (io i) with
      | (b, false) => (b, false)
      | (b, true) =>
        write_frames io rest
          { b with frames := update b.frames i { frame with dirty := false } }
    | _, _ => write_frames io rest b

/-- An fsync makes durable what the pages of the segment read as. -/
def sync_segment (b : ClogBuffer) (segment_id : ℕ) : ClogBuffer :=
  { b with
    files := fun p => if segment_id_of_page p = segment_id then (b.files p).sync else b.files p
    unsynced_segments := b.unsynced_segments.filter fun g => decide (g ≠ segment_id) }

/-- `sync_unsynced`, over the pending segments. -/
def sync_segments (io : ℕ → Bool) : List ℕ → ClogBuffer → ClogBuffer × Bool
  | [], b => (b, true)
  | g :: rest, b => if io g then sync_segments io rest (b.sync_segment g) else (b, false)

/-- `flush_dirty`, and whether it returned `Ok`. The segments are visited in the order
of the hash set, whatever it is. -/
def flush_dirty (b : ClogBuffer) (io : FlushIo) : Option (ClogBuffer × Bool) :=
  match write_frames io.write (List.range b.count) b with
  | (b, false) => some (b, false)
  | (b, true) =>
    if io.order.Perm b.unsynced_segments then some (sync_segments io.sync io.order b) else none

/-- What the cache holds for a page: its frame, or else the file. -/
def content (b : ClogBuffer) (p : ℕ) : ClogPage :=
  match b.page_table p with
  | some i => (b.frames i).data
  | none => (b.files p).now

end ClogBuffer

/-! ## The system -/

inductive ClogOp where
  | get_state (xid : TxnId) (io : LocateIo)
  | set_state (xid : TxnId) (state : TxnState) (io : LocateIo)
  | flush_dirty (io : FlushIo)

/-- The cache, and for each XID the state of the last `set_state` that returned. The
reserved XID has none. -/
structure ClogSys where
  buf : ClogBuffer
  last : Clog

namespace ClogSys

/-- A fresh commit log. -/
def start (count : ℕ) : ClogSys := ⟨.open count fun _ => .zero, fun _ => .InProgress⟩

def step (s : ClogSys) : ClogOp → Option ClogSys
  | .get_state xid io => some { s with buf := (s.buf.get_state xid io).1 }
  | .set_state xid state io =>
    match s.buf.set_state xid state io with
    | (b, false) => some { s with buf := b }
    | (b, true) =>
      some ⟨b, if xid = TxnId.INVALID then s.last else s.last.set_state xid state⟩
  | .flush_dirty io =>
    match s.buf.flush_dirty io with
    | none => none
    | some (b, _) => some { s with buf := b }

end ClogSys

/-- A lookup whose read does not fail over a frame that holds a page. -/
def ClogBuffer.ReadSafe (b : ClogBuffer) (page_no : ℕ) (io : LocateIo) : Prop :=
  io.read_ok = false → b.page_table page_no = none →
    ∀ v, b.find_victim.2 = some v → (b.frames v).page_no = none

/-- The condition on a step. -/
def ClogSys.ReadSafe (s : ClogSys) : ClogOp → Prop
  | .get_state xid io => s.buf.ReadSafe (page_no_of_xid xid) io
  | .set_state xid _ io => s.buf.ReadSafe (page_no_of_xid xid) io
  | .flush_dirty _ => True

/-! ## The sweep -/

namespace ClogBuffer

/-- The caches differ in reference bits and the hand at most. -/
structure Swept (b c : ClogBuffer) : Prop where
  count : c.count = b.count
  table : c.page_table = b.page_table
  files : c.files = b.files
  unsynced : c.unsynced_segments = b.unsynced_segments
  page_no : ∀ i, (c.frames i).page_no = (b.frames i).page_no
  data : ∀ i, (c.frames i).data = (b.frames i).data
  dirty : ∀ i, (c.frames i).dirty = (b.frames i).dirty

theorem Swept.refl (b : ClogBuffer) : Swept b b :=
  ⟨rfl, rfl, rfl, rfl, fun _ => rfl, fun _ => rfl, fun _ => rfl⟩

theorem Swept.trans {a b c : ClogBuffer} (h : Swept a b) (h' : Swept b c) : Swept a c :=
  ⟨h'.count.trans h.count, h'.table.trans h.table, h'.files.trans h.files,
    h'.unsynced.trans h.unsynced, fun i => (h'.page_no i).trans (h.page_no i),
    fun i => (h'.data i).trans (h.data i), fun i => (h'.dirty i).trans (h.dirty i)⟩

/-- Moving the hand and changing one reference bit. -/
theorem swept_reference (b : ClogBuffer) (hand idx : ℕ) (r : Bool) :
    Swept b { b with
      clock_hand := hand
      frames := update b.frames idx { b.frames idx with referenced := r } } := by
  have keep : ∀ {β : Type} (f : ClogFrame → β),
      f { b.frames idx with referenced := r } = f (b.frames idx) → ∀ i,
      f (update b.frames idx { b.frames idx with referenced := r } i) = f (b.frames i) := by
    intro β f hf i
    by_cases hi : i = idx
    · rw [hi, update_self]
      exact hf
    · rw [update_of_ne hi]
  exact ⟨rfl, rfl, rfl, rfl, keep ClogFrame.page_no rfl, keep ClogFrame.data rfl,
    keep ClogFrame.dirty rfl⟩

/-- What a turn of the sweep does. -/
theorem sweep_spec (allow_dirty : Bool) (k : ℕ) {b : ClogBuffer} (hhand : b.clock_hand < b.count) :
    Swept b (sweep allow_dirty k b).1 ∧ (sweep allow_dirty k b).1.clock_hand < b.count ∧
    ∀ v, (sweep allow_dirty k b).2 = some v → v < b.count := by
  induction k generalizing b with
  | zero => exact ⟨Swept.refl b, hhand, fun v hv => absurd hv (by simp [sweep])⟩
  | succ k ih =>
    have hpos : 0 < b.count := by omega
    have hnext : (b.clock_hand + 1) % b.count < b.count := Nat.mod_lt _ hpos
    have hmove : Swept b { b with clock_hand := (b.clock_hand + 1) % b.count } :=
      ⟨rfl, rfl, rfl, rfl, fun _ => rfl, fun _ => rfl, fun _ => rfl⟩
    rw [sweep]
    simp only
    split_ifs with h1 h2 h3
    · exact ⟨hmove, hnext, fun v hv => by rw [← Option.some.inj hv]; exact hhand⟩
    · obtain ⟨hs, hh, hv⟩ := @ih { b with
        clock_hand := (b.clock_hand + 1) % b.count
        frames := update b.frames b.clock_hand
          { b.frames b.clock_hand with referenced := false } } hnext
      exact ⟨(swept_reference b _ _ false).trans hs, hh, hv⟩
    · obtain ⟨hs, hh, hv⟩ := @ih { b with clock_hand := (b.clock_hand + 1) % b.count } hnext
      exact ⟨hmove.trans hs, hh, hv⟩
    · exact ⟨hmove, hnext, fun v hv => by rw [← Option.some.inj hv]; exact hhand⟩

/-- A turn that finds nothing has advanced the hand and cleared the first frame. -/
theorem sweep_none {allow_dirty : Bool} {k : ℕ} {b : ClogBuffer}
    (hhand : b.clock_hand < b.count) (h : (sweep allow_dirty k b).2 = none) :
    (sweep allow_dirty k b).1.clock_hand = (b.clock_hand + k) % b.count ∧
    (∀ i, ((sweep allow_dirty k b).1.frames i).referenced = true → (b.frames i).referenced = true) ∧
    (0 < k → (b.frames b.clock_hand).page_no ≠ none ∧
      ((sweep allow_dirty k b).1.frames b.clock_hand).referenced = false) := by
  induction k generalizing b with
  | zero => exact ⟨(Nat.mod_eq_of_lt hhand).symm, fun _ hi => hi, fun h0 => absurd h0 (lt_irrefl 0)⟩
  | succ k ih =>
    have hpos : 0 < b.count := by omega
    have hnext : (b.clock_hand + 1) % b.count < b.count := Nat.mod_lt _ hpos
    have hadd : ((b.clock_hand + 1) % b.count + k) % b.count = (b.clock_hand + (k + 1)) % b.count := by
      rw [Nat.mod_add_mod]
      congr 1
      omega
    rw [sweep] at h ⊢
    simp only at h ⊢
    split_ifs at h ⊢ with h1 h2 h3
    · obtain ⟨hh, hr, -⟩ := @ih { b with
        clock_hand := (b.clock_hand + 1) % b.count
        frames := update b.frames b.clock_hand
          { b.frames b.clock_hand with referenced := false } } hnext h
      have hclear : ∀ i, (update b.frames b.clock_hand
          { b.frames b.clock_hand with referenced := false } i).referenced = true →
          i ≠ b.clock_hand ∧ (b.frames i).referenced = true := by
        intro i hi
        by_cases hc : i = b.clock_hand
        · rw [hc, update_self] at hi
          simp at hi
        · rw [update_of_ne hc] at hi
          exact ⟨hc, hi⟩
      refine ⟨hh.trans hadd, fun i hi => (hclear i (hr i hi)).2, fun _ => ⟨h1, ?_⟩⟩
      by_contra hne
      exact (hclear _ (hr b.clock_hand (by simpa using hne))).1 rfl
    · obtain ⟨hh, hr, -⟩ := @ih { b with clock_hand := (b.clock_hand + 1) % b.count } hnext h
      refine ⟨hh.trans hadd, hr, fun _ => ⟨h1, ?_⟩⟩
      by_contra hne
      exact h2 (hr b.clock_hand (by simpa using hne))

/-- **The sweep ends**: the second turn takes the first frame it meets. -/
theorem find_victim_isSome {b : ClogBuffer} (hhand : b.clock_hand < b.count) :
    b.find_victim.2.isSome = true := by
  have hpos : 0 < b.count := by omega
  have hturn := @sweep_none false b.count b hhand
  have hspec := (sweep_spec false b.count hhand).1
  unfold find_victim
  rcases hw : sweep false b.count b with ⟨c, o⟩
  rw [hw] at hturn hspec
  cases o with
  | some v => rfl
  | none =>
    obtain ⟨hh, -, hfirst⟩ := hturn rfl
    obtain ⟨hpage, href⟩ := hfirst hpos
    rw [Nat.add_mod_right, Nat.mod_eq_of_lt hhand] at hh
    simp only at hh href ⊢
    have hcount : c.count = b.count := hspec.count
    obtain ⟨k, hk⟩ : ∃ k, c.count = k + 1 := ⟨b.count - 1, by omega⟩
    rw [hk, sweep]
    simp only
    rw [hh, if_neg (by rw [hspec.page_no]; exact hpage), if_neg (by rw [href]; decide),
      if_neg (by simp)]
    rfl

theorem find_victim_spec {b : ClogBuffer} (hhand : b.clock_hand < b.count) :
    Swept b b.find_victim.1 ∧ b.find_victim.1.clock_hand < b.count ∧
    ∀ v, b.find_victim.2 = some v → v < b.count := by
  have hfirst := sweep_spec false b.count hhand
  unfold find_victim
  rcases hw : sweep false b.count b with ⟨c, o⟩
  rw [hw] at hfirst
  obtain ⟨hs, hh, hv⟩ := hfirst
  cases o with
  | some v => exact ⟨hs, hh, hv⟩
  | none =>
    have hcount : c.count = b.count := hs.count
    obtain ⟨hs', hh', hv'⟩ := @sweep_spec true c.count c (by rw [hcount]; exact hh)
    refine ⟨hs.trans hs', ?_, ?_⟩
    · rw [← hcount]; exact hh'
    · rw [← hcount]; exact hv'

end ClogBuffer

/-! ## Coherence -/

/-- The page table and the frames name each other, a clean frame has the bytes of its
file, and what the cache holds is what was last set. -/
structure Coherent (b : ClogBuffer) (last : Clog) : Prop where
  hand : b.clock_hand < b.count
  table : ∀ p i, b.page_table p = some i ↔ i < b.count ∧ (b.frames i).page_no = some p
  clean : ∀ i p, i < b.count → (b.frames i).page_no = some p → (b.frames i).dirty = false →
    (b.frames i).data = (b.files p).now
  content : ∀ xid, xid ≠ TxnId.INVALID →
    page_state (b.content (page_no_of_xid xid)) xid = some (last xid)

namespace Coherent

open ClogBuffer

variable {b : ClogBuffer} {last : Clog}

/-- No page is in two frames. -/
theorem frame_unique (h : Coherent b last) {i j p : ℕ} (hi : i < b.count) (hj : j < b.count)
    (hpi : (b.frames i).page_no = some p) (hpj : (b.frames j).page_no = some p) : i = j := by
  have hti := (h.table p i).mpr ⟨hi, hpi⟩
  rw [(h.table p j).mpr ⟨hj, hpj⟩] at hti
  exact (Option.some.inj hti).symm

theorem swept (h : Coherent b last) {c : ClogBuffer} (hs : Swept b c) (hc : c.clock_hand < b.count) :
    Coherent c last where
  hand := by rw [hs.count]; exact hc
  table p i := by rw [hs.table, hs.count, hs.page_no]; exact h.table p i
  clean i p hi hp hd := by
    rw [hs.count] at hi
    rw [hs.page_no] at hp
    rw [hs.dirty] at hd
    rw [hs.data, hs.files]
    exact h.clean i p hi hp hd
  content xid hx := by
    have hcontent : c.content (page_no_of_xid xid) = b.content (page_no_of_xid xid) := by
      unfold ClogBuffer.content
      rw [hs.table, hs.files]
      cases b.page_table (page_no_of_xid xid) with
      | none => rfl
      | some i => exact hs.data i
    rw [hcontent]
    exact h.content xid hx

section Frame

variable (h : Coherent b last) {i p : ℕ} (hi : i < b.count) (hp : (b.frames i).page_no = some p)

include h hi hp

theorem content_of_frame : b.content p = (b.frames i).data := by
  unfold ClogBuffer.content
  rw [(h.table p i).mpr ⟨hi, hp⟩]

/-- What a frame holds of its page. -/
theorem frame_state (xid : TxnId) (hx : xid ≠ TxnId.INVALID) (hxp : page_no_of_xid xid = p) :
    page_state (b.frames i).data xid = some (last xid) := by
  rw [← h.content_of_frame hi hp, ← hxp]
  exact h.content xid hx

/-- A new frame and a new file for a cached page. While the frame is dirty the cache does not look
at the file. -/
theorem replace_frame {last' : Clog} (f : ClogFrame) (file : ClogPageFile) (segments : List ℕ)
    (hf : f.page_no = some p) (hclean : f.dirty = false → f.data = file.now)
    (hother : ∀ xid, page_no_of_xid xid ≠ p → last' xid = last xid)
    (hself : ∀ xid, xid ≠ TxnId.INVALID → page_no_of_xid xid = p →
      page_state f.data xid = some (last' xid)) :
    Coherent { b with
      files := update b.files p file
      unsynced_segments := segments
      frames := update b.frames i f } last' := by
  have hpage : ∀ j, (update b.frames i f j).page_no = (b.frames j).page_no := by
    intro j
    by_cases hj : j = i
    · rw [hj, update_self, hf, hp]
    · rw [update_of_ne hj]
  have hne : ∀ {j q}, (b.frames j).page_no = some q → q ≠ p → j ≠ i := by
    rintro j q hq hqp rfl
    exact hqp (Option.mem_unique hq hp)
  refine ⟨h.hand, fun q j => ?_, fun j q hj hq hd => ?_, fun xid hx => ?_⟩
  · change b.page_table q = some j ↔ j < b.count ∧ (update b.frames i f j).page_no = some q
    rw [hpage j]
    exact h.table q j
  · change (update b.frames i f j).page_no = some q at hq
    change (update b.frames i f j).dirty = false at hd
    change (update b.frames i f j).data = (update b.files p file q).now
    rw [hpage j] at hq
    by_cases hqp : q = p
    · subst hqp
      rw [h.frame_unique hj hi hq hp, update_self] at hd ⊢
      rw [update_self]
      exact hclean hd
    · rw [update_of_ne (hne hq hqp)] at hd ⊢
      rw [update_of_ne hqp]
      exact h.clean j q hj hq hd
  · unfold ClogBuffer.content
    by_cases hxp : page_no_of_xid xid = p
    · simp only [hxp, (h.table p i).mpr ⟨hi, hp⟩, update_self]
      exact hself xid hx hxp
    · rw [hother xid hxp, ← h.content xid hx, ClogBuffer.content]
      cases ht : b.page_table (page_no_of_xid xid) with
      | none => simp only [update_of_ne hxp]
      | some j => simp only [update_of_ne (hne ((h.table _ _).mp ht).2 hxp)]

/-- A page write of a dirty frame that fails. -/
theorem failed_write (hd : (b.frames i).dirty = true) (f : ClogPageFile) :
    Coherent { b with files := update b.files p f } last := by
  have hrep := h.replace_frame hi hp _ f b.unsynced_segments hp
    (fun hc => absurd (hd.symm.trans hc) (by decide)) (fun _ _ => rfl) (h.frame_state hi hp)
  rwa [Function.update_eq_self] at hrep

/-- A dirty frame written back, and clean from then on. -/
theorem written_back (segments : List ℕ) :
    Coherent { b with
      files := update b.files p ((b.files p).write (b.frames i).data)
      unsynced_segments := segments
      frames := update b.frames i { b.frames i with dirty := false } } last :=
  h.replace_frame hi hp _ _ segments hp (fun _ => rfl) (fun _ _ => rfl) (h.frame_state hi hp)

end Frame

/-- A page read into a frame. The frame held nothing, or a page that was clean by
then; that page is dropped from the table. -/
theorem loaded (h : Coherent b last) {v p : ℕ} (hv : v < b.count) (hp : b.page_table p = none)
    {table : ℕ → Option ℕ}
    (hclean : ∀ old, (b.frames v).page_no = some old → (b.frames v).data = (b.files old).now)
    (htable : ∀ q, table q = if (b.frames v).page_no = some q then none else b.page_table q) :
    Coherent { b with
      frames := update b.frames v ⟨some p, (b.files p).now, false, true⟩
      page_table := update table p (some v) } last := by
  have hnotp : ∀ i, i < b.count → (b.frames i).page_no ≠ some p := by
    intro i hi heq
    rw [(h.table p i).mpr ⟨hi, heq⟩] at hp
    simp at hp
  refine ⟨h.hand, ?_, ?_, ?_⟩
  · intro q i
    change update table p (some v) q = some i ↔
      i < b.count ∧ (update b.frames v _ i).page_no = some q
    by_cases hq : q = p
    · subst hq
      rw [update_self]
      constructor
      · intro heq
        rw [← Option.some.inj heq, update_self]
        exact ⟨hv, rfl⟩
      · rintro ⟨hi, heq⟩
        by_cases hiv : i = v
        · rw [hiv]
        · rw [update_of_ne hiv] at heq
          exact absurd heq (hnotp i hi)
    · rw [update_of_ne hq, htable q]
      by_cases hold : (b.frames v).page_no = some q
      · rw [if_pos hold]
        constructor
        · intro heq
          simp at heq
        · rintro ⟨hi, heq⟩
          by_cases hiv : i = v
          · rw [hiv, update_self] at heq
            exact absurd (Option.some.inj heq).symm hq
          · rw [update_of_ne hiv] at heq
            exact absurd (h.frame_unique hi hv heq hold) hiv
      · rw [if_neg hold, h.table q i]
        by_cases hiv : i = v
        · rw [hiv, update_self]
          constructor
          · rintro ⟨-, heq⟩
            exact absurd heq hold
          · rintro ⟨-, heq⟩
            exact absurd (Option.some.inj heq).symm hq
        · rw [update_of_ne hiv]
  · intro i q hi hq hd
    change (update b.frames v _ i).page_no = some q at hq
    change (update b.frames v _ i).dirty = false at hd
    change (update b.frames v _ i).data = (b.files q).now
    by_cases hiv : i = v
    · rw [hiv, update_self] at hq ⊢
      rw [← Option.some.inj hq]
    · rw [update_of_ne hiv] at hq hd ⊢
      exact h.clean i q hi hq hd
  · intro xid hx
    rw [← h.content xid hx]
    congr 1
    unfold ClogBuffer.content
    simp only
    by_cases hq : page_no_of_xid xid = p
    · rw [hq, update_self, hp]
      simp only [update_self]
    · rw [update_of_ne hq, htable]
      by_cases hold : (b.frames v).page_no = some (page_no_of_xid xid)
      · rw [if_pos hold, (h.table _ v).mpr ⟨hv, hold⟩]
        exact (hclean _ hold).symm
      · rw [if_neg hold]
        cases ht : b.page_table (page_no_of_xid xid) with
        | none => rfl
        | some j =>
          have hjv : j ≠ v := by
            rintro rfl
            exact hold ((h.table _ _).mp ht).2
          simp only [update_of_ne hjv]

end Coherent

/-! ## Finding a frame -/

/-- What `locate_frame` may do, when no read fails over a frame that holds a page. In
the last four cases `c` is the cache after the sweep and `v` the victim. -/
inductive Located (b : ClogBuffer) (p : ℕ) : ClogBuffer → Option ℕ → Prop
  | hit (i : ℕ) (h : b.page_table p = some i) :
      Located b p
        { b with frames := update b.frames i { b.frames i with referenced := true } } (some i)
  | write_failed (c : ClogBuffer) (v old : ℕ) (left : ClogPage) (mask : Fin 8192 → Bool)
      (hs : ClogBuffer.Swept b c) (hc : c.clock_hand < b.count) (hv : v < b.count)
      (hold : (c.frames v).page_no = some old) (hd : (c.frames v).dirty = true)
      (hleft : left = torn_page mask (c.files old).now (c.frames v).data) :
      Located b p
        { c with files := update c.files old ((c.files old).write left) } none
  | read_failed (c : ClogBuffer) (hs : ClogBuffer.Swept b c) (hc : c.clock_hand < b.count) :
      Located b p c none
  | loaded (c : ClogBuffer) (v : ℕ) (table : ℕ → Option ℕ)
      (hs : ClogBuffer.Swept b c) (hc : c.clock_hand < b.count) (hv : v < b.count)
      (hp : b.page_table p = none) (hd : (c.frames v).page_no = none ∨ (c.frames v).dirty = false)
      (ht : ∀ q, table q = if (c.frames v).page_no = some q then none else c.page_table q) :
      Located b p
        { c with
          frames := update c.frames v ⟨some p, (c.files p).now, false, true⟩
          page_table := update table p (some v) } (some v)
  | written_loaded (c : ClogBuffer) (v old : ℕ) (table : ℕ → Option ℕ) (data : ClogPage)
      (hs : ClogBuffer.Swept b c) (hc : c.clock_hand < b.count) (hv : v < b.count)
      (hp : b.page_table p = none) (hold : (c.frames v).page_no = some old)
      (hd : (c.frames v).dirty = true)
      (ht : ∀ q, table q = if (c.frames v).page_no = some q then none else c.page_table q)
      (hdata : data = (update c.files old ((c.files old).write (c.frames v).data) p).now) :
      Located b p
        { c with
          files := update c.files old ((c.files old).write (c.frames v).data)
          unsynced_segments := c.unsynced_segments.insert (segment_id_of_page old)
          frames := update c.frames v ⟨some p, data, false, true⟩
          page_table := update table p (some v) } (some v)

namespace ClogBuffer

variable {b : ClogBuffer}

theorem drop_table (c : ClogBuffer) {v old : ℕ} (hold : (c.frames v).page_no = some old) (q : ℕ) :
    update c.page_table old none q =
      if (c.frames v).page_no = some q then none else c.page_table q := by
  rw [hold]
  by_cases hq : q = old
  · rw [hq, update_self, if_pos rfl]
  · rw [update_of_ne hq, if_neg]
    intro heq
    exact hq (Option.some.inj heq).symm

theorem locate_frame_cases (hhand : b.clock_hand < b.count) {p : ℕ} {io : LocateIo}
    (hsafe : b.ReadSafe p io) :
    Located b p (b.locate_frame p io).1 (b.locate_frame p io).2 := by
  unfold locate_frame
  cases ht : b.page_table p with
  | some i => exact .hit i ht
  | none =>
    obtain ⟨hs, hc, hv⟩ := find_victim_spec hhand
    have hread : io.read_ok = false → ∀ v, b.find_victim.2 = some v → (b.frames v).page_no = none :=
      fun hr => hsafe hr ht
    rcases hw : b.find_victim with ⟨c, o⟩
    rw [hw] at hs hc hv hread
    simp only at hs hc hv hread
    cases o with
    | none => exact .read_failed c hs hc
    | some v =>
      replace hv := hv v rfl
      replace hread : io.read_ok = false → (c.frames v).page_no = none := fun hr => by
        rw [hs.page_no]
        exact hread hr v rfl
      simp only [evict]
      cases hold : (c.frames v).page_no with
      | none =>
        simp only
        by_cases hr : io.read_ok = true
        · rw [if_pos hr]
          exact .loaded c v c.page_table hs hc hv ht (.inl hold) fun q => by
            rw [hold, if_neg (by simp)]
        · rw [if_neg hr]
          exact .read_failed c hs hc
      | some old =>
        have hr : io.read_ok = true := by
          by_contra hr
          rw [hread (by simpa using hr)] at hold
          simp at hold
        simp only
        cases hd : (c.frames v).dirty with
        | false =>
          simp only [Bool.false_eq_true, if_false, if_pos hr]
          exact .loaded c v _ hs hc hv ht (.inr hd) (drop_table c hold)
        | true =>
          simp only [if_true]
          cases hwio : io.write with
          | ok =>
            simp only [write_page, if_pos hr]
            exact .written_loaded c v old _ _ hs hc hv ht hold hd (drop_table c hold) rfl
          | fails mask =>
            simp only [write_page]
            exact .write_failed c v old _ mask hs hc hv hold hd rfl

end ClogBuffer

namespace Coherent

variable {b b' : ClogBuffer} {last : Clog} {p : ℕ} {o : Option ℕ}

/-- A dirty victim, written back and replaced. -/
theorem written_loaded {c : ClogBuffer} (h : Coherent c last) {v old : ℕ} (hv : v < c.count)
    (hp : c.page_table p = none) (hold : (c.frames v).page_no = some old) {table : ℕ → Option ℕ}
    (ht : ∀ q, table q = if (c.frames v).page_no = some q then none else c.page_table q)
    (segments : List ℕ) :
    Coherent { c with
      files := update c.files old ((c.files old).write (c.frames v).data)
      unsynced_segments := segments
      frames := update c.frames v ⟨some p,
        (update c.files old ((c.files old).write (c.frames v).data) p).now, false, true⟩
      page_table := update table p (some v) } last := by
  have hback := h.written_back hv hold segments
  have hload := @Coherent.loaded _ last hback v p hv hp table
    (fun old' hold' => by
      change (update c.frames v _ v).page_no = some old' at hold'
      change (update c.frames v _ v).data = (update c.files old _ old').now
      rw [update_self] at hold' ⊢
      rw [← Option.mem_unique hold hold', update_self]
      rfl)
    (fun q => by
      change table q = if (update c.frames v _ v).page_no = some q then none else c.page_table q
      rw [update_self]
      exact ht q)
  simpa only [Function.update_idem] using hload

/-- Finding a frame keeps the cache coherent and, when it succeeds, has the page in it. -/
theorem located (h : Coherent b last) (hl : Located b p b' o) :
    Coherent b' last ∧ b'.count = b.count ∧
      ∀ i, o = some i → i < b'.count ∧ (b'.frames i).page_no = some p := by
  have hin : ∀ {c : ClogBuffer}, Coherent c last → ∀ {i}, c.page_table p = some i →
      i < c.count ∧ (c.frames i).page_no = some p := fun hc => (hc.table p _).mp
  cases hl with
  | hit i ht =>
    have hs := ClogBuffer.swept_reference b b.clock_hand i true
    have hc := h.swept hs h.hand
    refine ⟨hc, rfl, fun j hj => ?_⟩
    rw [← Option.some.inj hj]
    exact hin hc ht
  | write_failed c v old left mask hs hc hv hold hd hleft =>
    have hcoh := h.swept hs hc
    refine ⟨hcoh.failed_write (by rw [hs.count]; exact hv) hold hd _, hs.count, fun j hj => ?_⟩
    simp at hj
  | read_failed c hs hc => exact ⟨h.swept hs hc, hs.count, fun j hj => absurd hj (by simp)⟩
  | loaded c v table hs hc hv hp hd ht =>
    have hcoh := h.swept hs hc
    have hv' : v < c.count := by rw [hs.count]; exact hv
    have hload := hcoh.loaded hv' (by rw [hs.table]; exact hp) (fun old hold => by
      rcases hd with hd | hd
      · rw [hd] at hold
        simp at hold
      · exact hcoh.clean v old hv' hold hd) ht
    refine ⟨hload, hs.count, fun j hj => ?_⟩
    rw [← Option.some.inj hj]
    exact hin hload (update_self _ _ _)
  | written_loaded c v old table data hs hc hv hp hold hd ht hdata =>
    have hcoh := h.swept hs hc
    have hload := hcoh.written_loaded (by rw [hs.count]; exact hv) (by rw [hs.table]; exact hp) hold ht
      (c.unsynced_segments.insert (segment_id_of_page old))
    rw [← hdata] at hload
    refine ⟨hload, hs.count, fun j hj => ?_⟩
    rw [← Option.some.inj hj]
    exact hin hload (update_self _ _ _)

/-- A state set in the frame of its page. -/
theorem set_frame (h : Coherent b last) {i : ℕ} {xid : TxnId} (hi : i < b.count)
    (hp : (b.frames i).page_no = some (page_no_of_xid xid)) (state : TxnState) :
    Coherent { b with
      frames := update b.frames i
        { b.frames i with data := set_page_state (b.frames i).data xid state, dirty := true } }
      (last.set_state xid state) := by
  have hrep := h.replace_frame hi hp
    { b.frames i with data := set_page_state (b.frames i).data xid state, dirty := true }
    (b.files (page_no_of_xid xid)) b.unsynced_segments hp (fun hc => absurd hc (by simp))
    (fun y hy => Clog.set_state_of_ne _ state fun heq => hy (congrArg page_no_of_xid heq))
    fun y hy hyp => ?_
  · rwa [Function.update_eq_self] at hrep
  · by_cases heq : y = xid
    · rw [heq, page_state_set_self, Clog.set_state_self]
    · rw [page_state_set_other _ heq hyp, Clog.set_state_of_ne _ _ heq]
      exact h.frame_state hi hp y hy hyp

/-- Only what the files read as matters to the cache. -/
theorem resynced (h : Coherent b last) {files : ℕ → ClogPageFile}
    (hfiles : ∀ p, (files p).now = (b.files p).now) (segments : List ℕ) :
    Coherent { b with files := files, unsynced_segments := segments } last where
  hand := h.hand
  table := h.table
  clean i q hi hq hd := (h.clean i q hi hq hd).trans (hfiles q).symm
  content xid hx := by
    rw [← h.content xid hx]
    congr 1
    unfold ClogBuffer.content
    simp only [hfiles]

theorem sync_segments (h : Coherent b last) (io : ℕ → Bool) (order : List ℕ) :
    Coherent (ClogBuffer.sync_segments io order b).1 last ∧
      (ClogBuffer.sync_segments io order b).1.count = b.count := by
  induction order generalizing b with
  | nil => exact ⟨h, rfl⟩
  | cons g rest ih =>
    rw [ClogBuffer.sync_segments]
    by_cases hg : io g = true
    · rw [if_pos hg]
      apply ih
      apply h.resynced
      intro p
      by_cases hp : segment_id_of_page p = g
      · rw [if_pos hp]; rfl
      · rw [if_neg hp]
    · rw [if_neg hg]
      exact ⟨h, rfl⟩

theorem write_frames (h : Coherent b last) (io : ℕ → WriteIo) {frames : List ℕ}
    (hf : ∀ i ∈ frames, i < b.count) :
    Coherent (ClogBuffer.write_frames io frames b).1 last ∧
      (ClogBuffer.write_frames io frames b).1.count = b.count := by
  induction frames generalizing b with
  | nil => exact ⟨h, rfl⟩
  | cons i rest ih =>
    have hi : i < b.count := hf i (.head _)
    have hrest : ∀ j ∈ rest, j < b.count := fun j hj => hf j (.tail _ hj)
    rw [ClogBuffer.write_frames]
    split
    · rename_i page_no hp hd
      cases hio : io i with
      | ok =>
        simp only [ClogBuffer.write_page]
        exact ih (h.written_back hi hp _) hrest
      | fails mask =>
        simp only [ClogBuffer.write_page]
        exact ⟨h.failed_write hi hp hd _, trivial⟩
    · exact ih h hrest

theorem flush_dirty (h : Coherent b last) {io : FlushIo} {r : ClogBuffer × Bool}
    (hr : b.flush_dirty io = some r) : Coherent r.1 last ∧ r.1.count = b.count := by
  have hw := @write_frames b last h io.write (List.range b.count) fun i hi => List.mem_range.mp hi
  unfold ClogBuffer.flush_dirty at hr
  rcases hwf : ClogBuffer.write_frames io.write (List.range b.count) b with ⟨c, ok⟩
  rw [hwf] at hw hr
  cases ok with
  | false =>
    simp only at hr
    rw [← Option.some.inj hr]
    exact hw
  | true =>
    simp only at hr
    split_ifs at hr with hperm
    rw [← Option.some.inj hr]
    obtain ⟨hc, hcount⟩ := hw.1.sync_segments io.sync io.order
    exact ⟨hc, hcount.trans hw.2⟩

end Coherent

/-! ## Runs -/

namespace ClogBuffer

variable {b : ClogBuffer} {last : Clog}

/-- A lookup that returned read its page, if it had to. -/
theorem readSafe_of_located {p : ℕ} {io : LocateIo} {i : ℕ} (h : (b.locate_frame p io).2 = some i) :
    b.ReadSafe p io := by
  intro hr ht v hv
  unfold locate_frame at h
  rw [ht] at h
  rcases hw : b.find_victim with ⟨c, o⟩
  rw [hw] at h hv
  simp only at h hv
  subst hv
  simp only at h
  rcases he : c.evict v io.write with ⟨d, ok⟩
  rw [he] at h
  cases ok with
  | false => simp at h
  | true =>
    simp only [hr, Bool.false_eq_true, if_false] at h
    simp at h

theorem get_state_coherent (h : Coherent b last) {xid : TxnId} {io : LocateIo}
    (hsafe : b.ReadSafe (page_no_of_xid xid) io) :
    Coherent (b.get_state xid io).1 last ∧ (b.get_state xid io).1.count = b.count := by
  unfold get_state
  by_cases hx : xid = TxnId.INVALID
  · rw [if_pos hx]
    exact ⟨h, rfl⟩
  · rw [if_neg hx]
    have hloc := h.located (locate_frame_cases h.hand hsafe)
    rcases hl : b.locate_frame (page_no_of_xid xid) io with ⟨c, o⟩
    rw [hl] at hloc
    cases o with
    | none => exact ⟨hloc.1, hloc.2.1⟩
    | some i => exact ⟨hloc.1, hloc.2.1⟩

theorem set_state_coherent (h : Coherent b last) {xid : TxnId} {state : TxnState} {io : LocateIo}
    (hsafe : b.ReadSafe (page_no_of_xid xid) io) :
    Coherent (b.set_state xid state io).1
      (if (b.set_state xid state io).2 = true ∧ xid ≠ TxnId.INVALID then last.set_state xid state
        else last) ∧ (b.set_state xid state io).1.count = b.count := by
  unfold set_state
  by_cases hx : xid = TxnId.INVALID
  · simp only [hx, ne_eq, not_true_eq_false, and_false, if_false]
    exact ⟨h, rfl⟩
  · simp only [if_neg hx]
    have hloc := h.located (locate_frame_cases h.hand hsafe)
    rcases hl : b.locate_frame (page_no_of_xid xid) io with ⟨c, o⟩
    rw [hl] at hloc
    cases o with
    | none =>
      simp only [Bool.false_eq_true, false_and, if_false]
      exact ⟨hloc.1, hloc.2.1⟩
    | some i =>
      obtain ⟨hcoh, hcount, hin⟩ := hloc
      obtain ⟨hi, hp⟩ := hin i rfl
      simp only [hx, ne_eq, not_false_eq_true, and_self, if_true]
      exact ⟨hcoh.set_frame hi hp state, hcount⟩

/-- A lookup that returns gives the state last set. -/
theorem get_state_eq (h : Coherent b last) (hlast : last TxnId.INVALID = .InProgress) {xid : TxnId}
    {io : LocateIo} {state : TxnState} (hget : (b.get_state xid io).2 = some state) :
    state = last xid := by
  unfold get_state at hget
  by_cases hx : xid = TxnId.INVALID
  · rw [if_pos hx] at hget
    rw [hx, hlast]
    exact (Option.some.inj hget).symm
  · rw [if_neg hx] at hget
    rcases hl : b.locate_frame (page_no_of_xid xid) io with ⟨c, o⟩
    rw [hl] at hget
    cases o with
    | none => simp at hget
    | some i =>
      have hloc := h.located (locate_frame_cases h.hand (@readSafe_of_located b _ io i (by rw [hl])))
      rw [hl] at hloc
      obtain ⟨hcoh, -, hin⟩ := hloc
      obtain ⟨hi, hp⟩ := hin i rfl
      simp only at hget
      rw [← hcoh.content_of_frame hi hp, hcoh.content xid hx] at hget
      exact (Option.some.inj hget).symm

/-- A lookup whose I/O succeeds returns. -/
theorem get_state_returns (h : Coherent b last) (hlast : last TxnId.INVALID = .InProgress)
    (xid : TxnId) : (b.get_state xid ⟨.ok, true⟩).2 = some (last xid) := by
  by_cases hx : xid = TxnId.INVALID
  · unfold get_state
    rw [if_pos hx, hx, hlast]
  · have hsafe : b.ReadSafe (page_no_of_xid xid) ⟨.ok, true⟩ := fun hr => absurd hr (by simp)
    have hsome : ∃ i, (b.locate_frame (page_no_of_xid xid) ⟨.ok, true⟩).2 = some i := by
      unfold locate_frame
      cases b.page_table (page_no_of_xid xid) with
      | some i => exact ⟨i, rfl⟩
      | none =>
        have hvictim := find_victim_isSome h.hand
        rcases hw : b.find_victim with ⟨c, o⟩
        rw [hw] at hvictim
        obtain ⟨v, rfl⟩ := Option.isSome_iff_exists.mp hvictim
        refine ⟨v, ?_⟩
        simp only [evict]
        cases hold : (c.frames v).page_no with
        | none => rfl
        | some old => cases hd : (c.frames v).dirty <;> rfl
    obtain ⟨i, hi⟩ := hsome
    have hloc := h.located (locate_frame_cases h.hand hsafe)
    unfold get_state
    rw [if_neg hx]
    rcases hl : b.locate_frame (page_no_of_xid xid) ⟨.ok, true⟩ with ⟨c, o⟩
    rw [hl] at hi hloc
    simp only at hi
    subst hi
    obtain ⟨hcoh, -, hin⟩ := hloc
    obtain ⟨hic, hp⟩ := hin i rfl
    simp only
    rw [← hcoh.content_of_frame hic hp]
    exact hcoh.content xid hx

end ClogBuffer

namespace ClogSys

/-- The invariant of a run with `n` frames. -/
structure Ok (n : ℕ) (s : ClogSys) : Prop where
  coherent : Coherent s.buf s.last
  count : s.buf.count = n
  reserved : s.last TxnId.INVALID = .InProgress

theorem Ok.step {n : ℕ} {s t : ClogSys} {op : ClogOp} (h : Ok n s) (hsafe : s.ReadSafe op)
    (hst : s.step op = some t) : Ok n t := by
  cases op with
  | get_state xid io =>
    cases hst
    obtain ⟨hc, hcount⟩ := ClogBuffer.get_state_coherent h.coherent hsafe
    exact ⟨hc, hcount.trans h.count, h.reserved⟩
  | set_state xid state io =>
    obtain ⟨hc, hcount⟩ := @ClogBuffer.set_state_coherent _ _ h.coherent xid state io hsafe
    unfold ClogSys.step at hst
    simp only at hst
    rcases hset : s.buf.set_state xid state io with ⟨b, returned⟩
    rw [hset] at hst hc hcount
    cases returned with
    | false =>
      cases hst
      simp only [Bool.false_eq_true, false_and, if_false] at hc
      exact ⟨hc, hcount.trans h.count, h.reserved⟩
    | true =>
      cases hst
      by_cases hx : xid = TxnId.INVALID
      · simp only [hx, ne_eq, not_true_eq_false, and_false, if_false, if_true] at hc ⊢
        exact ⟨hc, hcount.trans h.count, h.reserved⟩
      · simp only [hx, ne_eq, not_false_eq_true, and_self, if_true, if_false] at hc ⊢
        refine ⟨hc, hcount.trans h.count, ?_⟩
        exact (Clog.set_state_of_ne _ _ (Ne.symm hx)).trans h.reserved
  | flush_dirty io =>
    unfold ClogSys.step at hst
    simp only at hst
    split at hst
    · cases hst
    · next r hf =>
      cases hst
      obtain ⟨hc, hcount⟩ := h.coherent.flush_dirty hf
      exact ⟨hc, hcount.trans h.count, h.reserved⟩

/-- A cache just opened over pages with the states `last`. -/
theorem open_coherent {n : ℕ} (hn : 0 < n) {files : ℕ → ClogPage} {last : Clog}
    (hfiles : ∀ xid, xid ≠ TxnId.INVALID →
      page_state (files (page_no_of_xid xid)) xid = some (last xid)) :
    Coherent (.open n files) last where
  hand := hn
  table p i := ⟨fun h => absurd h (by simp [ClogBuffer.open]),
    fun h => absurd h.2 (by simp [ClogBuffer.open])⟩
  clean i p _ hp _ := absurd hp (by simp [ClogBuffer.open])
  content := hfiles

theorem start_ok {n : ℕ} (hn : 0 < n) : Ok n (start n) :=
  ⟨open_coherent hn fun xid _ => page_state_zero xid, rfl, rfl⟩

end ClogSys

/-- **The CLOG cache is coherent.** In every run with 4 to 1024 frames in which no page
read fails over a frame that holds a page, with any other I/O failing, a `get_state`
that returns gives the state of the last `set_state` that returned, `InProgress` if
there was none; with I/O that succeeds it does return; and no page is in two frames. -/
theorem clog_buffer_coherent {n : ℕ} (hmin : MIN_FRAMES ≤ n) (_hmax : n ≤ MAX_FRAMES)
    {ops : List ClogOp} {s : ClogSys}
    (hsafe : AllSteps ClogSys.step ClogSys.ReadSafe (ClogSys.start n) ops)
    (hrun : run ClogSys.step (ClogSys.start n) ops = some s) :
    (∀ xid io state, (s.buf.get_state xid io).2 = some state → state = s.last xid) ∧
    (∀ xid, (s.buf.get_state xid ⟨.ok, true⟩).2 = some (s.last xid)) ∧
    (∀ i j p, i < n → j < n → (s.buf.frames i).page_no = some p →
      (s.buf.frames j).page_no = some p → i = j) := by
  have hn : 0 < n := lt_of_lt_of_le (by decide) hmin
  have hok : ClogSys.Ok n s := run_invariant_of_allSteps ClogSys.ReadSafe (ClogSys.Ok n)
    (fun _ _ _ h hr hst => h.step hr hst) (ClogSys.start_ok hn) hsafe hrun
  refine ⟨fun xid io state hget => ClogBuffer.get_state_eq hok.coherent hok.reserved hget,
    ClogBuffer.get_state_returns hok.coherent hok.reserved, ?_⟩
  intro i j p hi hj hpi hpj
  rw [← hok.count] at hi hj
  exact hok.coherent.frame_unique hi hj hpi hpj

/-- All I/O succeeds. -/
def LocateIo.good : LocateIo := ⟨.ok, true⟩

/-- Five pages through four frames: one is written back and read again. -/
theorem clog_buffer_coherent_eviction :
    ∃ s, run ClogSys.step (ClogSys.start 4) [.set_state 1 .Committed .good,
        .get_state 16384 .good, .get_state 32768 .good, .get_state 49152 .good,
        .get_state 65536 .good] = some s ∧
      s.buf.page_table 0 = none ∧ (s.buf.get_state 1 ⟨.ok, true⟩).2 = some .Committed := by
  refine exists_of_map_eq (fun s => (s.buf.page_table 0, s.last 1)) (b := (none, .Committed))
    (by decide +kernel) fun s hs hval => ?_
  obtain ⟨htable, hlast⟩ := Prod.mk.inj hval
  have hgood : ∀ (b : ClogBuffer) p, b.ReadSafe p .good := fun b p hr =>
    absurd hr (by simp [LocateIo.good])
  have hcoherent := fun hsafe => clog_buffer_coherent (by decide) (by decide) hsafe hs
  obtain ⟨-, hget, -⟩ := hcoherent ⟨hgood _ _, fun _ _ => ⟨hgood _ _, fun _ _ => ⟨hgood _ _,
    fun _ _ => ⟨hgood _ _, fun _ _ => ⟨hgood _ _, fun _ _ => trivial⟩⟩⟩⟩⟩
  exact ⟨htable, by rw [hget, hlast]⟩

/-- The read of page 4 fails after page 0 has been evicted for it. Page 0 is then in
frames 0 and 1; the later eviction of frame 0 writes its old bytes over the file and
drops the entry of frame 1, and `Aborted`, which was set last, reads `Committed`. -/
theorem clog_stale_frame_written_back :
    ∃ s t, run ClogSys.step (ClogSys.start 4) [.set_state 1 .Committed .good,
        .get_state 16384 .good, .get_state 32768 .good, .get_state 49152 .good,
        .get_state 65536 ⟨.ok, false⟩, .set_state 1 .Aborted .good] = some s ∧
      (s.buf.frames 0).page_no = some 0 ∧ (s.buf.frames 1).page_no = some 0 ∧
      run ClogSys.step s [.get_state 65536 .good, .get_state 81920 .good, .get_state 98304 .good]
        = some t ∧
      t.last 1 = .Aborted ∧ (t.buf.get_state 1 .good).2 = some .Committed := by
  have heval : ((run ClogSys.step (ClogSys.start 4) [.set_state 1 .Committed .good,
        .get_state 16384 .good, .get_state 32768 .good, .get_state 49152 .good,
        .get_state 65536 ⟨.ok, false⟩, .set_state 1 .Aborted .good]).bind fun s =>
      (run ClogSys.step s [.get_state 65536 .good, .get_state 81920 .good,
        .get_state 98304 .good]).map fun t => ((s.buf.frames 0).page_no, (s.buf.frames 1).page_no,
          t.last 1, (t.buf.get_state 1 .good).2)) =
      some (some 0, some 0, .Aborted, some .Committed) := by decide +kernel
  obtain ⟨s, hs, hrest⟩ := Option.bind_eq_some_iff.mp heval
  obtain ⟨t, ht, hval⟩ := Option.map_eq_some_iff.mp hrest
  simp only [Prod.mk.injEq] at hval
  exact ⟨s, t, hs, hval.1, hval.2.1, ht, hval.2.2.1, hval.2.2.2⟩

end Ams
