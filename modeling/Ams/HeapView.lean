/-
What the heap's calls do to the tuples, read through the bytes.

`view` decodes every live slot of every page. It is what a scan sees and what the
rest of the development argues about; the page format stays behind it. Each call of
`Ams.HeapAM` either fails and leaves everything as it was, or changes the view in
one or two places: an insert fills a free slot, a delete and a lock replace a
header, an update does both.

Headers must fit their fields for this, so XIDs, command ids and page ids are the
`u64`s and `u32`s of the source here.
-/
import Ams.HeapAM
import Ams.StoredTuple

set_option autoImplicit false

namespace Ams

open Ams.Lib SlottedPage
open Function (update update_self update_of_ne)

/-- A row: the tuple's header and its column values. -/
abbrev Row := TupleHeader × List (Option Datum)

/-- The row at a slot of a page. -/
def row_at (columns : List ColumnType) (page : Page) (slot : ℕ) : Option Row :=
  (content page slot).bind fun bytes => (decode_tuple bytes columns).toOption

/-- The rows of the heap. -/
def view (columns : List ColumnType) (pages : PageId → Page) (tid : Tid) : Option Row :=
  row_at columns (pages tid.page_id) tid.slot_id

/-- A page of the relation: fresh or well-formed, and every tuple on it decodes. -/
structure Sound (columns : List ColumnType) (page : Page) : Prop where
  ok : PageOk page
  decodes : ∀ slot bytes, content page slot = some bytes → ∃ r, decode_tuple bytes columns = .ok r

section Page

variable {columns : List ColumnType} {p q : Page} {slot : ℕ} {h : TupleHeader}
  {values : List (Option Datum)}

theorem row_at_eq_some : row_at columns p slot = some (h, values) ↔
      ∃ bytes, content p slot = some bytes ∧ decode_tuple bytes columns = .ok (h, values) := by
  unfold row_at
  cases hc : content p slot with
  | none => simp
  | some bytes =>
    cases hd : decode_tuple bytes columns with
    | error e => simp [hd, Except.toOption]
    | ok r => simp [hd, Except.toOption]

theorem Sound.row_at_eq_none (hp : Sound columns p) :
    row_at columns p slot = none ↔ content p slot = none := by
  unfold row_at
  cases hc : content p slot with
  | none => simp
  | some bytes =>
    obtain ⟨r, hr⟩ := hp.decodes slot bytes hc
    simp [hr, Except.toOption]

theorem row_at_congr (h : content q = content p) : row_at columns q = row_at columns p := by
  funext slot
  unfold row_at
  rw [h]

/-- The same tuples on a page that is still well formed. -/
theorem Sound.of_content (hp : Sound columns p) (hq : PageOk q) (h : content q = content p) :
    Sound columns q := ⟨hq, by rw [h]; exact hp.decodes⟩

theorem content_zero (slot : ℕ) : content Page.zero slot = none := by
  apply content_eq_none
  rw [slot_count_zero]
  exact Nat.zero_le _

theorem content_init_with_special (p : Page) (slot : ℕ) :
    content (init_with_special p HEAP_SPECIAL_SIZE) slot = none := by
  apply content_eq_none
  rw [(@init_with_special_inv HEAP_SPECIAL_SIZE p (by decide)).2]
  exact Nat.zero_le _

theorem PageOk.content_init (hp : PageOk p) : content (init_if_fresh p) = content p := by
  rcases hp with rfl | hp
  · funext slot
    rw [init_if_fresh, init_zero_eq, content_init_with_special, content_zero]
  · rw [init_if_fresh, hp.init_eq]

theorem Sound.init (hp : Sound columns p) : Sound columns (init_if_fresh p) :=
  hp.of_content (.inr hp.ok.init) hp.ok.content_init

theorem content_set_pd_lsn (p : Page) (hp : Inv p) (lsn : Lsn) :
    content (stamp_pd_lsn p lsn) = content p := by
  funext s
  have hb := hp.bounds
  have hlayout : SameLayout p (stamp_pd_lsn p lsn) := sameLayout_set_pd_lsn p _
  by_cases hs : s < slot_count p
  · refine content_congr (by rw [hlayout.slot_count_eq]) (hlayout.pointer s hs) fun i hi _ _ hn => ?_
    have hw := hp.within s hs hn
    exact Buf.byte_writeLe_of_disjoint (by omega)
  · rw [content_eq_none (not_lt.mp hs), content_eq_none (by rw [hlayout.slot_count_eq]; exact not_lt.mp hs)]

/-- Slots are `u16`s. -/
theorem HeapWf.slot_count_lt (hp : HeapWf p) : slot_count p ≤ 2036 := by
  have hb := hp.bounds
  have h4 := hp.special_eq
  omega

/-! ## The page actions -/

/-- Placing a tuple that decodes. -/
theorem Sound.add_tuple_at (hp : Sound columns p) (hwf : HeapWf p) {bytes : List UInt8}
    (hfits : Fits p slot bytes) (hdec : decode_tuple bytes columns = .ok (h, values))
    (hq : SlottedPage.add_tuple_at p slot bytes = .ok q) :
    Sound columns q ∧ HeapWf q ∧ row_at columns p slot = none ∧
      row_at columns q = update (row_at columns p) slot (some (h, values)) := by
  obtain ⟨-, rfl⟩ := add_tuple_at_eq_ok.mp hq
  obtain ⟨-, hcontent, -⟩ := place_tuple_spec hwf.toInv hfits
  have hread := (decode_tuple_eq_ok.mp hdec).1
  obtain ⟨hlen, -, -⟩ := TupleHeader.write_to_read_from hread
  obtain ⟨hwf', -⟩ := hwf.place_tuple hfits hlen
  have hfree : content p slot = none := by
    by_cases hs : slot = slot_count p
    · exact content_eq_none (by rw [hs])
    · rw [content, if_neg]
      rintro ⟨-, hn⟩
      rw [hfits.recycles hs] at hn
      exact absurd hn (by decide)
  refine ⟨⟨.inr hwf', fun s b hb => ?_⟩, hwf', hp.row_at_eq_none.mpr hfree, ?_⟩
  · rw [hcontent] at hb
    by_cases hs : s = slot
    · rw [hs, update_self, Option.some.injEq] at hb
      rw [← hb]
      exact ⟨_, hdec⟩
    · rw [update_of_ne hs] at hb
      exact hp.decodes s b hb
  · funext s
    by_cases hs : s = slot
    · rw [hs, update_self]
      exact row_at_eq_some.mpr ⟨bytes, by rw [hcontent, update_self], hdec⟩
    · rw [update_of_ne hs, row_at, hcontent, update_of_ne hs, row_at]

/-- The header of a tuple does not depend on what follows it. -/
theorem read_from_append {bytes rest : List UInt8} (hread : TupleHeader.read_from bytes = .ok h) :
    TupleHeader.read_from (bytes ++ rest) = .ok h := by
  obtain ⟨-, hr, hbytes⟩ := TupleHeader.write_to_read_from hread
  rw [hbytes, List.append_assoc]
  exact TupleHeader.read_from_write_to hr _

/-- The bytes of a live slot: a header, and the rest. -/
theorem HeapWf.content_eq (hp : HeapWf p) (hs : slot < slot_count p)
    (hn : (raw_line_pointer p slot).flags = .Normal) :
    content p slot = some (p.slice (raw_line_pointer p slot).off 64 ++
      p.slice ((raw_line_pointer p slot).off + 64) ((raw_line_pointer p slot).len - 64)) := by
  have hsize := hp.sized _ hs hn
  rw [content, if_pos ⟨hs, hn⟩, ← Buf.slice_add, Nat.add_sub_cancel' hsize]

/-- The gate reads the row's header. -/
theorem Sound.read_header (hp : Sound columns p) {tid : Tid}
    (hread : HeapAM.read_header p tid = .ok h) :
    HeapWf p ∧ ∃ values, row_at columns p tid.slot_id = some (h, values) := by
  obtain ⟨hg, hs, hn, hr⟩ := HeapAM.read_header_eq_ok.mp hread
  have hwf := hp.ok.heapWf hg
  refine ⟨hwf, ?_⟩
  have hcontent := hwf.content_eq hs hn
  obtain ⟨⟨hd, values⟩, hdec⟩ := hp.decodes _ _ hcontent
  have hsame := (decode_tuple_eq_ok.mp hdec).1
  rw [read_from_append hr] at hsame
  rw [← Except.ok.inj hsame] at hdec
  exact ⟨values, row_at_eq_some.mpr ⟨_, hcontent, hdec⟩⟩

/-- Stamping a row: its header becomes `f h`, and nothing else changes. -/
theorem Sound.stamp_header (hp : Sound columns p) (hwf : HeapWf p) {tid : Tid}
    {f : TupleHeader → TupleHeader} (hrow : row_at columns p tid.slot_id = some (h, values))
    (hshape : h.SameShape (f h)) (hrange : h.InRange → (f h).InRange)
    (hq : HeapAM.stamp_header p tid f = .ok q) :
    Sound columns q ∧ HeapWf q ∧
      row_at columns q = update (row_at columns p) tid.slot_id (some (f h, values)) := by
  obtain ⟨-, hs, hn, hd, hr, rfl⟩ := HeapAM.stamp_header_eq_ok.mp hq
  have hsize := hwf.sized _ hs hn
  have hw := hwf.within _ hs hn
  have hsp := hwf.special_eq
  obtain ⟨bytes, hbytes, hdec⟩ := row_at_eq_some.mp hrow
  have hcontent := hwf.content_eq hs hn
  -- the header the stamp reads is the row's
  have hhd : hd = h := by
    rw [hcontent, Option.some.injEq] at hbytes
    have hread := (decode_tuple_eq_ok.mp hdec).1
    rw [← hbytes, read_from_append hr] at hread
    exact Except.ok.inj hread
  subst hhd
  obtain ⟨hlayout, hother⟩ := @HeapWf.tuple_write p tid.slot_id hwf _ (f hd).write_to hs hn
    (le_refl _) (by rw [TupleHeader.length_write_to]; omega)
  have hwf' := hwf.of_layout hlayout
  have hself : content (p.write (raw_line_pointer p tid.slot_id).off (f hd).write_to) tid.slot_id
      = some ((f hd).write_to ++ bytes.drop 64) := by
    have hs' : tid.slot_id
        < slot_count (p.write (raw_line_pointer p tid.slot_id).off (f hd).write_to) := by
      rw [hlayout.slot_count_eq]
      exact hs
    have hlp := hlayout.pointer tid.slot_id hs
    have hlen := TupleHeader.length_write_to (f hd)
    have hhead : (p.write (raw_line_pointer p tid.slot_id).off (f hd).write_to).slice
        (raw_line_pointer p tid.slot_id).off 64 = (f hd).write_to := by
      rw [← hlen]
      exact Buf.slice_write_self (by omega)
    rw [hcontent, Option.some.injEq] at hbytes
    rw [hwf'.content_eq hs' (by rw [hlp]; exact hn), hlp, hhead,
      Buf.slice_write_of_disjoint (.inr (by omega)), ← hbytes,
      List.drop_left' (Buf.length_slice _ _)]
  have hdec' := decode_tuple_restamp hdec hshape
    (hrange (TupleHeader.write_to_read_from (decode_tuple_eq_ok.mp hdec).1).2.1)
  refine ⟨⟨.inr hwf', fun s b hb => ?_⟩, hwf', ?_⟩
  · by_cases hne : s = tid.slot_id
    · rw [hne, hself, Option.some.injEq] at hb
      rw [← hb]
      exact ⟨_, hdec'⟩
    · rw [hother s hne] at hb
      exact hp.decodes s b hb
  · funext s
    by_cases hne : s = tid.slot_id
    · rw [hne, update_self]
      exact row_at_eq_some.mpr ⟨_, hself, hdec'⟩
    · rw [update_of_ne hne, row_at, hother s hne, row_at]

/-- Both on one page, as an update in place does. -/
theorem Sound.stamp_then_add {m : Page} (hp : Sound columns p) (hwf : HeapWf p) {tid : Tid}
    {f : TupleHeader → TupleHeader} {old : TupleHeader} {old_values : List (Option Datum)}
    (hrow : row_at columns p tid.slot_id = some (old, old_values)) (hshape : old.SameShape (f old))
    (hrange : old.InRange → (f old).InRange) {bytes : List UInt8} (hfits : Fits p slot bytes)
    (hdec : decode_tuple bytes columns = .ok (h, values))
    (hm : HeapAM.stamp_header p tid f = .ok m) (hq : SlottedPage.add_tuple_at m slot bytes = .ok q) :
    Sound columns q ∧ HeapWf q ∧ row_at columns p slot = none ∧
      row_at columns q = update
        (update (row_at columns p) tid.slot_id (some (f old, old_values))) slot
        (some (h, values)) := by
  obtain ⟨hsm, hwm, hrm⟩ := hp.stamp_header hwf hrow hshape hrange hm
  have hfits' := Fits.of_layout (hwf.stamp_header hm).1 hfits
  obtain ⟨hsq, hwq, hnone, hrq⟩ := hsm.add_tuple_at hwm hfits' hdec hq
  have hne : slot ≠ tid.slot_id := by
    rintro rfl
    rw [hrm, update_self] at hnone
    simp at hnone
  rw [hrm, update_of_ne hne] at hnone
  rw [hrm] at hrq
  exact ⟨hsq, hwq, hnone, hrq⟩

/-- Compaction drops the listed slots. -/
theorem Sound.compact (hp : Sound columns p) {dead_slots : List ℕ}
    (hq : SlottedPage.compact p dead_slots = .ok q) :
    Sound columns q ∧ HeapWf q ∧
      row_at columns q = fun s => if s ∈ dead_slots then none else row_at columns p s := by
  have hwf := hp.ok.heapWf (compact_geometry hq)
  obtain ⟨q', hq', hcomp⟩ := compact_spec hwf.toInv (compact_check hq)
  obtain rfl : q = q' := Except.ok.inj (hq.symm.trans hq')
  obtain ⟨hwf', -⟩ := (Agree.refl p).compact hwf hq
  refine ⟨⟨.inr hwf', fun s b hb => ?_⟩, hwf', ?_⟩
  · rw [hcomp.content_eq] at hb
    simp only at hb
    split_ifs at hb
    exact hp.decodes s b hb
  · funext s
    rw [row_at, hcomp.content_eq]
    simp only
    split_ifs
    · rfl
    · rfl

/-- The chain pointer is not part of any row. -/
theorem Sound.set_next_page (hp : Sound columns p) {next : Option PageId}
    (hq : SlottedPage.set_next_page p next = .ok q) :
    Sound columns q ∧ HeapWf q ∧ row_at columns q = row_at columns p := by
  obtain ⟨⟨hg, -⟩, -⟩ := set_next_page_eq_ok.mp hq
  have hwf := hp.ok.heapWf hg
  obtain ⟨-, hcontent, -⟩ := set_next_page_spec hwf.toInv hq
  obtain ⟨hwf', -⟩ := (Agree.refl p).set_next_page hwf hq
  exact ⟨hp.of_content (.inr hwf') hcontent, hwf', row_at_congr hcontent⟩

theorem Sound.stamp_pd_lsn (hp : Sound columns p) (hwf : HeapWf p) (lsn : Lsn) :
    Sound columns (stamp_pd_lsn p lsn) ∧
      row_at columns (Ams.stamp_pd_lsn p lsn) = row_at columns p := by
  have hcontent := content_set_pd_lsn p hwf.toInv lsn
  exact ⟨hp.of_content (.inr (hwf.stamp_pd_lsn lsn)) hcontent, row_at_congr hcontent⟩

end Page

section Ranges

variable {h : TupleHeader} {x : TxnId} {c : ℕ}

theorem TupleHeader.InRange.stamp_deleted (hr : h.InRange) (hx : x < 256 ^ 8) (hc : c < 256 ^ 4)
    (updated : Bool) : (h.stamp_deleted x c updated).InRange :=
  ⟨hr.t_xmin, hx, hr.t_agent_id, hr.page_id, hr.slot_id, hr.t_hoff, hc⟩

theorem TupleHeader.InRange.stamp_lock_only (hr : h.InRange) (hx : x < 256 ^ 8) (hc : c < 256 ^ 4)
    (shared : Bool) : (h.stamp_lock_only x c shared).InRange :=
  ⟨hr.t_xmin, hx, hr.t_agent_id, hr.page_id, hr.slot_id, hr.t_hoff, hc⟩

theorem TupleHeader.InRange.stamp_hot_update (hr : h.InRange) (hx : x < 256 ^ 8) (hc : c < 256 ^ 4)
    {tid : Tid} (hpage : tid.page_id < 256 ^ 8) (hslot : tid.slot_id < 256 ^ 2) :
    (h.stamp_hot_update x c tid).InRange :=
  ⟨hr.t_xmin, hx, hr.t_agent_id, hpage, hslot, hr.t_hoff, hc⟩

variable {tuple bytes : List UInt8} {columns : List ColumnType} {values : List (Option Datum)}
  (hdec : decode_tuple tuple columns = .ok (h, values)) (hx : x < 256 ^ 8)

include hdec hx

/-- The new tuple of an insert or an update, as it is stored. -/
theorem decode_stamp_xmin (hb : HeapAM.stamp_xmin tuple x = .ok bytes) :
    decode_tuple bytes columns = .ok (h.stamp_xmin x, values) := by
  have hread := (decode_tuple_eq_ok.mp hdec).1
  obtain ⟨-, hr, -⟩ := TupleHeader.write_to_read_from hread
  rw [HeapAM.stamp_xmin_bytes hread] at hb
  rw [← Except.ok.inj hb]
  exact decode_tuple_restamp hdec .stamp_xmin
    ⟨hx, hr.t_xmax, hr.t_agent_id, hr.page_id, hr.slot_id, hr.t_hoff, hr.t_cid⟩

theorem decode_stamp_hot_only (hb : HeapAM.stamp_hot_only tuple x = .ok bytes) :
    decode_tuple bytes columns = .ok (h.stamp_hot_only x, values) := by
  have hread := (decode_tuple_eq_ok.mp hdec).1
  obtain ⟨-, hr, -⟩ := TupleHeader.write_to_read_from hread
  rw [HeapAM.stamp_hot_only_bytes hread] at hb
  rw [← Except.ok.inj hb]
  exact decode_tuple_restamp hdec .stamp_hot_only
    ⟨hx, hr.t_xmax, hr.t_agent_id, hr.page_id, hr.slot_id, hr.t_hoff, hr.t_cid⟩

end Ranges

/-! ## The calls -/

section Calls

variable {columns : List ColumnType} {pages t : PageId → Page} {relation_pages : List PageId}
  {lsn : Lsn} {o : Outcome} {x : TxnId} {c : ℕ} {h : TupleHeader} {values : List (Option Datum)}

/-- A change to one page, seen as a change to the view. -/
theorem view_update {page_id : PageId} {slot : ℕ} {r : Option Row}
    (hother : ∀ i, i ≠ page_id → row_at columns (t i) = row_at columns (pages i))
    (hpage : row_at columns (t page_id) = update (row_at columns (pages page_id)) slot r) :
    view columns t = update (view columns pages) ⟨page_id, slot⟩ r := by
  funext tid
  unfold view
  by_cases hi : tid.page_id = page_id
  · by_cases hs : tid.slot_id = slot
    · obtain rfl : tid = ⟨page_id, slot⟩ := by rw [← hi, ← hs]
      rw [update_self, hpage, update_self]
    · have hne : tid ≠ ⟨page_id, slot⟩ := fun heq => hs (by rw [heq])
      rw [update_of_ne hne, hi, hpage, update_of_ne hs]
  · have hne : tid ≠ ⟨page_id, slot⟩ := fun heq => hi (by rw [heq])
    rw [update_of_ne hne, hother _ hi]

/-- The same for two slots of the page. -/
theorem view_update_two {page_id : PageId} {slot slot' : ℕ} {r r' : Option Row}
    (hother : ∀ i, i ≠ page_id → row_at columns (t i) = row_at columns (pages i))
    (hpage : row_at columns (t page_id) =
      update (update (row_at columns (pages page_id)) slot r) slot' r') :
    view columns t = update
      (update (view columns pages) ⟨page_id, slot⟩ r) ⟨page_id, slot'⟩ r' := by
  funext tid
  by_cases hi : tid.page_id = page_id
  · obtain ⟨i, s⟩ := tid
    obtain rfl : i = page_id := hi
    simp only [view, hpage, Function.update_apply, Tid.mk.injEq, true_and]
  · have hne : ∀ s, tid ≠ ⟨page_id, s⟩ := fun s heq => hi (by rw [heq])
    rw [update_of_ne (hne slot'), update_of_ne (hne slot), view, view,
      hother _ hi]

/-- A logged write to one page, which the call may have initialised first. -/
theorem one_page_write {s : PageId → Page} {page_id : PageId} {actions : List PageAction}
    {page : Page} (hs : ∀ i, i ≠ page_id → s i = pages i)
    (hrun : run_actions actions (s page_id) = (page, .ok ())) (hsound : Sound columns page)
    (hwf : HeapWf page) (record : HeapRecord) (out_tid : Option Tid) :
    ∃ t, log_then_mutate s lsn record [(page_id, actions)] out_tid = ⟨t, some record, .ok out_tid⟩ ∧
      (∀ i, i ≠ page_id → t i = pages i) ∧ Sound columns (t page_id) ∧
      row_at columns (t page_id) = row_at columns page := by
  obtain ⟨t, ht, hdone, hkept⟩ := @log_then_mutate_ok lsn [(page_id, actions)] s
    (List.nodup_singleton _) (fun w hw => by
      obtain rfl := List.mem_singleton.mp hw
      exact ⟨page, hrun⟩) record out_tid
  obtain ⟨page', hrun', htp⟩ := hdone _ (List.mem_singleton_self _)
  obtain rfl : page = page' := congrArg Prod.fst (hrun.symm.trans hrun')
  obtain ⟨hst, hrt⟩ := hsound.stamp_pd_lsn hwf lsn
  refine ⟨t, ht, fun i hi => ?_, by rw [htp]; exact hst, by rw [htp, hrt]⟩
  rw [hkept i (by simpa using hi), hs i hi]

variable (hs : ∀ i ∈ relation_pages, Sound columns (pages i))

include hs

/-- The pages of the relation after a change to one of them. -/
theorem sound_update {page_id : PageId}
    (hother : ∀ i, i ≠ page_id → t i = pages i) (hpage : Sound columns (t page_id)) :
    ∀ i ∈ relation_pages, Sound columns (t i) := by
  intro i hi
  by_cases hip : i = page_id
  · rw [hip]
    exact hpage
  · rw [hother i hip]
    exact hs i hi

/-- An insert fills a free slot of the relation. -/
theorem insert_view {tuple : List UInt8}
    (hdec : decode_tuple tuple columns = .ok (h, values)) (hx : x < 256 ^ 8)
    (ho : HeapAM.insert pages lsn relation_pages x tuple = some o) :
    (∃ e, o = ⟨pages, none, .error e⟩) ∨
    ∃ t record tid, o = ⟨t, some record, .ok (some tid)⟩ ∧ tid.page_id ∈ relation_pages ∧
      view columns pages tid = none ∧ (∀ i ∈ relation_pages, Sound columns (t i)) ∧
      view columns t = update (view columns pages) tid (some (h.stamp_xmin x, values)) := by
  rcases HeapAM.insert_cases (fun i hi => (hs i hi).ok) ho with herr |
    ⟨bytes, page_id, slot, hstamp, hmem, -, hfits, rfl⟩
  · exact .inl herr
  right
  have hok := (hs page_id hmem).ok
  have hadd := add_tuple_at_eq_ok.mpr ⟨hfits, rfl⟩
  obtain ⟨hsq, hwq, hnone, hrq⟩ := (hs page_id hmem).init.add_tuple_at hok.init hfits
    (decode_stamp_xmin hdec hx hstamp) hadd
  rw [row_at_congr hok.content_init] at hnone hrq
  obtain ⟨t, ht, hother, hst, hrt⟩ := @one_page_write columns pages lsn
    (update pages page_id (init_if_fresh (pages page_id))) page_id
    [fun page => SlottedPage.add_tuple_at page slot bytes] _
    (fun i hi => update_of_ne hi _ _)
    (by rw [update_self]; exact run_actions_one.mpr hadd) hsq hwq
    (.HeapInsert page_id slot bytes) (some ⟨page_id, slot⟩)
  refine ⟨t, _, _, ht, hmem, hnone, sound_update hs hother hst, ?_⟩
  apply view_update
  · exact fun i hi => by rw [hother i hi]
  · rw [hrt, hrq]

/-- A delete replaces the header of a row the gate let it have. -/
theorem delete_view {tid : Tid}
    (hmem : tid.page_id ∈ relation_pages) (hx : x < 256 ^ 8) (hc : c < 256 ^ 4)
    {gate : TupleHeader → Except HeapError Unit}
    (ho : HeapAM.delete pages lsn tid x c gate = some o) :
    (∃ e, o = ⟨pages, none, .error e⟩) ∨
    ∃ t record old old_values, o = ⟨t, some record, .ok none⟩ ∧
      view columns pages tid = some (old, old_values) ∧ gate old = .ok () ∧
      (∀ i ∈ relation_pages, Sound columns (t i)) ∧
      view columns t = update (view columns pages) tid
        (some (old.stamp_deleted x c false, old_values)) := by
  rcases HeapAM.delete_cases ho with herr | ⟨header, hread, hgate, rfl⟩
  · exact .inl herr
  right
  obtain ⟨hwf, old_values, hrow⟩ := (hs _ hmem).read_header hread
  obtain ⟨-, page, hpage⟩ := HeapAM.stampable (hs _ hmem).ok hread
    fun hd => hd.stamp_deleted x c false
  obtain ⟨hsq, hwq, hrq⟩ := (hs _ hmem).stamp_header hwf hrow (.stamp_deleted false)
    (fun hr => hr.stamp_deleted hx hc false) hpage
  obtain ⟨t, ht, hother, hst, hrt⟩ := @one_page_write columns pages lsn pages tid.page_id
    [fun page => HeapAM.stamp_deleted page tid x c false] _ (fun _ _ => rfl)
    (run_actions_one.mpr hpage) hsq hwq (.HeapDelete tid x) none
  refine ⟨t, _, header, old_values, ht, hrow, hgate, sound_update hs hother hst, ?_⟩
  exact view_update (fun i hi => by rw [hother i hi]) (by rw [hrt, hrq])

section Update

variable {old_tid : Tid} (hmem : old_tid.page_id ∈ relation_pages) {old : TupleHeader}
  (hread : HeapAM.read_header (pages old_tid.page_id) old_tid = .ok old)
  {old_values : List (Option Datum)} (hrow : view columns pages old_tid = some (old, old_values))
  (f : TupleHeader → TupleHeader) (hshape : old.SameShape (f old))
  (hrange : old.InRange → (f old).InRange) {slot : ℕ} {bytes : List UInt8}
  (hdec : decode_tuple bytes columns = .ok (h, values)) (record : HeapRecord) (out_tid : Option Tid)

include hmem hread hrow hshape hrange hdec

/-- An update in place, on either path. -/
theorem in_place_view (hfits : Fits (pages old_tid.page_id) slot bytes) :
    ∃ t, log_then_mutate pages lsn record
        [(old_tid.page_id, [fun page => HeapAM.stamp_header page old_tid f,
          fun page => SlottedPage.add_tuple_at page slot bytes])] out_tid
          = ⟨t, some record, .ok out_tid⟩ ∧
      view columns pages ⟨old_tid.page_id, slot⟩ = none ∧
      (∀ i ∈ relation_pages, Sound columns (t i)) ∧
      view columns t = update (update (view columns pages) old_tid
        (some (f old, old_values))) ⟨old_tid.page_id, slot⟩ (some (h, values)) := by
  obtain ⟨hwf, m, hm⟩ := HeapAM.stampable (hs _ hmem).ok hread f
  have hadd := add_tuple_at_eq_ok.mpr ⟨Fits.of_layout (hwf.stamp_header hm).1 hfits, rfl⟩
  obtain ⟨hsq, hwq, hnone, hrq⟩ := (hs _ hmem).stamp_then_add hwf hrow hshape hrange hfits hdec hm
    hadd
  obtain ⟨t, ht, hother, hst, hrt⟩ := @one_page_write columns pages lsn pages old_tid.page_id
    [fun page => HeapAM.stamp_header page old_tid f,
      fun page => SlottedPage.add_tuple_at page slot bytes] _ (fun _ _ => rfl)
    (run_actions_two.mpr ⟨m, hm, hadd⟩) hsq hwq record out_tid
  refine ⟨t, ht, hnone, sound_update hs hother hst, ?_⟩
  exact view_update_two (fun i hi => by rw [hother i hi]) (by rw [hrt, hrq])

/-- An update whose new version goes to another page. -/
theorem cross_page_view {page_id : PageId} (hmem' : page_id ∈ relation_pages)
    (hne : page_id ≠ old_tid.page_id) (hfits : Fits (init_if_fresh (pages page_id)) slot bytes) :
    ∃ t, log_then_mutate (update pages page_id (init_if_fresh (pages page_id))) lsn record
        [(old_tid.page_id, [fun page => HeapAM.stamp_header page old_tid f]),
         (page_id, [fun page => SlottedPage.add_tuple_at page slot bytes])] out_tid
          = ⟨t, some record, .ok out_tid⟩ ∧
      view columns pages ⟨page_id, slot⟩ = none ∧
      (∀ i ∈ relation_pages, Sound columns (t i)) ∧
      view columns t = update (update (view columns pages) old_tid
        (some (f old, old_values))) ⟨page_id, slot⟩ (some (h, values)) := by
  obtain ⟨hwf, m, hm⟩ := HeapAM.stampable (hs _ hmem).ok hread f
  have hok := (hs page_id hmem').ok
  have hadd := add_tuple_at_eq_ok.mpr ⟨hfits, rfl⟩
  obtain ⟨hsm, hwm, hrm⟩ := (hs _ hmem).stamp_header hwf hrow hshape hrange hm
  obtain ⟨hsq, hwq, hnone, hrq⟩ := (hs page_id hmem').init.add_tuple_at hok.init hfits hdec hadd
  rw [row_at_congr hok.content_init] at hnone hrq
  have hold : update pages page_id (init_if_fresh (pages page_id)) old_tid.page_id
      = pages old_tid.page_id := update_of_ne (Ne.symm hne) _ _
  obtain ⟨t, ht, hdone, hkept⟩ := @log_then_mutate_ok lsn
    [(old_tid.page_id, [fun page => HeapAM.stamp_header page old_tid f]),
     (page_id, [fun page => SlottedPage.add_tuple_at page slot bytes])]
    (update pages page_id (init_if_fresh (pages page_id))) (by simpa using Ne.symm hne)
    (fun w hw => by
      rcases List.mem_cons.mp hw with rfl | hw
      · simp only [hold]
        exact ⟨m, run_actions_one.mpr hm⟩
      · obtain rfl := List.mem_singleton.mp hw
        simp only [update_self]
        exact ⟨_, run_actions_one.mpr hadd⟩) record out_tid
  -- the two pages afterwards
  obtain ⟨page₁, hrun1, ht1⟩ := hdone _ (.head _)
  obtain ⟨page₂, hrun2, ht2⟩ := hdone _ (.tail _ (List.mem_singleton_self _))
  simp only [hold] at hrun1 ht1
  simp only [update_self] at hrun2 ht2
  obtain rfl : m = page₁ := Except.ok.inj (hm.symm.trans (run_actions_one.mp hrun1))
  obtain rfl := Except.ok.inj (hadd.symm.trans (run_actions_one.mp hrun2))
  obtain ⟨hst1, hrt1⟩ := hsm.stamp_pd_lsn hwm lsn
  obtain ⟨hst2, hrt2⟩ := hsq.stamp_pd_lsn hwq lsn
  have hother : ∀ i, i ≠ old_tid.page_id → i ≠ page_id → t i = pages i := by
    intro i h1 h2
    rw [hkept i (by simp [h1, h2]), update_of_ne h2]
  refine ⟨t, ht, hnone, fun i hi => ?_, ?_⟩
  · by_cases h1 : i = old_tid.page_id
    · rw [h1, ht1]
      exact hst1
    by_cases h2 : i = page_id
    · rw [h2, ht2]
      exact hst2
    · rw [hother i h1 h2]
      exact hs i hi
  · -- one page at a time
    have hmid : view columns (update pages old_tid.page_id (t old_tid.page_id)) =
        update (view columns pages) old_tid (some (f old, old_values)) := by
      apply view_update
      · intro i hi
        rw [update_of_ne hi]
      · rw [update_self, ht1, hrt1, hrm]
    rw [← hmid]
    apply view_update
    · intro i hi
      by_cases h1 : i = old_tid.page_id
      · rw [h1, update_self]
      · rw [update_of_ne h1, hother i h1 hi]
    · rw [update_of_ne hne, ht2, hrt2, hrq]

end Update

/-- An update replaces the header of a row the gate let it have and fills a free
slot. Only the HOT path links the two and marks the new row. -/
theorem update_view {old_tid : Tid}
    (hmem : old_tid.page_id ∈ relation_pages) (hpage_id : old_tid.page_id < 256 ^ 8)
    {new_tuple : List UInt8} (hdec : decode_tuple new_tuple columns = .ok (h, values))
    (hx : x < 256 ^ 8) (hc : c < 256 ^ 4) {hot_eligible : Bool}
    {gate : TupleHeader → Except HeapError Unit}
    (ho : HeapAM.update pages lsn relation_pages old_tid x c new_tuple hot_eligible gate = some o) :
    (∃ e, o = ⟨pages, none, .error e⟩) ∨
    ∃ t record new_tid old old_values, o = ⟨t, some record, .ok (some new_tid)⟩ ∧
      view columns pages old_tid = some (old, old_values) ∧ gate old = .ok () ∧
      new_tid.page_id ∈ relation_pages ∧ view columns pages new_tid = none ∧
      (∀ i ∈ relation_pages, Sound columns (t i)) ∧
      ((record.is_hot = true ∧ new_tid.page_id = old_tid.page_id ∧
        view columns t = update (update (view columns pages) old_tid
          (some (old.stamp_hot_update x c new_tid, old_values))) new_tid
          (some (h.stamp_hot_only x, values))) ∨
      (record.is_hot = false ∧
        view columns t = update (update (view columns pages) old_tid
          (some (old.stamp_deleted x c true, old_values))) new_tid
          (some (h.stamp_xmin x, values)))) := by
  rcases HeapAM.update_cases (fun i hi => (hs i hi).ok) (hs _ hmem).ok ho with herr |
    ⟨old, bytes, hread, hgate, hstamp, hpath⟩
  · exact .inl herr
  right
  obtain ⟨-, old_values, hrow⟩ := (hs _ hmem).read_header hread
  have hdec' := decode_stamp_xmin hdec hx hstamp
  rcases hpath with ⟨hot_tuple, hhot, slot, -, hfits, rfl⟩ | ⟨slot, -, hfits, rfl⟩ |
    ⟨page_id, hmem', hne, slot, -, hfits, rfl⟩
  · have hwf := ((hs _ hmem).read_header hread).1
    have hslot : slot < 256 ^ 2 := by
      have h1 := hfits.slot_le
      have h2 := hwf.slot_count_lt
      omega
    obtain ⟨t, ht, hnone, hst, hview⟩ := in_place_view hs hmem hread hrow
      (fun hd => hd.stamp_hot_update x c ⟨old_tid.page_id, slot⟩)
      (.stamp_hot_update ⟨old_tid.page_id, slot⟩)
      (fun hr => hr.stamp_hot_update hx hc hpage_id hslot) (decode_stamp_hot_only hdec' hx hhot)
      (.HeapHotUpdate old_tid.page_id old_tid.slot_id slot hot_tuple x)
      (some ⟨old_tid.page_id, slot⟩) hfits
    exact ⟨t, _, _, old, old_values, ht, hrow, hgate, hmem, hnone, hst, .inl ⟨rfl, rfl, hview⟩⟩
  · obtain ⟨t, ht, hnone, hst, hview⟩ := in_place_view hs hmem hread hrow
      (fun hd => hd.stamp_deleted x c true) (.stamp_deleted true)
      (fun hr => hr.stamp_deleted hx hc true) hdec'
      (.HeapUpdate old_tid ⟨old_tid.page_id, slot⟩ x bytes) (some ⟨old_tid.page_id, slot⟩) hfits
    exact ⟨t, _, _, old, old_values, ht, hrow, hgate, hmem, hnone, hst, .inr ⟨rfl, hview⟩⟩
  · obtain ⟨t, ht, hnone, hst, hview⟩ := cross_page_view hs hmem hread hrow
      (fun hd => hd.stamp_deleted x c true) (.stamp_deleted true)
      (fun hr => hr.stamp_deleted hx hc true) hdec'
      (.HeapUpdate old_tid ⟨page_id, slot⟩ x bytes) (some ⟨page_id, slot⟩) hmem' hne hfits
    exact ⟨t, _, _, old, old_values, ht, hrow, hgate, hmem', hnone, hst, .inr ⟨rfl, hview⟩⟩

/-- A stamp that is not logged: the row locks. -/
theorem stamp_view {tid : Tid}
    (hmem : tid.page_id ∈ relation_pages) {old : TupleHeader} {old_values : List (Option Datum)}
    (hrow : view columns pages tid = some (old, old_values)) {f : TupleHeader → TupleHeader}
    (hshape : old.SameShape (f old)) (hrange : old.InRange → (f old).InRange) {page : Page}
    (hpage : HeapAM.stamp_header (pages tid.page_id) tid f = .ok page) :
    (∀ i ∈ relation_pages, Sound columns (update pages tid.page_id page i)) ∧
      view columns (update pages tid.page_id page) =
        update (view columns pages) tid (some (f old, old_values)) := by
  obtain ⟨hg, -⟩ := HeapAM.stamp_header_eq_ok.mp hpage
  have hwf := (hs _ hmem).ok.heapWf hg
  obtain ⟨hsq, -, hrq⟩ := (hs _ hmem).stamp_header hwf hrow hshape hrange hpage
  have hother : ∀ i, i ≠ tid.page_id → update pages tid.page_id page i = pages i :=
    fun i hi => update_of_ne hi _ _
  refine ⟨sound_update hs hother (by rw [update_self]; exact hsq), ?_⟩
  apply view_update
  · exact fun i hi => by rw [hother i hi]
  · rw [update_self, hrq]

/-- The rows left when the listed slots of a page are gone. -/
def without (rows : Tid → Option Row) (page_id : PageId) (slots : List ℕ) (tid : Tid) : Option Row :=
  if tid.page_id = page_id ∧ tid.slot_id ∈ slots then none else rows tid

/-- The unlink half of a cleanup, whether it succeeds or not, leaves all rows. -/
theorem unlink_view {prev next : PageId}
    (hprev : prev = PageId.INVALID ∨ prev ∈ relation_pages) :
    let t := (mutate lsn (if prev ≠ PageId.INVALID then
      [(prev, [fun page => SlottedPage.set_next_page page (next_of next)])] else []) pages).1
    (∀ i ∈ relation_pages, Sound columns (t i)) ∧ view columns t = view columns pages := by
  intro t
  by_cases hinv : prev = PageId.INVALID
  · have ht : t = pages := by simp [t, hinv, mutate]
    rw [ht]
    exact ⟨hs, rfl⟩
  have hmem := hprev.resolve_left hinv
  cases hnext : SlottedPage.set_next_page (pages prev) (next_of next) with
  | error e =>
    have ht : t = pages := by simp [t, hinv, mutate, run_actions, hnext]
    rw [ht]
    exact ⟨hs, rfl⟩
  | ok q =>
    have ht : t = update pages prev (stamp_pd_lsn q lsn) := by
      simp [t, hinv, mutate, run_actions, hnext]
    obtain ⟨hsq, hwq, hrq⟩ := (hs _ hmem).set_next_page hnext
    obtain ⟨hst, hrt⟩ := hsq.stamp_pd_lsn hwq lsn
    have hother : ∀ i, i ≠ prev → t i = pages i := by
      intro i hi
      rw [ht, update_of_ne hi]
    refine ⟨sound_update hs hother (by rw [ht, update_self]; exact hst), ?_⟩
    funext tid
    unfold view
    by_cases hi : tid.page_id = prev
    · rw [hi, ht, update_self, hrt, hrq]
    · rw [hother _ hi]

/-- A compaction drops the listed slots of its page, or leaves every row; it does the
first if it returns. -/
theorem compact_page_view {page_id : PageId}
    (hmem : page_id ∈ relation_pages) {dead_slots : List ℕ} {prev next : PageId}
    (hprev : prev = PageId.INVALID ∨ prev ∈ relation_pages)
    (ho : HeapAM.compact_page pages lsn page_id dead_slots prev next = some o) :
    (∀ i ∈ relation_pages, Sound columns (o.pages i)) ∧
      (view columns o.pages = without (view columns pages) page_id dead_slots ∨
        view columns o.pages = view columns pages ∧ ∃ e, o.result = .error e) := by
  unfold HeapAM.compact_page at ho
  split_ifs at ho with hself
  split at ho
  · next e _ =>
    cases ho
    exact ⟨hs, .inr ⟨rfl, e, rfl⟩⟩
  next record hrec =>
  cases ho
  rw [HeapAM.cleanup_writes]
  cases hc : SlottedPage.compact (pages page_id) dead_slots with
  | error e =>
    have hm : mutate lsn ((page_id, [fun page => SlottedPage.compact page dead_slots]) ::
        if prev ≠ PageId.INVALID then
          [(prev, [fun page => SlottedPage.set_next_page page (next_of next)])] else []) pages
          = (pages, .error e) := by
      simp [mutate, run_actions, hc]
    rw [log_then_mutate, hm]
    exact ⟨hs, .inr ⟨rfl, e, rfl⟩⟩
  | ok q =>
    obtain ⟨hsq, hwq, hrq⟩ := (hs _ hmem).compact hc
    obtain ⟨hst, hrt⟩ := hsq.stamp_pd_lsn hwq lsn
    have hother : ∀ i, i ≠ page_id →
        update pages page_id (stamp_pd_lsn q lsn) i = pages i :=
      fun i hi => update_of_ne hi _ _
    have hs' := sound_update hs hother (by rw [update_self]; exact hst)
    have hview : view columns (update pages page_id (stamp_pd_lsn q lsn))
        = without (view columns pages) page_id dead_slots := by
      funext tid
      unfold view without
      by_cases hi : tid.page_id = page_id
      · simp only [hi, update_self, hrt, hrq, true_and]
      · rw [hother _ hi, if_neg (fun h => hi h.1)]
    obtain ⟨hsu, hvu⟩ := @unlink_view columns _ relation_pages lsn hs' prev next hprev
    have hm : mutate lsn ((page_id, [fun page => SlottedPage.compact page dead_slots]) ::
        if prev ≠ PageId.INVALID then
          [(prev, [fun page => SlottedPage.set_next_page page (next_of next)])] else []) pages
          = mutate lsn (if prev ≠ PageId.INVALID then
            [(prev, [fun page => SlottedPage.set_next_page page (next_of next)])] else [])
            (update pages page_id (stamp_pd_lsn q lsn)) := by
      simp [mutate, run_actions, hc]
    rw [hview] at hvu
    rw [log_then_mutate, hm]
    split
    · next t ht =>
      rw [ht] at hsu hvu
      exact ⟨hsu, .inl hvu⟩
    · next t e ht =>
      rw [ht] at hsu hvu
      exact ⟨hsu, .inl hvu⟩

end Calls

end Ams
