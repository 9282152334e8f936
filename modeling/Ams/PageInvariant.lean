/-
The representation invariant of slotted pages, and that a page is a map from
slots to byte strings.

`content` reads a page as such a map. The statements below say, for each
operation of `SlottedPage`, that it succeeds exactly when its checks pass, keeps
the invariant, and changes the map at the slots it names and nowhere else:
`place_tuple_spec`, `delete_tuple_spec`, `compact_spec`, `set_next_page_spec`.
Every one of them is a frame argument in one byte array. Header, line-pointer
array, free space, tuple region and special space are consecutive, and an
operation writes into parts of them that the geometry keeps apart.

Compaction is the only operation with loops. Its restaging loop is specified by
`Restaged`, proved by induction on the staged list from the front: one turn puts
one tuple just below the cursor and the rest of the loop stays below that. That
the cursor never runs into the line-pointer array is a counting argument, the
total length of disjoint regions.
-/
import Ams.SlottedPage

set_option autoImplicit false

namespace Ams

open Ams.Lib

namespace SlottedPage

/-! ## Frames -/

section Frames

variable {p q : Page}

/-- The header is a function of the first 26 bytes. -/
theorem header_congr (h : ∀ i, i < 26 → q.byte i = p.byte i) : header q = header p := by
  have hfield : ∀ off w, off + w ≤ 26 → q.readLe off w = p.readLe off w := fun off w hw =>
    Buf.readLe_congr fun i _ hi => h i (by omega)
  simp only [header, PageHeader.read_from, page_pd_lsn, hfield 0 8 (by omega),
    hfield 8 4 (by omega), hfield 12 2 (by omega), hfield 14 2 (by omega), hfield 16 2 (by omega),
    hfield 18 2 (by omega), hfield 20 2 (by omega), hfield 22 4 (by omega)]

variable {s : ℕ}

theorem raw_line_pointer_congr (h : ∀ i, 32 + s * 4 ≤ i → i < 36 + s * 4 → q.byte i = p.byte i) :
    raw_line_pointer q s = raw_line_pointer p s := by
  unfold raw_line_pointer
  rw [Buf.slice_congr fun i h1 h2 => h i h1 (by omega)]

theorem header_write {off : ℕ} {bs : List UInt8} (h : 32 ≤ off) :
    header (p.write off bs) = header p :=
  header_congr fun _ hi => Buf.byte_write_of_disjoint (by omega)

theorem raw_line_pointer_write {off : ℕ} {bs : List UInt8}
    (h : 36 + s * 4 ≤ off ∨ off + bs.length ≤ 32 + s * 4) :
    raw_line_pointer (p.write off bs) s = raw_line_pointer p s :=
  raw_line_pointer_congr fun _ _ _ => Buf.byte_write_of_disjoint (by omega)

@[simp] theorem header_set_line_pointer (s : ℕ) (lp : LinePointer) :
    header (set_line_pointer p s lp) = header p := header_write (by omega)

variable {i : ℕ} {lp : LinePointer}

theorem byte_set_line_pointer (h : i < 32 + s * 4 ∨ 36 + s * 4 ≤ i) :
    (set_line_pointer p s lp).byte i = p.byte i :=
  Buf.byte_write_of_disjoint (by rw [LinePointer.to_le_bytes, length_leBytes]; omega)

theorem raw_line_pointer_set_self (hs : 36 + s * 4 ≤ 8192) (hlp : lp.bits < 256 ^ 4) :
    raw_line_pointer (set_line_pointer p s lp) s = lp := by
  have h := @Buf.slice_write_self _ p (32 + s * 4) lp.to_le_bytes (by
    rw [LinePointer.to_le_bytes, length_leBytes]; omega)
  rw [LinePointer.to_le_bytes, length_leBytes] at h
  unfold raw_line_pointer set_line_pointer LinePointer.from_le_bytes LinePointer.to_le_bytes
  rw [h, ofLe_leBytes_of_lt hlp]

theorem raw_line_pointer_set_of_ne {t : ℕ} (h : s ≠ t) :
    raw_line_pointer (set_line_pointer p s lp) t = raw_line_pointer p t :=
  raw_line_pointer_congr fun _ _ _ => byte_set_line_pointer (by omega)

theorem header_set_pd_upper {u : ℕ} (hu : u < 65536) :
    header (set_pd_upper p u) = { header p with pd_upper := u } := by
  have hother : ∀ off w, off + w ≤ 16 ∨ 18 ≤ off →
      (set_pd_upper p u).readLe off w = p.readLe off w :=
    fun off w h => Buf.readLe_writeLe_of_disjoint (by omega)
  have hself : (set_pd_upper p u).readLe 16 2 = u :=
    Buf.readLe_writeLe_self (by omega) (by omega)
  simp only [header, PageHeader.read_from, page_pd_lsn, hself, hother 0 8 (by omega),
    hother 8 4 (by omega), hother 12 2 (by omega), hother 14 2 (by omega), hother 18 2 (by omega),
    hother 20 2 (by omega), hother 22 4 (by omega)]

theorem header_set_pd_lower {l : ℕ} (hl : l < 65536) :
    header (set_pd_lower p l) = { header p with pd_lower := l } := by
  have hother : ∀ off w, off + w ≤ 14 ∨ 16 ≤ off →
      (set_pd_lower p l).readLe off w = p.readLe off w :=
    fun off w h => Buf.readLe_writeLe_of_disjoint (by omega)
  have hself : (set_pd_lower p l).readLe 14 2 = l :=
    Buf.readLe_writeLe_self (by omega) (by omega)
  simp only [header, PageHeader.read_from, page_pd_lsn, hself, hother 0 8 (by omega),
    hother 8 4 (by omega), hother 12 2 (by omega), hother 16 2 (by omega), hother 18 2 (by omega),
    hother 20 2 (by omega), hother 22 4 (by omega)]

theorem byte_set_pd_upper {u : ℕ} (h : 18 ≤ i) : (set_pd_upper p u).byte i = p.byte i :=
  Buf.byte_writeLe_of_disjoint (by omega)

theorem byte_set_pd_lower {l : ℕ} (h : 16 ≤ i) : (set_pd_lower p l).byte i = p.byte i :=
  Buf.byte_writeLe_of_disjoint (by omega)

end Frames

/-! ## The invariant -/

/-- The region and the bytes of a live slot. -/
def content (page : Page) (slot : ℕ) : Option (List UInt8) :=
  if slot < slot_count page ∧ (raw_line_pointer page slot).flags = .Normal then
    some (page.slice (raw_line_pointer page slot).off (raw_line_pointer page slot).len)
  else none

/-- **The representation invariant.** Only `Unused` and `Normal` line pointers
occur; the regions of the latter lie in the tuple area and do not overlap. -/
structure Inv (page : Page) : Prop extends Geometry page where
  kinds : ∀ s, s < slot_count page → (raw_line_pointer page s).flags = .Unused ∨
    (raw_line_pointer page s).flags = .Normal
  within : ∀ s, s < slot_count page → (raw_line_pointer page s).flags = .Normal →
    (header page).pd_upper ≤ (raw_line_pointer page s).off ∧
      (raw_line_pointer page s).off + (raw_line_pointer page s).len ≤ (header page).pd_special
  apart : ∀ s t, s < slot_count page → t < slot_count page → s ≠ t →
    (raw_line_pointer page s).flags = .Normal → (raw_line_pointer page t).flags = .Normal →
    (raw_line_pointer page s).off + (raw_line_pointer page s).len ≤ (raw_line_pointer page t).off ∨
      (raw_line_pointer page t).off + (raw_line_pointer page t).len ≤ (raw_line_pointer page s).off

variable {p q : Page} {c s slot : ℕ}

theorem Inv.not_unused_iff (hp : Inv p) (hs : s < slot_count p) :
    (raw_line_pointer p s).flags ≠ .Unused ↔ (raw_line_pointer p s).flags = .Normal := by
  rcases hp.kinds s hs with h | h
  · simp [h]
  · simp [h]

/-- `tuple` reads the map. -/
theorem Inv.tuple (hp : Inv p) (slot : ℕ) :
    SlottedPage.tuple p slot = .ok (content p slot) := by
  unfold SlottedPage.tuple tuple_loop content
  rw [hp.toGeometry.line_pointer]
  by_cases hs : slot < slot_count p
  · rw [if_pos hs]
    simp only
    rcases hp.kinds slot hs with hk | hk
    · simp [hk]
    · have hw := hp.within slot hs hk
      simp only [hk, hs, hp.toGeometry.checked, ne_eq, reduceCtorEq, not_true_eq_false, if_false,
        true_and, if_true]
      rw [if_neg (by omega)]
  · rw [if_neg hs, if_neg (fun h => hs h.1)]

theorem content_eq_none (h : slot_count p ≤ s) : content p s = none :=
  if_neg fun hs => absurd hs.1 (not_lt.mpr h)

/-- A slot keeps its content when its line pointer and its region do. -/
theorem content_congr (hc : s < slot_count q ↔ s < slot_count p)
    (hlp : raw_line_pointer q s = raw_line_pointer p s)
    (hbytes : ∀ i, (raw_line_pointer p s).off ≤ i →
      i < (raw_line_pointer p s).off + (raw_line_pointer p s).len →
      s < slot_count p → (raw_line_pointer p s).flags = .Normal → q.byte i = p.byte i) :
    content q s = content p s := by
  unfold content
  rw [hlp]
  by_cases h : s < slot_count p ∧ (raw_line_pointer p s).flags = .Normal
  · rw [if_pos ⟨hc.mpr h.1, h.2⟩, if_pos h, Buf.slice_congr fun i h1 h2 => hbytes i h1 h2 h.1 h.2]
  · rw [if_neg h, if_neg fun h' => h ⟨hc.mp h'.1, h'.2⟩]

/-! ## Initialisation -/

variable {special_size : ℕ}

theorem header_init_with_special (p : Page) (h : special_size ≤ 8160) :
    header (init_with_special p special_size) =
      PageHeader.new (8192 - special_size) := by
  have hfill : ∀ (b : Page) off w, off + w ≤ 26 → (b.fill 26 32 0).readLe off w = b.readLe off w :=
    fun b off w hw => Buf.readLe_congr fun i _ hi => by
      rw [Buf.byte_fill (by omega), if_neg (by omega)]
  simp only [init_with_special, PageHeader.init_page, PageHeader.write_to, header,
    PageHeader.read_from, PageHeader.new, page_pd_lsn, set_page_pd_lsn]
  simp (disch := omega) only [Buf.readLe_writeLe_of_disjoint, hfill, Buf.readLe_writeLe_self]

theorem init_with_special_inv (p : Page) (h : special_size ≤ 8160) :
    Inv (init_with_special p special_size) ∧ slot_count (init_with_special p special_size) = 0 := by
  have hh := header_init_with_special p h
  have hcount : slot_count (init_with_special p special_size) = 0 := by
    rw [slot_count, hh]
    simp [PageHeader.slot_count, PageHeader.new]
  refine ⟨⟨⟨?_, ?_, ?_, ?_, ?_⟩, ?_, ?_, ?_⟩, hcount⟩
  · rw [hh]; exact le_refl _
  · rw [hh]; rfl
  · rw [hh]; change 32 ≤ 8192 - special_size; omega
  · rw [hh]; exact le_refl _
  · rw [hh]; change 8192 - special_size ≤ 8192; omega
  · intro s hs; rw [hcount] at hs; omega
  · intro s hs; rw [hcount] at hs; omega
  · intro s t hs; rw [hcount] at hs; omega

/-! ## Insertion -/

variable {bytes : List UInt8}

/-- What the writes of `add_tuple_at` do to header, line pointers and bytes. -/
theorem place_tuple_frame (hf : Fits p slot bytes) :
    let q := place_tuple p (header p) slot (decide (slot = slot_count p)) bytes
    let u := (header p).pd_upper - bytes.length
    header q = { header p with
      pd_lower := (header p).pd_lower + (if slot = slot_count p then 4 else 0), pd_upper := u } ∧
    raw_line_pointer q slot = LinePointer.new u .Normal bytes.length ∧
    (∀ t, t ≠ slot → 36 + t * 4 ≤ u → raw_line_pointer q t = raw_line_pointer p t) ∧
    q.slice u bytes.length = bytes ∧
    (∀ i, (header p).pd_upper ≤ i → q.byte i = p.byte i) := by
  have hg := hf.geometry
  have hb := hg.bounds
  have hroom := hf.room
  have hslot := hf.slot_le
  have hu : (header p).pd_upper - bytes.length < 2 ^ 15 := by omega
  have hlen : bytes.length < 2 ^ 15 := by
    split_ifs at hroom <;> omega
  have hlp : 36 + slot * 4 ≤ (header p).pd_upper - bytes.length := by
    by_cases hs : slot = slot_count p
    · rw [if_pos hs] at hroom; subst hs; omega
    · rw [if_neg hs] at hroom
      have : slot < slot_count p := lt_of_le_of_ne hslot hs
      omega
  simp only
  generalize hueq : (header p).pd_upper - bytes.length = u at *
  -- the page after the tuple bytes and the line pointer, before the header
  have hhdr : header (set_line_pointer (p.write u bytes) slot
      (LinePointer.new u .Normal bytes.length)) = header p := by
    rw [header_set_line_pointer, header_write (by omega)]
  have hself : raw_line_pointer (set_line_pointer (p.write u bytes) slot
      (LinePointer.new u .Normal bytes.length)) slot = LinePointer.new u .Normal bytes.length :=
    raw_line_pointer_set_self (by omega) (LinePointer.new_bits_lt _ hu hlen)
  have hother : ∀ t, t ≠ slot → 36 + t * 4 ≤ u → raw_line_pointer (set_line_pointer
      (p.write u bytes) slot (LinePointer.new u .Normal bytes.length)) t = raw_line_pointer p t := by
    intro t ht htu
    rw [raw_line_pointer_set_of_ne (Ne.symm ht), raw_line_pointer_write (.inl htu)]
  have hbytes : ∀ i, u ≤ i → (set_line_pointer (p.write u bytes) slot
      (LinePointer.new u .Normal bytes.length)).byte i = (p.write u bytes).byte i :=
    fun i hi => byte_set_line_pointer (by omega)
  unfold place_tuple
  simp only [hueq]
  generalize set_line_pointer (p.write u bytes) slot (LinePointer.new u .Normal bytes.length)
    = b at *
  have htail : ∀ i, 18 ≤ i → (set_pd_upper (if decide (slot = slot_count p) = true then
      set_pd_lower b ((header p).pd_lower + 4) else b) u).byte i = b.byte i := by
    intro i hi
    rw [byte_set_pd_upper hi]
    split_ifs
    · exact byte_set_pd_lower (by omega)
    · rfl
  refine ⟨?_, ?_, ?_, ?_, ?_⟩
  · rw [header_set_pd_upper (by omega)]
    by_cases hs : slot = slot_count p
    · have hlow : (header p).pd_lower + 4 < 65536 := by omega
      simp only [hs, decide_true, if_true]
      rw [header_set_pd_lower hlow, hhdr]
    · simp only [hs, decide_false, Bool.false_eq_true, if_false, Nat.add_zero]
      rw [hhdr]
  · rw [raw_line_pointer_congr fun i h _ => htail i (by omega), hself]
  · intro t ht htu
    rw [raw_line_pointer_congr fun i h _ => htail i (by omega), hother t ht htu]
  · rw [Buf.slice_congr fun i h _ => (htail i (by omega)).trans (hbytes i h),
      Buf.slice_write_self (by omega)]
  · intro i hi
    rw [htail i (by omega), hbytes i (by omega), Buf.byte_write_of_disjoint (by omega)]

/-- **Insertion.** The new page has the tuple at its slot and everything else
where it was. -/
theorem place_tuple_spec (hp : Inv p) (hf : Fits p slot bytes) :
    let q := place_tuple p (header p) slot (decide (slot = slot_count p)) bytes
    Inv q ∧ content q = Function.update (content p) slot (some bytes) ∧
      slot_count q = slot_count p + (if slot = slot_count p then 1 else 0) ∧
      (header q).pd_special = (header p).pd_special ∧
      (header q).pd_upper = (header p).pd_upper - bytes.length := by
  obtain ⟨hhdr, hself, hother, hslice, htail⟩ := place_tuple_frame hf
  generalize place_tuple p (header p) slot (decide (slot = slot_count p)) bytes = q at *
  have h0 := hp.lower_ge
  have h1 := hp.lower_eq
  have h2 := hp.lower_le_upper
  have h3 := hp.upper_le_special
  have h4 := hp.special_le
  have hroom := hf.room
  have hslot := hf.slot_le
  have hupper : (header q).pd_upper = (header p).pd_upper - bytes.length := by rw [hhdr]
  have hspecial : (header q).pd_special = (header p).pd_special := by rw [hhdr]
  have hlower : (header q).pd_lower =
      (header p).pd_lower + (if slot = slot_count p then 4 else 0) := by rw [hhdr]
  have hcount : slot_count q = slot_count p + (if slot = slot_count p then 1 else 0) := by
    have hdef : slot_count q = ((header q).pd_lower - 32) / 4 := rfl
    rw [hdef, hlower]
    split_ifs <;> omega
  have hu : (header p).pd_upper - bytes.length < 2 ^ 15 := by omega
  have hlen : bytes.length < 2 ^ 15 := by
    split_ifs at hroom <;> omega
  have hoff : (raw_line_pointer q slot).off = (header p).pd_upper - bytes.length := by
    rw [hself, LinePointer.new_off _ hu hlen]
  have hln : (raw_line_pointer q slot).len = bytes.length := by
    rw [hself, LinePointer.new_len _ hu hlen]
  have hflag : (raw_line_pointer q slot).flags = .Normal := by
    rw [hself, LinePointer.new_flags _ hu hlen]
  -- an old slot other than the new one: same pointer, and it was there before
  have hold : ∀ t, t < slot_count q → t ≠ slot →
      t < slot_count p ∧ raw_line_pointer q t = raw_line_pointer p t := by
    intro t ht hne
    have htp : t < slot_count p := by
      by_cases hs : slot = slot_count p
      · rw [hcount, if_pos hs] at ht; omega
      · rw [hcount, if_neg hs] at ht; omega
    exact ⟨htp, hother t hne (by split_ifs at hroom <;> omega)⟩
  have hgeom : Geometry q := by
    refine ⟨?_, ?_, ?_, ?_, ?_⟩
    · rw [hlower]; omega
    · rw [hlower]; split_ifs <;> omega
    · rw [hlower, hupper]; split_ifs at hroom ⊢ <;> omega
    · rw [hupper, hspecial]; omega
    · rw [hspecial]; exact h4
  refine ⟨⟨hgeom, ?_, ?_, ?_⟩, ?_, hcount, hspecial, hupper⟩
  · intro t ht
    by_cases hts : t = slot
    · subst hts; exact .inr hflag
    · obtain ⟨htp, heq⟩ := hold t ht hts
      rw [heq]; exact hp.kinds t htp
  · intro t ht hn
    rw [hupper, hspecial]
    by_cases hts : t = slot
    · subst hts
      rw [hoff, hln]
      split_ifs at hroom <;> omega
    · obtain ⟨htp, heq⟩ := hold t ht hts
      rw [heq] at hn ⊢
      have := hp.within t htp hn
      omega
  · intro s t hs ht hst hns hnt
    -- the new region ends where the old tuple area began
    have hnew : ∀ t, t < slot_count q → t ≠ slot → (raw_line_pointer q t).flags = .Normal →
        (raw_line_pointer q slot).off + (raw_line_pointer q slot).len
          ≤ (raw_line_pointer q t).off := by
      intro t ht hne hn
      obtain ⟨htp, heq⟩ := hold t ht hne
      rw [heq] at hn ⊢
      rw [hoff, hln]
      have := hp.within t htp hn
      split_ifs at hroom <;> omega
    by_cases hs' : s = slot
    · subst hs'; exact .inl (hnew t ht (Ne.symm hst) hnt)
    · by_cases ht' : t = slot
      · subst ht'; exact .inr (hnew s hs hs' hns)
      · obtain ⟨hsp, heqs⟩ := hold s hs hs'
        obtain ⟨htp, heqt⟩ := hold t ht ht'
        rw [heqs] at hns ⊢
        rw [heqt] at hnt ⊢
        exact hp.apart s t hsp htp hst hns hnt
  · funext t
    by_cases hts : t = slot
    · subst hts
      have htq : t < slot_count q := by rw [hcount]; split_ifs <;> omega
      rw [Function.update_self, content, if_pos ⟨htq, hflag⟩, hoff, hln, hslice]
    · rw [Function.update_of_ne hts]
      by_cases htp : t < slot_count p
      · have htq : t < slot_count q := by rw [hcount]; omega
        refine content_congr ⟨fun _ => htp, fun _ => htq⟩ (hold t htq hts).2
          fun i hi _ ht hn => htail i ?_
        have := hp.within t ht hn
        omega
      · have htq : slot_count q ≤ t := by rw [hcount]; split_ifs <;> omega
        rw [content_eq_none htq, content_eq_none (not_lt.mp htp)]

/-! ## Deletion and the chain pointer -/

/-- Marking one slot `Unused`, which is what deletion and the kill loop do. -/
theorem mark_unused_spec (hp : Inv p) (hs : slot < slot_count p) :
    let q := set_line_pointer p slot ((raw_line_pointer p slot).with_flags .Unused)
    Inv q ∧ content q = Function.update (content p) slot none ∧ header q = header p := by
  have hb := hp.bounds
  have hbits := raw_line_pointer_bits_lt p slot
  have hflag := LinePointer.with_flags_flags hbits .Unused
  have hself := @raw_line_pointer_set_self p slot
    ((raw_line_pointer p slot).with_flags .Unused) (by omega)
    (LinePointer.with_flags_bits_lt hbits _)
  have hother : ∀ t, t ≠ slot → raw_line_pointer
      (set_line_pointer p slot ((raw_line_pointer p slot).with_flags .Unused)) t
        = raw_line_pointer p t := fun t ht => raw_line_pointer_set_of_ne (Ne.symm ht)
  have hbyte : ∀ i, (header p).pd_upper ≤ i → (set_line_pointer p slot
      ((raw_line_pointer p slot).with_flags .Unused)).byte i = p.byte i :=
    fun i hi => byte_set_line_pointer (by omega)
  have hhdr := header_set_line_pointer (p := p) slot ((raw_line_pointer p slot).with_flags .Unused)
  simp only
  generalize set_line_pointer p slot ((raw_line_pointer p slot).with_flags .Unused) = q at *
  have hcount : slot_count q = slot_count p := slot_count_of_header_eq hhdr
  -- a live slot of the new page is another slot, unchanged
  have hlive : ∀ t, (raw_line_pointer q t).flags = .Normal →
      t ≠ slot ∧ raw_line_pointer q t = raw_line_pointer p t := by
    intro t ht
    have hne : t ≠ slot := by
      rintro rfl
      rw [hself, hflag] at ht
      cases ht
    exact ⟨hne, hother t hne⟩
  refine ⟨⟨hp.toGeometry.of_header_eq hhdr, ?_, ?_, ?_⟩, ?_, hhdr⟩
  · intro t ht
    by_cases hts : t = slot
    · subst hts; left; rw [hself, hflag]
    · rw [hother t hts]; exact hp.kinds t (hcount ▸ ht)
  · intro t ht hn
    obtain ⟨-, heq⟩ := hlive t hn
    rw [heq] at hn ⊢
    rw [hhdr]
    exact hp.within t (hcount ▸ ht) hn
  · intro s t hs' ht hst hns hnt
    obtain ⟨-, heqs⟩ := hlive s hns
    obtain ⟨-, heqt⟩ := hlive t hnt
    rw [heqs] at hns ⊢
    rw [heqt] at hnt ⊢
    exact hp.apart s t (hcount ▸ hs') (hcount ▸ ht) hst hns hnt
  · funext t
    by_cases hts : t = slot
    · subst hts
      rw [Function.update_self, content, hself, hflag, if_neg (by simp)]
    · rw [Function.update_of_ne hts]
      refine content_congr (by rw [hcount]) (hother t hts) fun i hi _ ht hn => hbyte i ?_
      have := hp.within t ht hn
      omega

/-- **Deletion.** -/
theorem delete_tuple_spec (hp : Inv p) (h : delete_tuple p slot = .ok q) :
    Inv q ∧ content q = Function.update (content p) slot none ∧ header q = header p := by
  obtain ⟨⟨-, hs, -⟩, rfl⟩ := delete_tuple_eq_ok.mp h
  exact mark_unused_spec hp hs

/-- Writes into the special space leave the slots alone. -/
theorem special_write_spec (hp : Inv p)
    (hbyte : ∀ i, i < (header p).pd_special → q.byte i = p.byte i)
    (hsp : 36 ≤ (header p).pd_special) :
    Inv q ∧ content q = content p ∧ header q = header p := by
  have hb := hp.bounds
  have hhdr : header q = header p := header_congr fun i hi => hbyte i (by omega)
  have hcount : slot_count q = slot_count p := slot_count_of_header_eq hhdr
  have hlp : ∀ t, t < slot_count p → raw_line_pointer q t = raw_line_pointer p t :=
    fun t ht => raw_line_pointer_congr fun i _ hi => hbyte i (by omega)
  refine ⟨⟨hp.toGeometry.of_header_eq hhdr, ?_, ?_, ?_⟩, ?_, hhdr⟩
  · intro t ht
    rw [hcount] at ht
    rw [hlp t ht]; exact hp.kinds t ht
  · intro t ht hn
    rw [hcount] at ht
    rw [hlp t ht] at hn ⊢
    rw [hhdr]
    exact hp.within t ht hn
  · intro s t hs ht hst hns hnt
    rw [hcount] at hs ht
    rw [hlp s hs] at hns ⊢
    rw [hlp t ht] at hnt ⊢
    exact hp.apart s t hs ht hst hns hnt
  · funext t
    by_cases ht : t < slot_count p
    · refine content_congr (by rw [hcount]) (hlp t ht) fun i _ hi _ hn => hbyte i ?_
      have := hp.within t ht hn
      omega
    · rw [content_eq_none (not_lt.mp ht), content_eq_none (by rw [hcount]; exact not_lt.mp ht)]

/-- **The chain pointer.** -/
theorem set_next_page_spec (hp : Inv p) {next : Option PageId} (h : set_next_page p next = .ok q) :
    Inv q ∧ content q = content p ∧ header q = header p := by
  obtain ⟨⟨-, hsp⟩, rfl⟩ := set_next_page_eq_ok.mp h
  refine special_write_spec hp (fun i hi => Buf.byte_writeLe_of_disjoint ?_) (by omega)
  omega

/-! ## Compaction -/

/-- The staging of one slot. -/
def stage_of (p : Page) (dead_slots : List ℕ) (slot : ℕ) : Option Staged :=
  if (raw_line_pointer p slot).flags = .Unused ∨ slot ∈ dead_slots then none
  else some ⟨slot, (raw_line_pointer p slot).flags, (raw_line_pointer p slot).len,
    p.slice (raw_line_pointer p slot).off (raw_line_pointer p slot).len⟩

/-- The tuples a compaction keeps, in slot order. -/
def survivors (p : Page) (dead_slots : List ℕ) : List Staged :=
  (List.range (slot_count p)).filterMap (stage_of p dead_slots)

variable {dead_slots : List ℕ}

/-- What `compact` needs of a page: the regions of the survivors lie in the tuple area, and have
room behind the line pointers when put side by side. -/
structure Compactable (p : Page) (dead_slots : List ℕ) : Prop extends Geometry p where
  within : ∀ s, s < slot_count p → ¬ ((raw_line_pointer p s).flags = .Unused ∨ s ∈ dead_slots) →
    (header p).pd_upper ≤ (raw_line_pointer p s).off ∧
      (raw_line_pointer p s).off + (raw_line_pointer p s).len ≤ (header p).pd_special
  room : (header p).pd_lower + ((survivors p dead_slots).map Staged.len).sum
    ≤ (header p).pd_special

theorem stage_slots_eq {slots : List ℕ} (hslots : ∀ s ∈ slots, s < slot_count p)
    (hwithin : ∀ s, s < slot_count p → ¬ ((raw_line_pointer p s).flags = .Unused ∨ s ∈ dead_slots) →
      (header p).pd_upper ≤ (raw_line_pointer p s).off ∧
        (raw_line_pointer p s).off + (raw_line_pointer p s).len ≤ (header p).pd_special) :
    stage_slots p (header p) dead_slots slots = .ok (slots.filterMap (stage_of p dead_slots)) := by
  induction slots with
  | nil => rfl
  | cons s rest ih =>
    have hrest := ih fun t ht => hslots t (.tail _ ht)
    have hs := hslots s (.head _)
    rw [stage_slots]
    simp only
    by_cases hskip : (raw_line_pointer p s).flags = .Unused ∨ s ∈ dead_slots
    · rw [if_pos hskip, hrest, List.filterMap_cons_none (by rw [stage_of, if_pos hskip])]
    · have hw := hwithin s hs hskip
      rw [if_neg hskip, if_neg (by omega), hrest,
        List.filterMap_cons_some (by rw [stage_of, if_neg hskip])]

variable {e : Staged}

theorem mem_survivors :
    e ∈ survivors p dead_slots ↔ ∃ s, s < slot_count p ∧ stage_of p dead_slots s = some e := by
  rw [survivors, List.mem_filterMap]
  simp only [List.mem_range]

/-- What is known of a survivor: its slot is live, and the record is the slot's. -/
theorem survivors_spec (he : e ∈ survivors p dead_slots) :
    e.slot < slot_count p ∧ e.slot ∉ dead_slots ∧
      (raw_line_pointer p e.slot).flags ≠ .Unused ∧ e.flags = (raw_line_pointer p e.slot).flags ∧
      e.len = (raw_line_pointer p e.slot).len ∧
      e.bytes = p.slice (raw_line_pointer p e.slot).off e.len ∧ e.bytes.length = e.len := by
  obtain ⟨s, hs, heq⟩ := mem_survivors.mp he
  unfold stage_of at heq
  split_ifs at heq with hskip
  cases heq
  push Not at hskip
  exact ⟨hs, hskip.2, hskip.1, rfl, rfl, rfl, Buf.length_slice _ _⟩

theorem mem_survivors_of_slot (hs : s < slot_count p) (hn : (raw_line_pointer p s).flags ≠ .Unused)
    (hd : s ∉ dead_slots) :
    ⟨s, (raw_line_pointer p s).flags, (raw_line_pointer p s).len,
      p.slice (raw_line_pointer p s).off (raw_line_pointer p s).len⟩ ∈ survivors p dead_slots :=
  mem_survivors.mpr ⟨s, hs, by rw [stage_of, if_neg (by simp [hn, hd])]⟩

theorem Inv.survivor_normal (hp : Inv p) (he : e ∈ survivors p dead_slots) :
    (raw_line_pointer p e.slot).flags = .Normal :=
  (hp.not_unused_iff (survivors_spec he).1).mp (survivors_spec he).2.2.1

/-- The slots of the survivors are those of the range, in order. -/
theorem survivors_slots_nodup (p : Page) (dead_slots : List ℕ) :
    ((survivors p dead_slots).map Staged.slot).Nodup := by
  have hslot : ∀ s e, stage_of p dead_slots s = some e → e.slot = s := by
    intro s e h
    unfold stage_of at h
    split_ifs at h
    cases h
    rfl
  rw [survivors, List.Nodup, List.pairwise_map, List.pairwise_filterMap]
  refine (List.nodup_range (n := slot_count p)).imp fun {a b} hab e he f hf => ?_
  rw [hslot a e he, hslot b f hf]
  exact hab

/-- The survivors fit between the old `pd_upper` and the special space. -/
theorem survivors_sum_le (hp : Inv p) (dead_slots : List ℕ) :
    ((survivors p dead_slots).map Staged.len).sum
      ≤ (header p).pd_special - (header p).pd_upper := by
  have hmap : (survivors p dead_slots).map Staged.len =
      ((survivors p dead_slots).map fun e =>
        ((raw_line_pointer p e.slot).off, (raw_line_pointer p e.slot).len)).map Prod.snd := by
    rw [List.map_map]
    exact List.map_congr_left fun e he => (survivors_spec he).2.2.2.2.1
  rw [hmap]
  refine sum_len_le_of_disjoint ?_ ?_
  · rw [List.pairwise_map]
    have hnd := survivors_slots_nodup p dead_slots
    rw [List.Nodup, List.pairwise_map] at hnd
    refine hnd.imp_of_mem fun {e f} he hf hne => ?_
    exact hp.apart e.slot f.slot (survivors_spec he).1 (survivors_spec hf).1 hne
      (hp.survivor_normal he) (hp.survivor_normal hf)
  · intro r hr
    obtain ⟨e, he, rfl⟩ := List.mem_map.mp hr
    exact hp.within e.slot (survivors_spec he).1 (hp.survivor_normal he)

theorem Inv.compactable (hp : Inv p) (dead_slots : List ℕ) : Compactable p dead_slots := by
  refine ⟨hp.toGeometry, fun s hs hn => hp.within s hs ?_, ?_⟩
  · exact (hp.not_unused_iff hs).mp fun h => hn (.inl h)
  · have hsum := survivors_sum_le hp dead_slots
    have hb := hp.bounds
    omega

/-- What the restaging loop has done when it has put `staged` back from `cursor`
down: `q` is the page and `c` the cursor it ends with. Line pointers below `lower`
and bytes from `c` up to `cursor` are its only writes. -/
structure Restaged (p : Page) (lower cursor : ℕ) (staged : List Staged) (q : Page) (c : ℕ) :
    Prop where
  cursor_eq : c + (staged.map Staged.len).sum = cursor
  header_eq : header q = header p
  byte_eq : ∀ i, lower ≤ i → (i < c ∨ cursor ≤ i) → q.byte i = p.byte i
  other : ∀ s, s ∉ staged.map Staged.slot → 36 + s * 4 ≤ lower →
    raw_line_pointer q s = raw_line_pointer p s
  moved : ∀ e ∈ staged, (raw_line_pointer q e.slot).flags = e.flags ∧
    (raw_line_pointer q e.slot).len = e.len ∧ c ≤ (raw_line_pointer q e.slot).off ∧
    (raw_line_pointer q e.slot).off + e.len ≤ cursor ∧
    q.slice (raw_line_pointer q e.slot).off e.len = e.bytes
  packed : staged.Pairwise fun e f =>
    (raw_line_pointer q f.slot).off + f.len ≤ (raw_line_pointer q e.slot).off

/-- **The restaging loop.** The induction goes from the front of the list, as the
loop does: after the first tuple the rest of the loop works on a smaller cursor,
below the tuple just placed. -/
theorem restage_spec {lower : ℕ} (hlower : 32 ≤ lower) {staged : List Staged} :
    ∀ {p : Page} {cursor : ℕ}, cursor ≤ 8192 →
      (∀ e ∈ staged, 36 + e.slot * 4 ≤ lower ∧ e.bytes.length = e.len) →
      (staged.map Staged.slot).Nodup → lower + (staged.map Staged.len).sum ≤ cursor →
      Restaged p lower cursor staged (restage p cursor staged).1 (restage p cursor staged).2 := by
  induction staged with
  | nil =>
    intro p cursor _ _ _ _
    exact ⟨rfl, rfl, fun _ _ _ => rfl, fun _ _ _ => rfl, fun _ h => absurd h List.not_mem_nil,
      List.Pairwise.nil⟩
  | cons e rest ih =>
    intro p cursor hcur hwf hnd hsum
    obtain ⟨hslot, hlen⟩ := hwf e (.head _)
    obtain ⟨hfresh, hnd'⟩ := List.nodup_cons.mp hnd
    rw [List.map_cons, List.sum_cons] at hsum
    have hoff : cursor - e.len < 2 ^ 15 := by omega
    have hl : e.len < 2 ^ 15 := by omega
    -- the page after one turn
    obtain ⟨p', hp'⟩ : ∃ p', p' = set_line_pointer (p.write (cursor - e.len) e.bytes) e.slot
        (LinePointer.new (cursor - e.len) e.flags e.len) := ⟨_, rfl⟩
    have hrest := @ih p' (cursor - e.len) (by omega)
      (fun f hf => hwf f (.tail _ hf)) hnd' (by omega)
    have hunfold : restage p cursor (e :: rest) = restage p' (cursor - e.len) rest := by
      rw [hp']; rfl
    rw [hunfold]
    have hlp : raw_line_pointer p' e.slot = LinePointer.new (cursor - e.len) e.flags e.len := by
      rw [hp']
      exact raw_line_pointer_set_self (by omega) (LinePointer.new_bits_lt _ hoff hl)
    have hlpq : raw_line_pointer (restage p' (cursor - e.len) rest).1 e.slot
        = LinePointer.new (cursor - e.len) e.flags e.len := by
      rw [hrest.other e.slot hfresh (by omega), hlp]
    have hqoff : (raw_line_pointer (restage p' (cursor - e.len) rest).1 e.slot).off
        = cursor - e.len := by rw [hlpq, LinePointer.new_off _ hoff hl]
    have hc := hrest.cursor_eq
    constructor
    · rw [List.map_cons, List.sum_cons]; omega
    · rw [hrest.header_eq, hp', header_set_line_pointer, header_write (by omega)]
    · intro i hi hout
      rw [hrest.byte_eq i hi (by omega), hp', byte_set_line_pointer (by omega),
        Buf.byte_write_of_disjoint (by omega)]
    · intro s hs hsl
      rw [List.map_cons, List.mem_cons, not_or] at hs
      rw [hrest.other s hs.2 hsl, hp', raw_line_pointer_set_of_ne (Ne.symm hs.1),
        raw_line_pointer_write (by omega)]
    · intro f hf
      rcases List.mem_cons.mp hf with rfl | hf
      · rw [hqoff, hlpq, LinePointer.new_flags _ hoff hl, LinePointer.new_len _ hoff hl]
        refine ⟨rfl, rfl, by omega, by omega, ?_⟩
        have hkeep : (restage p' (cursor - f.len) rest).1.slice (cursor - f.len) f.len
            = (p.write (cursor - f.len) f.bytes).slice (cursor - f.len) f.len :=
          Buf.slice_congr fun i h1 h2 => by
            rw [hrest.byte_eq i (by omega) (by omega), hp', byte_set_line_pointer (by omega)]
        rw [hkeep, ← hlen, Buf.slice_write_self (by omega)]
      · obtain ⟨h1, h2, h3, h4, h5⟩ := hrest.moved f hf
        exact ⟨h1, h2, h3, by omega, h5⟩
    · refine List.pairwise_cons.mpr ⟨fun f hf => ?_, hrest.packed⟩
      rw [hqoff]
      exact (hrest.moved f hf).2.2.2.1

/-- What the kill loop has done: the listed slots are `Unused`, the rest of the
page is as it was. -/
structure Killed (p : Page) (dead_slots : List ℕ) (q : Page) : Prop where
  header_eq : header q = header p
  byte_eq : ∀ i, (header p).pd_lower ≤ i → q.byte i = p.byte i
  other : ∀ s, s ∉ dead_slots → raw_line_pointer q s = raw_line_pointer p s
  killed : ∀ s ∈ dead_slots, (raw_line_pointer q s).flags = .Unused

/-- The kill loop cannot fail on slots of the page. -/
theorem kill_slots_spec :
    ∀ {p : Page}, Geometry p → (∀ s ∈ dead_slots, s < slot_count p) →
      ∃ q, kill_slots p dead_slots = .ok q ∧ Killed p dead_slots q := by
  induction dead_slots with
  | nil =>
    intro p _ _
    exact ⟨p, rfl, rfl, fun _ _ => rfl, fun _ _ => rfl, fun _ h => absurd h List.not_mem_nil⟩
  | cons s rest ih =>
    intro p hg hdead
    have hs := hdead s (.head _)
    have hb := hg.bounds
    have hbits := raw_line_pointer_bits_lt p s
    obtain ⟨p', hp'⟩ : ∃ p', p' = set_line_pointer p s
        ((raw_line_pointer p s).with_flags .Unused) := ⟨_, rfl⟩
    have hhdr : header p' = header p := by rw [hp', header_set_line_pointer]
    have hcount : slot_count p' = slot_count p := slot_count_of_header_eq hhdr
    have hself : (raw_line_pointer p' s).flags = .Unused := by
      rw [hp', raw_line_pointer_set_self (by omega) (LinePointer.with_flags_bits_lt hbits _),
        LinePointer.with_flags_flags hbits]
    obtain ⟨q, hq, hk⟩ := ih (hg.of_header_eq hhdr) fun t ht => by
      rw [hcount]
      exact hdead t (.tail _ ht)
    refine ⟨q, ?_, ?_, ?_, ?_, ?_⟩
    · rw [kill_slots, line_pointer_eq_ok.mpr ⟨hg, hs, rfl⟩]
      simp only
      rw [← hp', hq]
    · rw [hk.header_eq, hhdr]
    · intro i hi
      rw [hk.byte_eq i (by rw [hhdr]; exact hi), hp', byte_set_line_pointer (by omega)]
    · intro t ht
      rw [List.mem_cons, not_or] at ht
      rw [hk.other t ht.2, hp', raw_line_pointer_set_of_ne (Ne.symm ht.1)]
    · intro t ht
      by_cases htr : t ∈ rest
      · exact hk.killed t htr
      · rcases List.mem_cons.mp ht with rfl | ht
        · rw [hk.other t htr, hself]
        · exact absurd ht htr

/-- What a kill list has to satisfy. -/
theorem check_dead_slots_iff (hg : Geometry p) :
    ∀ {prev : Option ℕ}, check_dead_slots p prev dead_slots = .ok () ↔
      (∀ r ∈ prev, ∀ s ∈ dead_slots, r < s) ∧ dead_slots.Pairwise (· < ·) ∧
      ∀ s ∈ dead_slots, s < slot_count p ∧
        ((raw_line_pointer p s).flags = .Normal ∨ (raw_line_pointer p s).flags = .Dead) := by
  induction dead_slots with
  | nil => intro prev; simp [check_dead_slots]
  | cons s rest ih =>
    intro prev
    have hbad : ∀ r, (∃ x ∈ prev, r = x ∧ s ≤ x) →
        ¬ ∀ r ∈ prev, ∀ t ∈ s :: rest, r < t := by
      rintro r ⟨x, hx, rfl, hle⟩ hall
      exact absurd (hall r hx s (.head _)) (not_lt.mpr hle)
    rw [check_dead_slots]
    cases hf : prev.filter (fun p => decide (s ≤ p)) with
    | some r =>
      obtain ⟨hr, hle⟩ := Option.filter_eq_some_iff.mp hf
      simp only [reduceCtorEq, false_iff]
      exact fun h => hbad r ⟨r, hr, rfl, of_decide_eq_true hle⟩ h.1
    | none =>
      have hprev : ∀ r ∈ prev, r < s := by
        intro r hr
        have hnot := Option.filter_eq_none_iff.mp hf r hr
        exact not_le.mp fun hle => hnot (decide_eq_true hle)
      simp only
      rw [hg.line_pointer]
      by_cases hs : s < slot_count p
      · rw [if_pos hs]
        simp only
        by_cases hflag : (raw_line_pointer p s).flags = .Normal ∨
            (raw_line_pointer p s).flags = .Dead
        · rw [if_pos hflag, ih]
          constructor
          · rintro ⟨h1, h2, h3⟩
            have hlt : ∀ t ∈ rest, s < t := h1 s rfl
            refine ⟨fun r hr t ht => ?_, List.pairwise_cons.mpr ⟨hlt, h2⟩, fun t ht => ?_⟩
            · rcases List.mem_cons.mp ht with rfl | ht
              · exact hprev r hr
              · exact (hprev r hr).trans (hlt t ht)
            · rcases List.mem_cons.mp ht with rfl | ht
              · exact ⟨hs, hflag⟩
              · exact h3 t ht
          · rintro ⟨-, h2, h3⟩
            obtain ⟨hlt, h2⟩ := List.pairwise_cons.mp h2
            refine ⟨fun r hr t ht => ?_, h2, fun t ht => h3 t (.tail _ ht)⟩
            cases hr
            exact hlt t ht
        · rw [if_neg hflag]
          simp only [reduceCtorEq, false_iff]
          exact fun h => hflag (h.2.2 s (.head _)).2
      · rw [if_neg hs]
        simp only [reduceCtorEq, false_iff]
        exact fun h => hs (h.2.2 s (.head _)).1

/-- The layout compaction produces, by slots: `c` is the new `pd_upper`. -/
structure Packed (p : Page) (dead_slots : List ℕ) (q : Page) (c : ℕ) : Prop where
  cursor_eq : c + ((survivors p dead_slots).map Staged.len).sum = (header p).pd_special
  header_eq : header q = { header p with pd_upper := c }
  killed : ∀ s ∈ dead_slots, (raw_line_pointer q s).flags = .Unused
  other : ∀ s, s < slot_count p → s ∉ dead_slots →
    s ∉ (survivors p dead_slots).map Staged.slot → raw_line_pointer q s = raw_line_pointer p s
  moved : ∀ e ∈ survivors p dead_slots, (raw_line_pointer q e.slot).flags = e.flags ∧
    (raw_line_pointer q e.slot).len = e.len ∧ c ≤ (raw_line_pointer q e.slot).off ∧
    (raw_line_pointer q e.slot).off + e.len ≤ (header p).pd_special ∧
    q.slice (raw_line_pointer q e.slot).off e.len = e.bytes
  packed : (survivors p dead_slots).Pairwise fun e f =>
    (raw_line_pointer q f.slot).off + f.len ≤ (raw_line_pointer q e.slot).off

/-- The phases of a compaction: `p₁` has the tuple area cleared, `p₂` the survivors
put back down to `c`, and `p₃` the listed slots killed. -/
structure Phases (p : Page) (dead_slots : List ℕ) (p₁ p₂ p₃ : Page) (c : ℕ) : Prop where
  cleared : p₁ = p.fill (header p).pd_upper (header p).pd_special 0
  byte₁ : ∀ i, i < (header p).pd_upper → p₁.byte i = p.byte i
  header₂ : header p₂ = header p
  restage_eq : restage p₁ (header p).pd_special (survivors p dead_slots) = (p₂, c)
  restaged : Restaged p₁ (header p).pd_lower (header p).pd_special (survivors p dead_slots) p₂ c
  kill_eq : kill_slots p₂ dead_slots = .ok p₃
  killed : Killed p₂ dead_slots p₃

/-- The phases of `compact` put together. -/
theorem compact_phases (hp : Compactable p dead_slots)
    (hcheck : check_dead_slots p none dead_slots = .ok ()) :
    ∃ p₁ p₂ p₃ c, compact p dead_slots = .ok (set_pd_upper p₃ c) ∧
      Phases p dead_slots p₁ p₂ p₃ c := by
  have h0 := hp.lower_ge
  have h1 := hp.lower_eq
  have h2 := hp.lower_le_upper
  have h3 := hp.upper_le_special
  have h4 := hp.special_le
  have hdead := ((check_dead_slots_iff hp.toGeometry).mp hcheck).2.2
  have hsum := hp.room
  -- clear the tuple area
  obtain ⟨p₁, hp1⟩ : ∃ p₁ : Page, p₁ = Buf.fill p (header p).pd_upper (header p).pd_special 0 :=
    ⟨_, rfl⟩
  have hb1 : ∀ i, i < (header p).pd_upper → p₁.byte i = p.byte i := by
    intro i hi
    rw [hp1, Buf.byte_fill h4, if_neg (by omega)]
  have hh1 : header p₁ = header p := header_congr fun i hi => hb1 i (by omega)
  -- put the survivors back
  have hre := @restage_spec (header p).pd_lower h0 (survivors p dead_slots) p₁ (header p).pd_special
    h4 (fun e he => by
      obtain ⟨hs, -, -, -, -, -, hl⟩ := survivors_spec he
      exact ⟨by omega, hl⟩)
    (survivors_slots_nodup p dead_slots) hsum
  obtain ⟨⟨p₂, c⟩, hp2⟩ : ∃ r, r = restage p₁ (header p).pd_special (survivors p dead_slots) :=
    ⟨_, rfl⟩
  rw [← hp2] at hre
  change Restaged p₁ _ _ _ p₂ c at hre
  have hh2 : header p₂ = header p := by rw [hre.header_eq, hh1]
  have hcount2 : slot_count p₂ = slot_count p := slot_count_of_header_eq hh2
  -- kill the listed slots
  obtain ⟨p₃, hkill, hk⟩ := kill_slots_spec (hp.toGeometry.of_header_eq hh2)
    fun s hs => by rw [hcount2]; exact (hdead s hs).1
  refine ⟨p₁, p₂, p₃, c, ?_, hp1, hb1, hh2, hp2.symm, hre, hkill, hk⟩
  unfold compact
  rw [hp.toGeometry.checked]
  simp only
  rw [hcheck, header_slot_count,
    stage_slots_eq (fun s hs => List.mem_range.mp hs) hp.within]
  simp only
  rw [← survivors, ← hp1, ← hp2]
  simp only
  rw [hkill]

/-- Setting `pd_upper` leaves the line pointers. -/
theorem raw_line_pointer_set_pd_upper (p : Page) (u s : ℕ) :
    raw_line_pointer (set_pd_upper p u) s = raw_line_pointer p s :=
  raw_line_pointer_congr fun _ _ _ => byte_set_pd_upper (by omega)

theorem Phases.packed {p₁ p₂ p₃ : Page} (hp : Compactable p dead_slots)
    (h : Phases p dead_slots p₁ p₂ p₃ c) : Packed p dead_slots (set_pd_upper p₃ c) c := by
  obtain ⟨-, hb1, hh2, -, hre, -, hk⟩ := h
  have hb := hp.bounds
  have hsum := hp.room
  have hcsum := hre.cursor_eq
  have hlp := raw_line_pointer_set_pd_upper p₃ c
  refine ⟨hcsum, ?_, ?_, ?_, ?_, ?_⟩
  · rw [header_set_pd_upper (by omega), hk.header_eq, hh2]
  · intro s hs
    rw [hlp, hk.killed s hs]
  · intro s hs hd hmem
    rw [hlp, hk.other s hd, hre.other s hmem (by omega),
      raw_line_pointer_congr fun i hi hi' => hb1 i (by omega)]
  · intro e he
    obtain ⟨hf, hl, hlo, hhi, hsl⟩ := hre.moved e he
    rw [hlp, hk.other e.slot (survivors_spec he).2.1]
    refine ⟨hf, hl, hlo, hhi, ?_⟩
    rw [← hsl]
    refine Buf.slice_congr fun i hi _ => ?_
    rw [byte_set_pd_upper (by omega), hk.byte_eq i (by rw [hh2]; omega)]
  · refine hre.packed.imp_of_mem fun {e f} he hf hle => ?_
    rw [hlp, hlp, hk.other e.slot (survivors_spec he).2.1, hk.other f.slot (survivors_spec hf).2.1]
    exact hle

/-- A live slot of the packed page is a survivor. -/
theorem Packed.survivor (hq : Packed p dead_slots q c) (hs : s < slot_count p)
    (hn : (raw_line_pointer q s).flags = .Normal) :
    ∃ e ∈ survivors p dead_slots, e.slot = s := by
  have hnd : s ∉ dead_slots := by
    intro hmem
    rw [hq.killed s hmem] at hn
    cases hn
  by_contra hnot
  have hmem : s ∉ (survivors p dead_slots).map Staged.slot := by
    intro hm
    obtain ⟨e, he, rfl⟩ := List.mem_map.mp hm
    exact hnot ⟨e, he, rfl⟩
  rw [hq.other s hs hnd hmem] at hn
  exact hnot ⟨_, mem_survivors_of_slot hs (by simp [hn]) hnd, rfl⟩

/-- Two survivors occupy disjoint regions, whichever comes first. -/
theorem Packed.apart (hq : Packed p dead_slots q c) {f : Staged} (he : e ∈ survivors p dead_slots)
    (hf : f ∈ survivors p dead_slots) (hne : e ≠ f) :
    (raw_line_pointer q e.slot).off + e.len ≤ (raw_line_pointer q f.slot).off ∨
      (raw_line_pointer q f.slot).off + f.len ≤ (raw_line_pointer q e.slot).off := by
  have hsymm : Std.Symm fun e f : Staged =>
      (raw_line_pointer q e.slot).off + e.len ≤ (raw_line_pointer q f.slot).off ∨
        (raw_line_pointer q f.slot).off + f.len ≤ (raw_line_pointer q e.slot).off :=
    ⟨fun _ _ h => h.symm⟩
  have hpair : (survivors p dead_slots).Pairwise fun e f : Staged =>
      (raw_line_pointer q e.slot).off + e.len ≤ (raw_line_pointer q f.slot).off ∨
        (raw_line_pointer q f.slot).off + f.len ≤ (raw_line_pointer q e.slot).off :=
    hq.packed.imp fun {e f} h => .inr h
  exact hpair.forall he hf hne

/-- The page compaction produces, as a map. -/
structure Compacted (p : Page) (dead_slots : List ℕ) (q : Page) : Prop where
  inv : Inv q
  content_eq : content q = fun s => if s ∈ dead_slots then none else content p s
  header_eq : header q = { header p with
    pd_upper := (header p).pd_special - ((survivors p dead_slots).map Staged.len).sum }

theorem Packed.slot_count_eq (hq : Packed p dead_slots q c) : slot_count q = slot_count p := by
  rw [slot_count, PageHeader.slot_count, hq.header_eq]
  rfl

theorem Packed.geometry (hp : Compactable p dead_slots) (hq : Packed p dead_slots q c) :
    Geometry q := by
  have hsum := hp.room
  have hcsum := hq.cursor_eq
  constructor <;> rw [hq.header_eq]
  · exact hp.lower_ge
  · exact hp.aligned
  · change (header p).pd_lower ≤ c
    omega
  · change c ≤ (header p).pd_special
    omega
  · exact hp.special_le

theorem Packed.compacted (hp : Inv p) (hq : Packed p dead_slots q c) : Compacted p dead_slots q := by
  have hcsum := hq.cursor_eq
  have hupper : (header q).pd_upper = c := by rw [hq.header_eq]
  have hspecial : (header q).pd_special = (header p).pd_special := by rw [hq.header_eq]
  have hcount := hq.slot_count_eq
  refine ⟨⟨hq.geometry (hp.compactable _), ?_, ?_, ?_⟩, ?_, ?_⟩
  · intro s hs
    rw [hcount] at hs
    by_cases hd : s ∈ dead_slots
    · exact .inl (hq.killed s hd)
    · by_cases hmem : s ∈ (survivors p dead_slots).map Staged.slot
      · obtain ⟨e, he, rfl⟩ := List.mem_map.mp hmem
        right
        rw [(hq.moved e he).1, (survivors_spec he).2.2.2.1, hp.survivor_normal he]
      · rw [hq.other s hs hd hmem]
        exact hp.kinds s hs
  · intro s hs hn
    rw [hcount] at hs
    obtain ⟨e, he, rfl⟩ := hq.survivor hs hn
    obtain ⟨-, hl, hlo, hhi, -⟩ := hq.moved e he
    rw [hupper, hspecial, hl]
    exact ⟨hlo, hhi⟩
  · intro s t hs ht hst hns hnt
    rw [hcount] at hs ht
    obtain ⟨e, he, rfl⟩ := hq.survivor hs hns
    obtain ⟨f, hf, rfl⟩ := hq.survivor ht hnt
    rw [(hq.moved e he).2.1, (hq.moved f hf).2.1]
    exact hq.apart he hf fun h => hst (congrArg Staged.slot h)
  · funext s
    unfold content
    rw [hcount]
    by_cases hd : s ∈ dead_slots
    · rw [if_pos hd, hq.killed s hd, if_neg (by simp)]
    rw [if_neg hd]
    by_cases hs : s < slot_count p
    · by_cases hn : (raw_line_pointer p s).flags = .Normal
      · -- a survivor: its bytes moved with it
        obtain ⟨hf, hl, -, -, hsl⟩ := hq.moved _ (mem_survivors_of_slot hs (by simp [hn]) hd)
        rw [if_pos ⟨hs, hf.trans hn⟩, if_pos ⟨hs, hn⟩, hl, hsl]
      · have hnq : ¬ (raw_line_pointer q s).flags = .Normal := by
          intro hnq
          obtain ⟨e, he, rfl⟩ := hq.survivor hs hnq
          exact hn (hp.survivor_normal he)
        rw [if_neg fun h => hnq h.2, if_neg fun h => hn h.2]
    · rw [if_neg fun h => hs h.1, if_neg fun h => hs h.1]
  · rw [hq.header_eq, ← hcsum, Nat.add_sub_cancel]

/-- **Compaction** of a valid kill list succeeds, drops the listed slots from the
map and keeps the rest. -/
theorem compact_spec (hp : Inv p) (hcheck : check_dead_slots p none dead_slots = .ok ()) :
    ∃ q, compact p dead_slots = .ok q ∧ Compacted p dead_slots q := by
  obtain ⟨p₁, p₂, p₃, c, hok, hphases⟩ := compact_phases (hp.compactable _) hcheck
  exact ⟨_, hok, (hphases.packed (hp.compactable _)).compacted hp⟩

/-- A compaction that succeeded had a valid kill list. -/
theorem compact_check (h : compact p dead_slots = .ok q) :
    check_dead_slots p none dead_slots = .ok () := by
  unfold compact at h
  split at h
  · cases h
  · next hd hc =>
    cases hcheck : check_dead_slots p none dead_slots with
    | error e => simp only [hcheck] at h; cases h
    | ok u => rfl

/-! ## Runs -/

/-- The calls of a page's users. -/
inductive PageOp where
  | add_tuple (bytes : List UInt8)
  | add_tuple_at (slot : ℕ) (bytes : List UInt8)
  | delete_tuple (slot : ℕ)
  | compact (dead_slots : List ℕ)
  | set_next_page (next : Option PageId)

/-- A page and the record of what was last placed in each slot. -/
structure Recorded where
  page : Page
  placed : ℕ → Option (List UInt8)

/-- Run one call. A call that returns an error has not touched the page; one that
succeeds is recorded. -/
def Recorded.exec (s : Recorded) : PageOp → Recorded
  | .add_tuple bytes =>
    match SlottedPage.add_tuple s.page bytes with
    | .ok (slot, page) => ⟨page, Function.update s.placed slot (some bytes)⟩
    | .error _ => s
  | .add_tuple_at slot bytes =>
    match SlottedPage.add_tuple_at s.page slot bytes with
    | .ok page => ⟨page, Function.update s.placed slot (some bytes)⟩
    | .error _ => s
  | .delete_tuple slot =>
    match SlottedPage.delete_tuple s.page slot with
    | .ok page => ⟨page, Function.update s.placed slot none⟩
    | .error _ => s
  | .compact dead_slots =>
    match SlottedPage.compact s.page dead_slots with
    | .ok page => ⟨page, fun slot => if slot ∈ dead_slots then none else s.placed slot⟩
    | .error _ => s
  | .set_next_page next =>
    match SlottedPage.set_next_page s.page next with
    | .ok page => ⟨page, s.placed⟩
    | .error _ => s

/-- The page satisfies its invariant and holds what the record says. -/
def Recorded.Good (s : Recorded) : Prop := Inv s.page ∧ content s.page = s.placed

variable {s : Recorded}

theorem Recorded.Good.add_tuple_at (hs : s.Good)
    (h : SlottedPage.add_tuple_at s.page slot bytes = .ok q) :
    Good ⟨q, Function.update s.placed slot (some bytes)⟩ ∧
      slot_count s.page ≤ slot_count q := by
  obtain ⟨hf, rfl⟩ := add_tuple_at_eq_ok.mp h
  obtain ⟨hinv, hcontent, hcount, -, -⟩ := place_tuple_spec hs.1 hf
  exact ⟨⟨hinv, by rw [hcontent, hs.2]⟩, by rw [hcount]; exact Nat.le_add_right _ _⟩

/-- One call keeps the page good and does not lower its slot count. -/
theorem Recorded.Good.exec (hs : s.Good) (op : PageOp) :
    (s.exec op).Good ∧ slot_count s.page ≤ slot_count (s.exec op).page := by
  have hsame : s.Good ∧ slot_count s.page ≤ slot_count s.page := ⟨hs, le_refl _⟩
  cases op with
  | add_tuple bytes =>
    unfold Recorded.exec SlottedPage.add_tuple
    simp only
    cases h : SlottedPage.add_tuple_at s.page
      ((first_fit_slot s.page).getD (slot_count s.page)) bytes with
    | ok q => exact hs.add_tuple_at h
    | error e => exact hsame
  | add_tuple_at slot bytes =>
    unfold Recorded.exec
    cases h : SlottedPage.add_tuple_at s.page slot bytes with
    | ok q => simp only [h]; exact hs.add_tuple_at h
    | error e => simp only [h]; exact hsame
  | delete_tuple slot =>
    unfold Recorded.exec
    cases h : SlottedPage.delete_tuple s.page slot with
    | ok q =>
      obtain ⟨hinv, hcontent, hhdr⟩ := delete_tuple_spec hs.1 h
      simp only [h]
      exact ⟨⟨hinv, by rw [hcontent, hs.2]⟩, (slot_count_of_header_eq hhdr).ge⟩
    | error e => simp only [h]; exact hsame
  | compact dead_slots =>
    unfold Recorded.exec
    cases h : SlottedPage.compact s.page dead_slots with
    | ok q =>
      obtain ⟨q', hq', hcomp⟩ := compact_spec hs.1 (compact_check h)
      obtain rfl : q = q' := Except.ok.inj (h.symm.trans hq')
      simp only [h]
      refine ⟨⟨hcomp.inv, by rw [hcomp.content_eq, hs.2]⟩, ?_⟩
      rw [slot_count, slot_count, hcomp.header_eq]
      exact le_refl _
    | error e => simp only [h]; exact hsame
  | set_next_page next =>
    unfold Recorded.exec
    cases h : SlottedPage.set_next_page s.page next with
    | ok q =>
      obtain ⟨hinv, hcontent, hhdr⟩ := set_next_page_spec hs.1 h
      simp only [h]
      exact ⟨⟨hinv, by rw [hcontent, hs.2]⟩, (slot_count_of_header_eq hhdr).ge⟩
    | error e => simp only [h]; exact hsame

theorem Recorded.Good.run (hs : s.Good) (ops : List PageOp) :
    (ops.foldl Recorded.exec s).Good ∧
      slot_count s.page ≤ slot_count (ops.foldl Recorded.exec s).page := by
  induction ops generalizing s with
  | nil => exact ⟨hs, le_refl _⟩
  | cons op ops ih =>
    obtain ⟨hgood, hle⟩ := hs.exec op
    obtain ⟨hgood', hle'⟩ := ih hgood
    exact ⟨hgood', hle.trans hle'⟩

/-- A page fresh from `init_with_special`, with nothing recorded. -/
def Recorded.init (page : Page) (special_size : ℕ) : Recorded :=
  ⟨init_with_special page special_size, fun _ => none⟩

theorem Recorded.Good.init (page : Page) (h : special_size ≤ 8160) :
    (Recorded.init page special_size).Good := by
  obtain ⟨hinv, hcount⟩ := init_with_special_inv page h
  refine ⟨hinv, funext fun s => content_eq_none ?_⟩
  change slot_count (init_with_special page special_size) ≤ s
  omega

end SlottedPage

open SlottedPage in
/-- **The slotted page is a map from slots to byte strings.** After any sequence
of calls with any arguments on a freshly initialised page: the header geometry
holds, live tuple regions are disjoint and inside the tuple area, and reading any
slot returns what was last placed in it and not removed since. Further calls never
lower the slot count. -/
theorem slotted_page_invariant (page : Page) {special_size : ℕ}
    (hspecial : special_size ≤ PAGE_SIZE - PAGE_HEADER_SIZE) (ops later : List PageOp) :
    let s := ops.foldl Recorded.exec (Recorded.init page special_size)
    (PAGE_HEADER_SIZE ≤ (header s.page).pd_lower ∧
      (header s.page).pd_lower ≤ (header s.page).pd_upper ∧
      (header s.page).pd_upper ≤ (header s.page).pd_special ∧
      (header s.page).pd_special ≤ PAGE_SIZE ∧
      ((header s.page).pd_lower - PAGE_HEADER_SIZE) % 4 = 0) ∧
    (∀ i, i < slot_count s.page → (raw_line_pointer s.page i).flags ≠ .Unused →
      (header s.page).pd_upper ≤ (raw_line_pointer s.page i).off ∧
      (raw_line_pointer s.page i).off + (raw_line_pointer s.page i).len
        ≤ (header s.page).pd_special) ∧
    (∀ i j, i < slot_count s.page → j < slot_count s.page → i ≠ j →
      (raw_line_pointer s.page i).flags ≠ .Unused → (raw_line_pointer s.page j).flags ≠ .Unused →
      (raw_line_pointer s.page i).off + (raw_line_pointer s.page i).len
          ≤ (raw_line_pointer s.page j).off ∨
        (raw_line_pointer s.page j).off + (raw_line_pointer s.page j).len
          ≤ (raw_line_pointer s.page i).off) ∧
    (∀ slot, tuple s.page slot = .ok (s.placed slot)) ∧
    slot_count s.page ≤ slot_count (later.foldl Recorded.exec s).page := by
  obtain ⟨hgood, -⟩ := (Recorded.Good.init page hspecial).run ops
  obtain ⟨hinv, hcontent⟩ := hgood
  refine ⟨⟨hinv.lower_ge, hinv.lower_le_upper, hinv.upper_le_special, hinv.special_le,
    hinv.aligned⟩, fun i hi hu => hinv.within i hi ((hinv.not_unused_iff hi).mp hu),
    fun i j hi hj hij hui huj => hinv.apart i j hi hj hij ((hinv.not_unused_iff hi).mp hui)
      ((hinv.not_unused_iff hj).mp huj), fun slot => ?_,
    (Recorded.Good.run ⟨hinv, hcontent⟩ later).2⟩
  rw [hinv.tuple, hcontent]

open SlottedPage in
/-- Two tuples, the first killed by a compaction, a third recycling its slot: each
slot reads what was last placed in it. -/
theorem slotted_page_invariant_recycle :
    let s := [PageOp.add_tuple [1, 2], .add_tuple [3, 4, 5], .compact [0], .add_tuple [6]].foldl
      Recorded.exec (Recorded.init Page.zero HEAP_SPECIAL_SIZE)
    HEAP_SPECIAL_SIZE ≤ PAGE_SIZE - PAGE_HEADER_SIZE ∧
      ∀ slot, tuple s.page slot = .ok (s.placed slot) :=
  ⟨by decide, (@slotted_page_invariant Page.zero HEAP_SPECIAL_SIZE (by decide)
    [.add_tuple [1, 2], .add_tuple [3, 4, 5], .compact [0], .add_tuple [6]] []).2.2.2.1⟩

end Ams
