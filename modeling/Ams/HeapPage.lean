/-
Tuple headers on heap pages: the in-place stamps of `pg-am-heap/src/heap_am.rs`
and their counterparts in `pg-am-heap/src/redo.rs`.

Both families read the 64 header bytes of a `Normal` tuple, change fields and
write the bytes back. They differ in one field: the online stamps set `t_cid`, the
log records do not carry it, and redo leaves it as it finds it. Everything that
compares a page with its replayed copy is therefore about pages that are equal
outside the `t_cid` bytes of their live tuples. `Agree` is that relation, and the
file shows that each page operation, applied to two pages that agree, succeeds on
both or on neither and produces pages that agree. For the operations that write
fixed bytes this is immediate; for compaction, which moves the differing bytes
around, it is an induction along the restaging loop.
-/
import Ams.PageInvariant
import Ams.TupleCodec

set_option autoImplicit false

namespace Ams

open Ams.Lib SlottedPage

/-! ## Tuple bytes before they reach a page -/

/-- The largest tuple a fresh heap page holds. -/
abbrev MAX_TUPLE_BYTES : ℕ := 8140

namespace HeapAM

def validate_tuple_len (bytes : List UInt8) : Except HeapError Unit :=
  if bytes = [] then .error (.InvalidArgument "cannot insert an empty tuple")
  else if bytes.length > MAX_TUPLE_BYTES then .error (.TupleTooLarge bytes.length)
  else .ok ()

/-- The shared length check of the two functions below. -/
def short_tuple (tuple : List UInt8) : HeapError :=
  let len := tuple.length
  .InvalidArgument s!"tuple of {len} bytes is shorter than the 64-byte header"

/-- `t_xmin` is the writer's, whatever the caller encoded. -/
def stamp_xmin (tuple : List UInt8) (xid : TxnId) : Except HeapError (List UInt8) :=
  if tuple.length < 64 then .error (short_tuple tuple)
  else .ok (leBytes 8 xid ++ tuple.drop 8)

/-- `stamp_xmin`, and the bit of a HOT chain member. -/
def stamp_hot_only (tuple : List UInt8) (xid : TxnId) : Except HeapError (List UInt8) :=
  if tuple.length < 64 then .error (short_tuple tuple)
  else
    let owned := leBytes 8 xid ++ tuple.drop 8
    let infomask2 := BitVec.ofNat 16 (le_at owned 54 2)
    .ok (owned.take 54 ++ leBytes 2 (infomask2 ||| HEAP_ONLY_TUPLE).toNat ++ owned.drop 56)

/-- The header of the tuple at `tid`: the first lines of the row-lock gate. -/
def read_header (page : Page) (tid : Tid) : Except HeapError TupleHeader :=
  match line_pointer page tid.slot_id with
  | .error e => .error e
  | .ok lp =>
    if lp.flags ≠ .Normal then .error (.TupleNotFound tid)
    else TupleHeader.read_from (page.slice lp.off 64)

/-- Change the header of the tuple at `tid` in place: the body all stamps share. -/
def stamp_header (page : Page) (tid : Tid) (f : TupleHeader → TupleHeader) :
    Except HeapError Page :=
  match line_pointer page tid.slot_id with
  | .error e => .error e
  | .ok lp =>
    if lp.flags ≠ .Normal then .error (.TupleNotFound tid)
    else
      match TupleHeader.read_from (page.slice lp.off 64) with
      | .error e => .error e
      | .ok header => .ok (page.write lp.off (f header).write_to)

/-- The slot a new tuple goes to: the first recyclable one, else the end. -/
def choose_slot (page : Page) : ℕ := (first_fit_slot page).getD (slot_count page)

def stamp_deleted (page : Page) (tid : Tid) (xmax : TxnId) (curcid : ℕ) (updated : Bool) :
    Except HeapError Page :=
  stamp_header page tid fun header => header.stamp_deleted xmax curcid updated

def stamp_hot_update (page : Page) (tid : Tid) (xmax : TxnId) (curcid : ℕ) (new_tid : Tid) :
    Except HeapError Page :=
  stamp_header page tid fun header => header.stamp_hot_update xmax curcid new_tid

end HeapAM

/-- `redo.rs::stamp_deleted` on the header: as the online stamp, without `t_cid`. -/
def TupleHeader.redo_stamp_deleted (h : TupleHeader) (xmax : TxnId) (updated : Bool) :
    TupleHeader :=
  { h with
    t_xmax := xmax
    t_infomask :=
      (if updated then h.t_infomask ||| HEAP_UPDATED else h.t_infomask)
        &&& ~~~(HEAP_XMAX_LOCK_ONLY ||| HEAP_XMAX_IS_SHARE) }

/-- `redo.rs::stamp_hot_update` on the header. -/
def TupleHeader.redo_stamp_hot_update (h : TupleHeader) (new_tid : Tid) (xmax : TxnId) :
    TupleHeader :=
  { h with
    t_xmax := xmax
    t_infomask :=
      (h.t_infomask ||| HEAP_UPDATED) &&& ~~~(HEAP_XMAX_LOCK_ONLY ||| HEAP_XMAX_IS_SHARE)
    t_ctid := new_tid
    t_infomask2 := h.t_infomask2 ||| HEAP_HOT_UPDATED }

/-- `stamp_pd_lsn`, which both sides use. -/
def stamp_pd_lsn (page : Page) (lsn : Lsn) : Page := set_page_pd_lsn page (max lsn (page_pd_lsn page))

/-! ## Heap pages -/

/-- A page the heap has initialised: the page invariant, the chain pointer in its
special space, and tuples that have room for a header. -/
structure HeapWf (page : Page) : Prop extends Inv page where
  special_eq : (header page).pd_special = 8176
  sized : ∀ s, s < slot_count page → (raw_line_pointer page s).flags = .Normal →
    64 ≤ (raw_line_pointer page s).len

/-- The `t_cid` bytes of the live tuples. -/
def CidByte (page : Page) (i : ℕ) : Prop :=
  ∃ s, s < slot_count page ∧ (raw_line_pointer page s).flags = .Normal ∧
    (raw_line_pointer page s).off + 60 ≤ i ∧ i < (raw_line_pointer page s).off + 64

/-- Equal up to the `t_cid` of live tuples. -/
def Agree (p q : Page) : Prop := Buf.EqOff (CidByte p) p q

theorem Agree.refl (p : Page) : Agree p p := Buf.EqOff.refl _ p

section AgreeBasics

variable {p q : Page}

/-- The bytes that may differ are in the tuple area. -/
theorem CidByte.within (hp : HeapWf p) {i : ℕ} (h : CidByte p i) :
    (header p).pd_upper ≤ i ∧ i < (header p).pd_special := by
  obtain ⟨s, hs, hn, h1, h2⟩ := h
  have hw := hp.within s hs hn
  have hl := hp.sized s hs hn
  omega

/-- Pages that agree have the same bytes below the tuple area and above it. -/
theorem Agree.byte_eq (h : Agree p q) (hp : HeapWf p) {i : ℕ}
    (hi : i < (header p).pd_upper ∨ (header p).pd_special ≤ i) : q.byte i = p.byte i := by
  apply Buf.EqOff.byte_eq h
  intro hcid
  have := hcid.within hp
  omega

theorem Agree.header_eq (h : Agree p q) (hp : HeapWf p) : header q = header p := by
  have hb := hp.bounds
  exact header_congr fun i hi => h.byte_eq hp (by omega)

theorem Agree.slot_count_eq (h : Agree p q) (hp : HeapWf p) : slot_count q = slot_count p :=
  slot_count_of_header_eq (h.header_eq hp)

theorem Agree.raw_line_pointer_eq (h : Agree p q) (hp : HeapWf p) {s : ℕ} (hs : s < slot_count p) :
    raw_line_pointer q s = raw_line_pointer p s := by
  have hb := hp.bounds
  exact raw_line_pointer_congr fun i _ hi => h.byte_eq hp (by omega)

end AgreeBasics

/-! ## Layout

The invariant looks at three header fields and the line pointers only. -/

/-- The same bounds and the same line pointers. -/
structure SameLayout (p q : Page) : Prop where
  lower : (header q).pd_lower = (header p).pd_lower
  upper : (header q).pd_upper = (header p).pd_upper
  special : (header q).pd_special = (header p).pd_special
  pointer : ∀ s, s < slot_count p → raw_line_pointer q s = raw_line_pointer p s

variable {p p' q : Page}

theorem SameLayout.of_header_eq (h : header q = header p)
    (hlp : ∀ s, s < slot_count p → raw_line_pointer q s = raw_line_pointer p s) :
    SameLayout p q := ⟨by rw [h], by rw [h], by rw [h], hlp⟩

theorem SameLayout.slot_count_eq (h : SameLayout p q) :
    slot_count q = slot_count p := by
  change ((header q).pd_lower - 32) / 4 = ((header p).pd_lower - 32) / 4
  rw [h.lower]

theorem SameLayout.cidByte (h : SameLayout p q) {i : ℕ} (hi : CidByte p i) :
    CidByte q i := by
  obtain ⟨s, hs, hn, h1, h2⟩ := hi
  rw [← h.pointer s hs] at hn h1 h2
  exact ⟨s, by rw [h.slot_count_eq]; exact hs, hn, h1, h2⟩

theorem HeapWf.of_layout (hp : HeapWf p) (h : SameLayout p q) : HeapWf q := by
  have hcount := h.slot_count_eq
  refine ⟨⟨⟨?_, ?_, ?_, ?_, ?_⟩, ?_, ?_, ?_⟩, ?_, ?_⟩
  · rw [h.lower]; exact hp.lower_ge
  · rw [h.lower]; exact hp.aligned
  · rw [h.lower, h.upper]; exact hp.lower_le_upper
  · rw [h.upper, h.special]; exact hp.upper_le_special
  · rw [h.special]; exact hp.special_le
  · intro s hs
    rw [hcount] at hs
    rw [h.pointer s hs]
    exact hp.kinds s hs
  · intro s hs hn
    rw [hcount] at hs
    rw [h.pointer s hs] at hn ⊢
    rw [h.upper, h.special]
    exact hp.within s hs hn
  · intro s t hs ht hst hns hnt
    rw [hcount] at hs ht
    rw [h.pointer s hs] at hns ⊢
    rw [h.pointer t ht] at hnt ⊢
    exact hp.apart s t hs ht hst hns hnt
  · rw [h.special]; exact hp.special_eq
  · intro s hs hn
    rw [hcount] at hs
    rw [h.pointer s hs] at hn ⊢
    exact hp.sized s hs hn

/-! ## Stamps -/

/-- The two headers differ at most in `t_cid`. -/
def TupleHeader.SameButCid (h h' : TupleHeader) : Prop := ∃ c, h' = { h with t_cid := c }

namespace TupleHeader

variable {h h' : TupleHeader}

theorem SameButCid.stamp_deleted (heq : h.SameButCid h') (xmax : TxnId) (curcid : ℕ)
    (updated : Bool) :
    (h.stamp_deleted xmax curcid updated).SameButCid (h'.redo_stamp_deleted xmax updated) := by
  obtain ⟨c, rfl⟩ := heq
  exact ⟨c, rfl⟩

theorem SameButCid.stamp_hot_update (heq : h.SameButCid h') (xmax : TxnId) (curcid : ℕ)
    (new_tid : Tid) :
    (h.stamp_hot_update xmax curcid new_tid).SameButCid (h'.redo_stamp_hot_update new_tid xmax) := by
  obtain ⟨c, rfl⟩ := heq
  exact ⟨c, rfl⟩

/-- The last field is the command id. -/
theorem write_to_eq (h : TupleHeader) :
    h.write_to = (h.fields.take 11).flatten ++ leBytes 4 h.t_cid := by
  simp [write_to, fields]

/-- Headers that differ in `t_cid` only have the same first 60 bytes. -/
theorem SameButCid.getD_write_to (heq : h.SameButCid h') {j : ℕ} (hj : j < 60) :
    h'.write_to.getD j 0 = h.write_to.getD j 0 := by
  obtain ⟨c, rfl⟩ := heq
  have hlen : (h.fields.take 11).flatten.length = 60 := by simp [fields]
  have hcut : ({ h with t_cid := c } : TupleHeader).fields.take 11 = h.fields.take 11 := rfl
  rw [write_to_eq, write_to_eq, hcut, List.getD_eq_getElem?_getD, List.getD_eq_getElem?_getD,
    List.getElem?_append_left (by omega), List.getElem?_append_left (by omega)]

end TupleHeader

/-- A field of a slice is a field of the page. -/
theorem le_at_slice (page : Page) {base o w : ℕ} (h : o + w ≤ 64) :
    le_at (page.slice base 64) o w = page.readLe (base + o) w := by
  rw [le_at, Buf.readLe]
  congr 1
  apply List.ext_getElem
  · rw [List.length_take, List.length_drop, Buf.length_slice, Buf.length_slice]
    omega
  · intro i h1 h2
    rw [Buf.length_slice] at h2
    simp [Buf.slice, Nat.add_assoc]

/-- Reading a header from two places with the same first 60 bytes. -/
theorem read_from_slice_congr {base : ℕ} {header : TupleHeader}
    (h : ∀ i, base ≤ i → i < base + 60 → q.byte i = p.byte i)
    (hp : TupleHeader.read_from (p.slice base 64) = .ok header) :
    ∃ header', TupleHeader.read_from (q.slice base 64) = .ok header' ∧
      header.SameButCid header' := by
  have hfield : ∀ o w, o + w ≤ 60 →
      le_at (q.slice base 64) o w = le_at (p.slice base 64) o w := by
    intro o w how
    rw [le_at_slice q (by omega), le_at_slice p (by omega)]
    exact Buf.readLe_congr fun i h1 h2 => h i (by omega) (by omega)
  have htrace : (Vector.ofFn fun i : Fin 16 => (q.slice base 64).getD (24 + i.val) 0) =
      Vector.ofFn fun i : Fin 16 => (p.slice base 64).getD (24 + i.val) 0 := by
    congr 1
    funext i
    rw [Buf.getD_slice (by omega), Buf.getD_slice (by omega)]
    exact h _ (by omega) (by omega)
  unfold TupleHeader.read_from at hp ⊢
  simp only [Buf.length_slice, lt_irrefl, if_false] at hp ⊢
  rw [hfield 50 2 (by omega)]
  split_ifs at hp ⊢ with hpad
  refine ⟨_, rfl, le_at (q.slice base 64) 60 4, ?_⟩
  rw [← Except.ok.inj hp, htrace, hfield 0 8 (by omega), hfield 8 8 (by omega),
    hfield 16 8 (by omega), hfield 40 8 (by omega), hfield 48 2 (by omega), hfield 52 2 (by omega),
    hfield 54 2 (by omega), hfield 56 2 (by omega), hfield 58 2 (by omega)]

variable {tid : Tid} {f : TupleHeader → TupleHeader}

/-- What a stamp that succeeded has found, and the page it produces. -/
theorem HeapAM.stamp_header_eq_ok :
    HeapAM.stamp_header p tid f = .ok q ↔
      Geometry p ∧ tid.slot_id < slot_count p ∧
        (raw_line_pointer p tid.slot_id).flags = .Normal ∧
        ∃ h, TupleHeader.read_from (p.slice (raw_line_pointer p tid.slot_id).off 64) = .ok h ∧
          q = p.write (raw_line_pointer p tid.slot_id).off (f h).write_to := by
  unfold stamp_header
  constructor
  · intro hok
    split at hok
    · cases hok
    · next lp hl =>
      obtain ⟨hg, hs, rfl⟩ := line_pointer_eq_ok.mp hl
      split_ifs at hok with hn
      cases hr : TupleHeader.read_from (p.slice (raw_line_pointer p tid.slot_id).off 64) with
      | error e => simp [hr] at hok
      | ok h =>
        simp only [hr] at hok
        exact ⟨hg, hs, not_not.mp hn, h, rfl, (Except.ok.inj hok).symm⟩
  · rintro ⟨hg, hs, hn, h, hr, rfl⟩
    rw [line_pointer_eq_ok.mpr ⟨hg, hs, rfl⟩]
    simp [hn, hr]

variable {slot : ℕ}

/-- A write inside the region of a live tuple keeps the layout and the other
tuples. -/
theorem HeapWf.tuple_write (hp : HeapWf p) {off : ℕ} {bs : List UInt8} (hs : slot < slot_count p)
    (hn : (raw_line_pointer p slot).flags = .Normal) (hlo : (raw_line_pointer p slot).off ≤ off)
    (hhi : off + bs.length ≤ (raw_line_pointer p slot).off + (raw_line_pointer p slot).len) :
    SameLayout p (p.write off bs) ∧
      (∀ s, s ≠ slot → content (p.write off bs) s = content p s) := by
  have hb := hp.bounds
  have hw := hp.within slot hs hn
  have hlayout : SameLayout p (p.write off bs) :=
    .of_header_eq (header_write (by omega))
      fun s hs' => raw_line_pointer_write (.inl (by omega))
  refine ⟨hlayout, fun s hne => ?_⟩
  have hcount := hlayout.slot_count_eq
  by_cases hs' : s < slot_count p
  · refine content_congr (by rw [hcount]) (hlayout.pointer s hs') fun i hi1 hi2 _ hn' => ?_
    have hapart := hp.apart s slot hs' hs hne hn' hn
    exact Buf.byte_write_of_disjoint (by omega)
  · rw [content_eq_none (not_lt.mp hs'), content_eq_none (by rw [hcount]; exact not_lt.mp hs')]

/-- An online stamp and the redo stamp of the same change. -/
theorem Agree.stamp_header (hp : HeapWf p) (hpq : Agree p q) {g : TupleHeader → TupleHeader}
    (hfg : ∀ h h', h.SameButCid h' → (f h).SameButCid (g h'))
    (hf : HeapAM.stamp_header p tid f = .ok p') :
    HeapWf p' ∧ ∃ q', HeapAM.stamp_header q tid g = .ok q' ∧ Agree p' q' := by
  obtain ⟨-, hs, hn, h, hread, rfl⟩ := HeapAM.stamp_header_eq_ok.mp hf
  have hsize := hp.sized _ hs hn
  have hlpq := hpq.raw_line_pointer_eq hp hs
  obtain ⟨hlayout, -⟩ := @HeapWf.tuple_write p tid.slot_id hp _ (f h).write_to hs hn
    (le_refl _) (by rw [TupleHeader.length_write_to]; omega)
  -- the header of the other page differs in `t_cid` only
  obtain ⟨h', hread', hsame⟩ := @read_from_slice_congr p q _ h (fun i h1 h2 => by
    apply Buf.EqOff.byte_eq hpq
    rintro ⟨s, hs', hn', h3, h4⟩
    by_cases hss : s = tid.slot_id
    · subst hss
      omega
    · have := hp.apart s tid.slot_id hs' hs hss hn' hn
      have := hp.sized s hs' hn'
      omega) hread
  refine ⟨hp.of_layout hlayout, q.write (raw_line_pointer q tid.slot_id).off (g h').write_to,
    ?_, ?_⟩
  · rw [HeapAM.stamp_header_eq_ok]
    refine ⟨hp.toGeometry.of_header_eq (hpq.header_eq hp), ?_, ?_, h', ?_, rfl⟩
    · rw [hpq.slot_count_eq hp]
      exact hs
    · rw [hlpq]
      exact hn
    · rw [hlpq]
      exact hread'
  · rw [hlpq]
    refine (Buf.EqOff.mono hpq fun i => hlayout.cidByte).write (by simp) fun j hj => ?_
    rw [TupleHeader.length_write_to] at hj
    by_cases h60 : j < 60
    · exact .inl ((hfg h h' hsame).getD_write_to h60)
    · exact .inr (hlayout.cidByte ⟨tid.slot_id, hs, hn, by omega, by omega⟩)

/-! ## Initialisation, insertion, the chain pointer and the page LSN -/

/-- A page of the heap: fresh, that is all zero, or initialised. -/
def PageOk (page : Page) : Prop := page = Page.zero ∨ HeapWf page

theorem slot_count_zero : slot_count Page.zero = 0 := by decide

/-- A fresh page agrees with itself only. -/
theorem Agree.zero (h : Agree Page.zero q) : q = Page.zero := by
  apply Buf.ext_byte
  intro i _
  apply Buf.EqOff.byte_eq h
  rintro ⟨s, hs, -⟩
  rw [slot_count_zero] at hs
  exact absurd hs (Nat.not_lt_zero s)

theorem init_with_special_heapWf (p : Page) : HeapWf (init_with_special p HEAP_SPECIAL_SIZE) := by
  obtain ⟨hinv, hcount⟩ := @init_with_special_inv HEAP_SPECIAL_SIZE p (by decide)
  refine ⟨hinv, ?_, fun s hs => ?_⟩
  · rw [@header_init_with_special HEAP_SPECIAL_SIZE p (by decide)]
    rfl
  · rw [hcount] at hs
    exact absurd hs (Nat.not_lt_zero s)

theorem HeapWf.init_eq (hp : HeapWf p) :
    init_if_fresh_with_special p HEAP_SPECIAL_SIZE = p := by
  have hb := hp.bounds
  rw [init_if_fresh_with_special, if_neg (by omega)]

theorem init_zero_eq :
    init_if_fresh_with_special Page.zero HEAP_SPECIAL_SIZE
      = init_with_special Page.zero HEAP_SPECIAL_SIZE := by
  rw [init_if_fresh_with_special, if_pos (by decide)]

theorem PageOk.init (hp : PageOk p) :
    HeapWf (init_if_fresh_with_special p HEAP_SPECIAL_SIZE) := by
  rcases hp with rfl | hp
  · rw [init_zero_eq]
    exact init_with_special_heapWf _
  · rw [hp.init_eq]
    exact hp

/-- A page whose header passes the check is initialised. -/
theorem PageOk.heapWf (hp : PageOk p) (hg : Geometry p) : HeapWf p := by
  rcases hp with rfl | hp
  · exact absurd hg.lower_ge (by decide)
  · exact hp

theorem Agree.init (hp : PageOk p) (h : Agree p q) :
    Agree (init_if_fresh_with_special p HEAP_SPECIAL_SIZE)
      (init_if_fresh_with_special q HEAP_SPECIAL_SIZE) := by
  rcases hp with rfl | hp
  · rw [h.zero]
    exact Agree.refl _
  · have hq : init_if_fresh_with_special q HEAP_SPECIAL_SIZE = q := by
      have hb := hp.bounds
      rw [init_if_fresh_with_special, h.header_eq hp, if_neg (by omega)]
    rw [hp.init_eq, hq]
    exact h

/-- The writes of an insertion, on two pages with the same header. -/
theorem eqOff_place_tuple {X : ℕ → Prop} (h : Buf.EqOff X p q) (hd : PageHeader) (slot : ℕ)
    (appending : Bool) (bytes : List UInt8) :
    Buf.EqOff X (place_tuple p hd slot appending bytes) (place_tuple q hd slot appending bytes) := by
  unfold place_tuple
  refine Buf.EqOff.write_same ?_ _ _
  have hbase := (h.write_same (hd.pd_upper - bytes.length) bytes).write_same (32 + slot * 4)
    (LinePointer.new (hd.pd_upper - bytes.length) .Normal bytes.length).to_le_bytes
  cases appending with
  | false => exact hbase
  | true => exact hbase.write_same _ _

variable {bytes : List UInt8}

theorem HeapWf.place_tuple (hp : HeapWf p) (hf : Fits p slot bytes) (hlen : 64 ≤ bytes.length) :
    HeapWf (place_tuple p (header p) slot (decide (slot = slot_count p)) bytes) ∧
      ∀ i, CidByte p i →
        CidByte (SlottedPage.place_tuple p (header p) slot (decide (slot = slot_count p)) bytes) i := by
  obtain ⟨hinv, -, hcount, hspecial, -⟩ := place_tuple_spec hp.toInv hf
  obtain ⟨-, hself, hother, -, -⟩ := place_tuple_frame hf
  have hb := hp.bounds
  have hroom := hf.room
  have hnew : bytes.length < 2 ^ 15 := by split_ifs at hroom <;> omega
  have hupper : (header p).pd_upper - bytes.length < 2 ^ 15 := by omega
  have hold : ∀ s, s < slot_count p → s ≠ slot → raw_line_pointer
      (SlottedPage.place_tuple p (header p) slot (decide (slot = slot_count p)) bytes) s
        = raw_line_pointer p s := by
    intro s hs hne
    apply hother s hne
    split_ifs at hroom <;> omega
  refine ⟨⟨hinv, by rw [hspecial]; exact hp.special_eq, fun s hs hn => ?_⟩, ?_⟩
  · by_cases hss : s = slot
    · subst hss
      rw [hself, LinePointer.new_len _ hupper hnew]
      exact hlen
    · have hsp : s < slot_count p := by
        have hslot := hf.slot_le
        rw [hcount] at hs
        split_ifs at hs <;> omega
      rw [hold s hsp hss] at hn ⊢
      exact hp.sized s hsp hn
  · rintro i ⟨s, hs, hn, h5, h6⟩
    have hne : s ≠ slot := by
      rintro rfl
      rw [hf.recycles (by omega)] at hn
      exact absurd hn (by decide)
    refine ⟨s, by rw [hcount]; omega, ?_, ?_, ?_⟩
    · rw [hold s hs hne]
      exact hn
    · rw [hold s hs hne]
      exact h5
    · rw [hold s hs hne]
      exact h6

theorem Agree.add_tuple_at (hp : HeapWf p) (hpq : Agree p q) (hlen : 64 ≤ bytes.length)
    (h : add_tuple_at p slot bytes = .ok p') :
    HeapWf p' ∧ ∃ q', SlottedPage.add_tuple_at q slot bytes = .ok q' ∧ Agree p' q' := by
  obtain ⟨hf, rfl⟩ := add_tuple_at_eq_ok.mp h
  obtain ⟨hwf, hcid⟩ := hp.place_tuple hf hlen
  have hhdr := hpq.header_eq hp
  have hcount := hpq.slot_count_eq hp
  refine ⟨hwf, place_tuple q (header q) slot (decide (slot = slot_count q)) bytes, ?_, ?_⟩
  · rw [add_tuple_at_eq_ok]
    refine ⟨⟨hf.geometry.of_header_eq hhdr, hf.nonempty, by rw [hhdr]; exact hf.not_too_large,
      by rw [hcount]; exact hf.slot_le, fun hne => ?_, ?_⟩, rfl⟩
    · rw [hcount] at hne
      rw [hpq.raw_line_pointer_eq hp (lt_of_le_of_ne hf.slot_le hne)]
      exact hf.recycles hne
    · rw [hhdr, hcount]
      exact hf.room
  · rw [hhdr, hcount]
    exact eqOff_place_tuple (Buf.EqOff.mono hpq hcid) _ _ _ _

theorem Agree.set_next_page (hp : HeapWf p) (hpq : Agree p q) {next : Option PageId}
    (h : set_next_page p next = .ok p') :
    HeapWf p' ∧ ∃ q', SlottedPage.set_next_page q next = .ok q' ∧ Agree p' q' := by
  obtain ⟨⟨-, hsp⟩, rfl⟩ := set_next_page_eq_ok.mp h
  have hb := hp.bounds
  have hlayout : SameLayout p (p.writeLe 8176 8 (next.getD 0)) :=
    .of_header_eq (header_congr fun i hi => Buf.byte_writeLe_of_disjoint (by omega))
      fun s hs => raw_line_pointer_congr fun i _ hi => Buf.byte_writeLe_of_disjoint (by omega)
  refine ⟨hp.of_layout hlayout, q.writeLe 8176 8 (next.getD 0), ?_, ?_⟩
  · rw [set_next_page_eq_ok]
    exact ⟨⟨hp.toGeometry.of_header_eq (hpq.header_eq hp), by rw [hpq.header_eq hp]; exact hsp⟩, rfl⟩
  · exact (Buf.EqOff.mono hpq fun i => hlayout.cidByte).write_same _ _

theorem page_pd_lsn_set {lsn : Lsn} (h : lsn < 256 ^ 8) :
    page_pd_lsn (set_page_pd_lsn p lsn) = lsn := Buf.readLe_writeLe_self (by omega) h

theorem page_pd_lsn_lt (p : Page) : page_pd_lsn p < 256 ^ 8 := p.readLe_lt _ _

theorem page_pd_lsn_stamp {lsn : Lsn} (h : lsn < 256 ^ 8) :
    page_pd_lsn (stamp_pd_lsn p lsn) = max lsn (page_pd_lsn p) :=
  page_pd_lsn_set (max_lt h (page_pd_lsn_lt p))

theorem sameLayout_set_pd_lsn (p : Page) (lsn : Lsn) : SameLayout p (set_page_pd_lsn p lsn) := by
  have hfield : ∀ off, 8 ≤ off → (set_page_pd_lsn p lsn).readLe off 2 = p.readLe off 2 :=
    fun off hoff => Buf.readLe_writeLe_of_disjoint (by omega)
  exact ⟨hfield 14 (by omega), hfield 16 (by omega), hfield 18 (by omega),
    fun s _ => raw_line_pointer_congr fun i hi _ => Buf.byte_writeLe_of_disjoint (by omega)⟩

/-- Every `t_cid` byte is past the page's LSN, whatever the page holds. -/
theorem Agree.pd_lsn_eq (h : Agree p q) : page_pd_lsn q = page_pd_lsn p := by
  refine Buf.readLe_congr fun i hlo hi => ?_
  refine Buf.EqOff.byte_eq h ?_
  rintro ⟨slot, -, -, hoff, -⟩
  omega

theorem HeapWf.stamp_pd_lsn (hp : HeapWf p) (lsn : Lsn) :
    HeapWf (stamp_pd_lsn p lsn) := hp.of_layout (sameLayout_set_pd_lsn p _)

theorem Agree.stamp_pd_lsn (h : Agree p q) (lsn : Lsn) :
    Agree (stamp_pd_lsn p lsn) (stamp_pd_lsn q lsn) := by
  unfold Ams.stamp_pd_lsn
  rw [h.pd_lsn_eq]
  exact (Buf.EqOff.mono h fun i => (sameLayout_set_pd_lsn p _).cidByte).write_same _ _

theorem page_pd_lsn_of_header_eq (h : header q = header p) :
    page_pd_lsn q = page_pd_lsn p := congrArg PageHeader.pd_lsn h

theorem add_tuple_at_pd_lsn (h : add_tuple_at p slot bytes = .ok q) : page_pd_lsn q = page_pd_lsn p := by
  obtain ⟨hf, rfl⟩ := add_tuple_at_eq_ok.mp h
  obtain ⟨hhdr, -⟩ := place_tuple_frame hf
  exact congrArg PageHeader.pd_lsn hhdr

theorem set_next_page_pd_lsn {next : Option PageId} (h : set_next_page p next = .ok q) :
    page_pd_lsn q = page_pd_lsn p := by
  obtain ⟨-, rfl⟩ := set_next_page_eq_ok.mp h
  exact Buf.readLe_writeLe_of_disjoint (by omega)

variable {dead_slots : List ℕ}

theorem compact_pd_lsn (hp : Inv p) (h : compact p dead_slots = .ok q) :
    page_pd_lsn q = page_pd_lsn p := by
  obtain ⟨q', hok, hcomp⟩ := compact_spec hp (compact_check h)
  obtain rfl : q = q' := Except.ok.inj (h.symm.trans hok)
  exact congrArg PageHeader.pd_lsn hcomp.header_eq

/-- A stamp that succeeds keeps the layout and the page LSN. -/
theorem HeapWf.stamp_header (hp : HeapWf p) (h : HeapAM.stamp_header p tid f = .ok q) :
    SameLayout p q ∧ page_pd_lsn q = page_pd_lsn p := by
  obtain ⟨-, hs, hn, hd, -, rfl⟩ := HeapAM.stamp_header_eq_ok.mp h
  have hsize := hp.sized _ hs hn
  have hw := hp.within _ hs hn
  have hb := hp.bounds
  obtain ⟨hlayout, -⟩ := @HeapWf.tuple_write p tid.slot_id hp _ (f hd).write_to hs hn
    (le_refl _) (by rw [TupleHeader.length_write_to]; omega)
  exact ⟨hlayout, page_pd_lsn_of_header_eq (header_write (by omega))⟩

/-- Whether an insertion fits is a matter of layout. -/
theorem Fits.of_layout (h : SameLayout p q) (hf : Fits p slot bytes) : Fits q slot bytes := by
  have hcount := h.slot_count_eq
  obtain ⟨⟨h1, h2, h3, h4, h5⟩, h6, h7, h8, h9, h10⟩ := hf
  refine ⟨⟨by rwa [h.lower], by rwa [h.lower], by rwa [h.lower, h.upper],
    by rwa [h.upper, h.special], by rwa [h.special]⟩, h6, by rwa [h.special], by rwa [hcount],
    fun hne => ?_, by rwa [h.lower, h.upper, hcount]⟩
  rw [hcount] at hne
  rw [h.pointer slot (lt_of_le_of_ne h8 hne)]
  exact h9 hne

/-- The slot chosen for a new tuple takes it. -/
theorem HeapWf.choose_slot_fits (hp : HeapWf p) (hne : bytes.length ≠ 0)
    (hroom : bytes.length + 4 ≤ free_space p) :
    Fits p (HeapAM.choose_slot p) bytes := by
  have hb := hp.bounds
  have h4 := hp.special_eq
  have hfree : free_space p = (header p).pd_upper - (header p).pd_lower := rfl
  have hslot : HeapAM.choose_slot p ≤ slot_count p ∧ (HeapAM.choose_slot p ≠ slot_count p →
      (raw_line_pointer p (HeapAM.choose_slot p)).flags = .Unused) := by
    unfold HeapAM.choose_slot
    cases hfirst : first_fit_slot p with
    | none => exact ⟨le_refl _, fun h => absurd rfl h⟩
    | some slot =>
      simp only [first_fit_slot] at hfirst
      have hflag := List.find?_some hfirst
      have hmem := List.mem_range.mp (List.mem_of_find?_eq_some hfirst)
      rw [Option.getD_some]
      exact ⟨by omega, fun _ => of_decide_eq_true hflag⟩
  refine ⟨hp.toGeometry, hne, by omega, hslot.1, hslot.2, ?_⟩
  split_ifs <;> omega

/-! ## Compaction

Compaction clears the tuple area, so after the first phase the two pages are equal.
The differing bytes come back with the staged tuples, at their new places. -/

/-- Two copies of one tuple, equal up to `t_cid`. -/
structure SameStaged (e f : Staged) : Prop where
  slot : f.slot = e.slot
  flags : f.flags = e.flags
  len : f.len = e.len
  length : f.bytes.length = e.bytes.length
  bytes : ∀ j, j < e.bytes.length → f.bytes.getD j 0 = e.bytes.getD j 0 ∨ (60 ≤ j ∧ j < 64)

/-- The `t_cid` positions of tuples put back from `cursor` down. -/
def CidPlaced : ℕ → List Staged → ℕ → Prop
  | _, [], _ => False
  | cursor, e :: rest, i =>
    (cursor - e.len + 60 ≤ i ∧ i < cursor - e.len + 64) ∨ CidPlaced (cursor - e.len) rest i

theorem restage_agree {l l' : List Staged} (h : List.Forall₂ SameStaged l l') :
    ∀ {X : ℕ → Prop} {p q : Page} {cursor : ℕ}, Buf.EqOff X p q →
      (restage q cursor l').2 = (restage p cursor l).2 ∧
      Buf.EqOff (fun i => X i ∨ CidPlaced cursor l i) (restage p cursor l).1
        (restage q cursor l').1 := by
  induction h with
  | nil =>
    intro X p q cursor hpq
    exact ⟨rfl, hpq.mono fun i => Or.inl⟩
  | @cons e f rest rest' hef _ ih =>
    intro X p q cursor hpq
    -- one turn of the loop on both pages
    have hturn : Buf.EqOff
        (fun i => X i ∨ (cursor - e.len + 60 ≤ i ∧ i < cursor - e.len + 64))
        (set_line_pointer (p.write (cursor - e.len) e.bytes) e.slot
          (LinePointer.new (cursor - e.len) e.flags e.len))
        (set_line_pointer (q.write (cursor - e.len) f.bytes) e.slot
          (LinePointer.new (cursor - e.len) e.flags e.len)) := by
      apply Buf.EqOff.write_same
      refine (hpq.mono fun i => Or.inl).write hef.length fun j hj => ?_
      rcases hef.bytes j hj with hb | hb
      · exact .inl hb
      · exact .inr (.inr ⟨by omega, by omega⟩)
    obtain ⟨hcursor, hpages⟩ := @ih _ _ _ (cursor - e.len) hturn
    simp only [restage, hef.slot, hef.flags, hef.len]
    refine ⟨hcursor, hpages.mono fun i hi => ?_⟩
    rcases hi with (hi | hi) | hi
    · exact .inl hi
    · exact .inr (.inl hi)
    · exact .inr (.inr hi)

/-- The positions are those of the line pointers the loop writes. -/
theorem cidPlaced_line_pointer {lower : ℕ} (hlower : 32 ≤ lower) {l : List Staged} :
    ∀ {p : Page} {cursor i : ℕ}, cursor ≤ 8192 →
      (∀ e ∈ l, 36 + e.slot * 4 ≤ lower ∧ e.bytes.length = e.len) →
      (l.map Staged.slot).Nodup → lower + (l.map Staged.len).sum ≤ cursor →
      CidPlaced cursor l i → ∃ e ∈ l,
        (raw_line_pointer (restage p cursor l).1 e.slot).off + 60 ≤ i ∧
          i < (raw_line_pointer (restage p cursor l).1 e.slot).off + 64 := by
  induction l with
  | nil =>
    intro p cursor i _ _ _ _ h
    exact absurd h id
  | cons e rest ih =>
    intro p cursor i hcur hwf hnd hsum h
    obtain ⟨hslot, hlen⟩ := hwf e (.head _)
    obtain ⟨hfresh, hnd'⟩ := List.nodup_cons.mp hnd
    rw [List.map_cons, List.sum_cons] at hsum
    have hwf' : ∀ f ∈ rest, 36 + f.slot * 4 ≤ lower ∧ f.bytes.length = f.len :=
      fun f hf => hwf f (.tail _ hf)
    obtain ⟨p', hp'⟩ : ∃ p', p' = set_line_pointer (p.write (cursor - e.len) e.bytes) e.slot
        (LinePointer.new (cursor - e.len) e.flags e.len) := ⟨_, rfl⟩
    have hunfold : restage p cursor (e :: rest) = restage p' (cursor - e.len) rest := by
      rw [hp']; rfl
    rw [hunfold]
    rcases h with h | h
    · -- the later turns leave this line pointer
      refine ⟨e, (.head _), ?_⟩
      have hrest := @restage_spec lower hlower rest p' (cursor - e.len) (by omega) hwf' hnd'
        (by omega)
      rw [hrest.other e.slot hfresh (by omega), hp',
        raw_line_pointer_set_self (by omega) (LinePointer.new_bits_lt _ (by omega) (by omega)),
        LinePointer.new_off _ (by omega) (by omega)]
      exact h
    · obtain ⟨f, hf, hoff⟩ := @ih p' (cursor - e.len) i (by omega) hwf' hnd' (by omega) h
      exact ⟨f, List.mem_cons_of_mem _ hf, hoff⟩

/-- The kill loop on two pages with the same header and line pointers. -/
theorem kill_slots_agree {X : ℕ → Prop} :
    ∀ {p q p' q' : Page}, Geometry p → (∀ i, X i → (header p).pd_lower ≤ i) →
      Buf.EqOff X p q → kill_slots p dead_slots = .ok p' → kill_slots q dead_slots = .ok q' →
      Buf.EqOff X p' q' := by
  induction dead_slots with
  | nil =>
    intro p q p' q' _ _ hpq hp' hq'
    rw [← Except.ok.inj hp', ← Except.ok.inj hq']
    exact hpq
  | cons s rest ih =>
    intro p q p' q' hg hX hpq hp' hq'
    have hb := hg.bounds
    have hbelow : ∀ i, i < (header p).pd_lower → q.byte i = p.byte i := fun i hi =>
      hpq.byte_eq fun hx => absurd hi (not_lt.mpr (hX i hx))
    have hhdr : header q = header p := header_congr fun i hi => hbelow i (by omega)
    have hgq : Geometry q := hg.of_header_eq hhdr
    rw [kill_slots, hg.line_pointer] at hp'
    rw [kill_slots, hgq.line_pointer, slot_count_of_header_eq hhdr] at hq'
    by_cases hs : s < slot_count p
    · have hlp : raw_line_pointer q s = raw_line_pointer p s :=
        raw_line_pointer_congr fun i _ hi => hbelow i (by omega)
      rw [if_pos hs] at hp' hq'
      simp only [hlp] at hp' hq'
      refine ih (hg.of_header_eq (header_set_line_pointer s _)) ?_ (hpq.write_same _ _) hp' hq'
      rw [header_set_line_pointer]
      exact hX
    · rw [if_neg hs] at hp'
      simp at hp'

theorem Agree.sameLayout (hp : HeapWf p) (h : Agree p q) : SameLayout p q :=
  .of_header_eq (h.header_eq hp) fun _ hs => h.raw_line_pointer_eq hp hs

/-- The same slots survive on both pages, with the same bytes up to `t_cid`. -/
theorem Agree.same_survivors (hp : HeapWf p) (hpq : Agree p q) (dead_slots : List ℕ) :
    List.Forall₂ SameStaged (survivors p dead_slots) (survivors q dead_slots) := by
  unfold survivors
  rw [hpq.slot_count_eq hp]
  have hall : ∀ s ∈ List.range (slot_count p), s < slot_count p := fun s => List.mem_range.mp
  generalize List.range (slot_count p) = slots at hall
  induction slots with
  | nil => exact List.Forall₂.nil
  | cons s rest ih =>
    have hs := hall s (.head _)
    have hrest := ih fun t ht => hall t (.tail _ ht)
    have hlp := hpq.raw_line_pointer_eq hp hs
    by_cases hskip : (raw_line_pointer p s).flags = .Unused ∨ s ∈ dead_slots
    · rw [List.filterMap_cons_none (by rw [stage_of, if_pos hskip]),
        List.filterMap_cons_none (by rw [stage_of, hlp, if_pos hskip])]
      exact hrest
    · have hn : (raw_line_pointer p s).flags = .Normal :=
        (hp.not_unused_iff hs).mp fun h => hskip (.inl h)
      rw [List.filterMap_cons_some (by rw [stage_of, if_neg hskip]),
        List.filterMap_cons_some (by rw [stage_of, hlp, if_neg hskip])]
      refine List.Forall₂.cons ⟨rfl, rfl, rfl, by simp, fun j hj => ?_⟩ hrest
      simp only [Buf.length_slice] at hj
      simp only
      rw [Buf.getD_slice hj, Buf.getD_slice hj]
      -- a differing byte of this tuple is in its own `t_cid`
      rcases hpq ((raw_line_pointer p s).off + j) with hb | ⟨t, ht, hnt, h1, h2⟩
      · exact .inl hb
      · right
        by_cases hts : t = s
        · subst hts
          exact ⟨by omega, by omega⟩
        · have := hp.apart t s ht hs hts hnt hn
          have := hp.sized t ht hnt
          omega

theorem HeapWf.compacted (hp : HeapWf p) {c : ℕ} (hq : Packed p dead_slots q c) : HeapWf q := by
  have hcomp := hq.compacted hp.toInv
  refine ⟨hcomp.inv, by rw [hq.header_eq]; exact hp.special_eq, fun s hs hn => ?_⟩
  rw [hq.slot_count_eq] at hs
  obtain ⟨e, he, rfl⟩ := hq.survivor hs hn
  obtain ⟨hes, -, -, -, hel, -⟩ := survivors_spec he
  rw [(hq.moved e he).2.1, hel]
  exact hp.sized e.slot hes (hp.survivor_normal he)

/-- **Compaction respects agreement.** -/
theorem Agree.compact (hp : HeapWf p) (hpq : Agree p q) (h : compact p dead_slots = .ok p') :
    HeapWf p' ∧ ∃ q', SlottedPage.compact q dead_slots = .ok q' ∧ Agree p' q' := by
  have hq : HeapWf q := hp.of_layout (hpq.sameLayout hp)
  have hhdr := hpq.header_eq hp
  have h0 := hp.lower_ge
  have h1 := hp.lower_eq
  have h2 := hp.lower_le_upper
  have h3 := hp.upper_le_special
  have hsum := survivors_sum_le hp.toInv dead_slots
  have hcheck := compact_check h
  have hcheck' : check_dead_slots q none dead_slots = .ok () := by
    rw [check_dead_slots_iff hp.toGeometry] at hcheck
    rw [check_dead_slots_iff hq.toGeometry]
    refine ⟨hcheck.1, hcheck.2.1, fun s hs => ?_⟩
    rw [hpq.slot_count_eq hp, hpq.raw_line_pointer_eq hp (hcheck.2.2 s hs).1]
    exact hcheck.2.2 s hs
  obtain ⟨p₁, p₂, p₃, c, hok, hphases⟩ := compact_phases (hp.compactable _) hcheck
  obtain ⟨q₁, q₂, q₃, c', hok', hphases'⟩ := compact_phases (hq.compactable _) hcheck'
  obtain rfl : p' = set_pd_upper p₃ c := Except.ok.inj (h.symm.trans hok)
  have hpacked := hphases.packed (hp.compactable _)
  have hwf := hp.compacted hpacked
  refine ⟨hwf, set_pd_upper q₃ c', hok', ?_⟩
  -- equal once cleared, then equal up to the new places of the `t_cid` bytes
  have hclear : q₁ = p₁ := by
    rw [hphases.cleared, hphases'.cleared, hhdr]
    exact Buf.EqOff.fill_eq hpq 0 hp.special_le fun i hi => hi.within hp
  obtain ⟨hcursor, hpages⟩ := @restage_agree _ _ (hpq.same_survivors hp dead_slots) (fun _ => False)
    p₁ q₁ (header p).pd_special (by rw [hclear]; exact Buf.EqOff.refl _ _)
  have hre' := hphases'.restage_eq
  rw [hhdr] at hre'
  rw [hphases.restage_eq, hre'] at hcursor hpages
  obtain rfl : c' = c := hcursor
  have hplaced : ∀ i, False ∨ CidPlaced (header p).pd_special (survivors p dead_slots) i →
      ∃ e ∈ survivors p dead_slots, (raw_line_pointer p₂ e.slot).off + 60 ≤ i ∧
        i < (raw_line_pointer p₂ e.slot).off + 64 := by
    rintro i (hi | hi)
    · exact absurd hi id
    · have := @cidPlaced_line_pointer _ h0 (survivors p dead_slots) p₁ _ i hp.special_le
        (fun e he => by
          obtain ⟨hs, -, -, -, -, -, hl⟩ := survivors_spec he
          exact ⟨by omega, hl⟩) (survivors_slots_nodup p dead_slots) (by omega) hi
      rwa [hphases.restage_eq] at this
  have hcsum := hphases.restaged.cursor_eq
  have hkill := kill_slots_agree (hp.toGeometry.of_header_eq hphases.header₂) (fun i hi => by
    obtain ⟨e, he, hlo, -⟩ := hplaced i hi
    have hmoved := (hphases.restaged.moved e he).2.2.1
    rw [hphases.header₂]
    omega) hpages hphases.kill_eq hphases'.kill_eq
  refine (hkill.mono fun i hi => ?_).write_same _ _
  obtain ⟨e, he, hlo, hhi⟩ := hplaced i hi
  obtain ⟨hes, hnd, -, hflags, -⟩ := survivors_spec he
  have hlp : raw_line_pointer (set_pd_upper p₃ c') e.slot = raw_line_pointer p₂ e.slot := by
    rw [raw_line_pointer_set_pd_upper, hphases.killed.other e.slot hnd]
  refine ⟨e.slot, by rw [hpacked.slot_count_eq]; exact hes, ?_, by rw [hlp]; exact hlo,
    by rw [hlp]; exact hhi⟩
  rw [(hpacked.moved e he).1, hflags, hp.survivor_normal he]

end Ams
