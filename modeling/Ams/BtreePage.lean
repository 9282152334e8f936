/-
The B+Tree page: `pg-am-btree/src/page.rs`, the entry accessors and
`apply_split_copy` of `pg-am-btree/src/index.rs`, byte for byte.

A B+Tree page is a slotted page with sixteen bytes of special space for the two
sibling pointers, and the level and the flags in the upper byte of `pd_flags`. Its
line pointers are kept sorted by entry, so an insertion shifts the array; a removal
shrinks the array and leaves the entry's bytes behind. Only the rebuild of a split
reclaims them.

What the file proves is what the log needs of these functions. The flags sit in two
bytes that the entry operations neither read nor write, so changing an entry and
clearing a flag commute. And the left half of a copy is a function of the left page
alone.
-/
import Ams.HeapPage

set_option autoImplicit false

namespace Ams

open Ams.Lib SlottedPage

/-- The errors of the B+Tree access method. `Heap` wraps an error of the slotted
page; `Storage` is the metadata corruption a redo handler reports itself. -/
inductive BTreeError where
  | PageFull (needed available : ℕ)
  | KeyTooLarge (len : ℕ)
  | DuplicateKey
  | EntryNotFound
  | Corrupted (msg : String)
  | InvalidArgument (msg : String)
  | Unsupported (msg : String)
  | Heap (e : HeapError)
  | Storage (msg : String)
deriving DecidableEq, Repr

/-- Special-space size of every B+Tree page. -/
abbrev BTREE_SPECIAL_SIZE : ℕ := 16

abbrev BTREE_FLAG_LEAF : ℕ := 0x1
abbrev BTREE_FLAG_ROOT : ℕ := 0x2
abbrev BTREE_FLAG_DELETED : ℕ := 0x4
abbrev BTREE_FLAG_SPLIT_INCOMPLETE : ℕ := 0x8

abbrev LEAF_TRAILER_SIZE : ℕ := 10
abbrev INTERNAL_TRAILER_SIZE : ℕ := 8

namespace BtreePage

/-! ## Level, flags and siblings -/

/-- Write the level, bits 8 to 11 of `pd_flags`. -/
def set_level (page : Page) (level : ℕ) : Page :=
  page.writeLe 12 2 ((page.readLe 12 2 &&& 0xF0FF) ||| (level <<< 8))

/-- Write the flags, bits 12 to 15 of `pd_flags`. -/
def set_flags (page : Page) (flags : ℕ) : Page :=
  page.writeLe 12 2 ((page.readLe 12 2 &&& 0x0FFF) ||| ((flags <<< 12) % 2 ^ 16))

def init (page : Page) (level flags : ℕ) : Page :=
  set_flags (set_level (init_with_special page BTREE_SPECIAL_SIZE) level) flags

def init_if_fresh (page : Page) (level flags : ℕ) : Page :=
  if (header page).pd_upper = 0 then init page level flags else page

/-- The slotted-page geometry, with exactly the B+Tree's special space. -/
def checked_header (page : Page) : Except BTreeError PageHeader :=
  let header := header page
  let lower := header.pd_lower
  let upper := header.pd_upper
  let special := header.pd_special
  if lower < 32 ∨ (lower - 32) % 4 ≠ 0 ∨ lower > upper ∨ upper > special ∨
      special ≠ 8192 - BTREE_SPECIAL_SIZE then
    .error (.Corrupted
      s!"bad btree page geometry: pd_lower={lower} pd_upper={upper} pd_special={special}")
  else .ok header

def level (page : Page) : Except BTreeError ℕ :=
  (checked_header page).map fun header => (header.pd_flags >>> 8) &&& 0x0F

def flags (page : Page) : Except BTreeError ℕ :=
  (checked_header page).map fun header => (header.pd_flags >>> 12) &&& 0x0F

/-- Set one flag bit, or clear it; a malformed page is refused. -/
def set_flag (page : Page) (flag : ℕ) (on : Bool) : Except BTreeError Page :=
  (flags page).map fun flags =>
    set_flags page (if on then flags ||| flag else flags &&& (0xFF ^^^ flag))

/-- The left sibling; `PageId.INVALID` for none. -/
def prev (page : Page) : Except BTreeError PageId :=
  (checked_header page).map fun header => page.readLe header.pd_special 8

/-- The right sibling; `PageId.INVALID` for none. -/
def next (page : Page) : Except BTreeError PageId :=
  (checked_header page).map fun header => page.readLe (header.pd_special + 8) 8

def set_prev (page : Page) (prev : PageId) : Page :=
  page.writeLe (header page).pd_special 8 prev

def set_next (page : Page) (next : PageId) : Page :=
  page.writeLe ((header page).pd_special + 8) 8 next

def flags_for_level (level : ℕ) : ℕ := if level = 0 then BTREE_FLAG_LEAF else 0

/-! ## Entries of a page -/

/-- The writes of a successful `insert_entry_at`. -/
def place_entry (page : Page) (header : PageHeader) (slot : ℕ) (entry : List UInt8) : Page :=
  let count := (header.pd_lower - 32) / 4
  -- the entry's bytes go to the top of the free space
  let new_upper := header.pd_upper - entry.length
  let page := page.write new_upper entry
  -- the line pointers from `slot` on move one place right
  let lp_start := 32 + slot * 4
  let lp_end := 32 + count * 4
  let page := page.write (lp_start + 4) (page.slice lp_start (lp_end - lp_start))
  let page := page.write lp_start (LinePointer.new new_upper .Normal entry.length).to_le_bytes
  let page := page.writeLe 14 2 (header.pd_lower + 4)
  page.writeLe 16 2 new_upper

def insert_entry_at (page : Page) (slot : ℕ) (entry : List UInt8) : Except BTreeError Page :=
  match checked_header page with
  | .error e => .error e
  | .ok header =>
    if entry = [] then .error (.InvalidArgument "cannot insert an empty index entry")
    else
      let count := (header.pd_lower - 32) / 4
      if slot > count then
        .error (.Corrupted s!"insert slot {slot} beyond slot count {count}")
      else
        let max_entry := (8192 - BTREE_SPECIAL_SIZE) - (32 + 4)
        if entry.length > max_entry then .error (.KeyTooLarge entry.length)
        else
          let needed := entry.length + 4
          let free := header.pd_upper - header.pd_lower
          if free < needed then .error (.PageFull needed free)
          else .ok (place_entry page header slot entry)

/-- The writes of a successful `remove_entry_at`: the array closes over the slot,
and the entry's bytes stay where they are. -/
def drop_entry (page : Page) (header : PageHeader) (slot : ℕ) : Page :=
  let count := (header.pd_lower - 32) / 4
  let start := 32 + (slot + 1) * 4
  let stop := 32 + count * 4
  let page := page.write (start - 4) (page.slice start (stop - start))
  page.writeLe 14 2 (header.pd_lower - 4)

def remove_entry_at (page : Page) (slot : ℕ) : Except BTreeError Page :=
  match checked_header page with
  | .error e => .error e
  | .ok header =>
    let count := (header.pd_lower - 32) / 4
    if slot ≥ count then
      .error (.Corrupted s!"remove slot {slot} beyond slot count {count}")
    else .ok (drop_entry page header slot)

/-- The live bytes at `slot`. -/
def entry_bytes (page : Page) (slot : ℕ) : Except BTreeError (List UInt8) :=
  match tuple page slot with
  | .error e => .error (.Heap e)
  | .ok none => .error (.Corrupted s!"slot {slot} does not hold a live entry")
  | .ok (some bytes) => .ok bytes

/-- The key of a leaf entry: all but the trailing tuple address. -/
def leaf_entry_key (bytes : List UInt8) : Except BTreeError (List UInt8) :=
  if bytes.length < LEAF_TRAILER_SIZE then
    .error (.Corrupted
      s!"leaf entry of {bytes.length} bytes is shorter than the {LEAF_TRAILER_SIZE}-byte trailer")
  else .ok (bytes.take (bytes.length - LEAF_TRAILER_SIZE))

/-- The key of an internal entry: all but the trailing child page. -/
def internal_entry_key (bytes : List UInt8) : Except BTreeError (List UInt8) :=
  if bytes.length < INTERNAL_TRAILER_SIZE then
    .error (.Corrupted
      s!"internal entry of {bytes.length} bytes is shorter than the {INTERNAL_TRAILER_SIZE}-byte trailer")
  else .ok (bytes.take (bytes.length - INTERNAL_TRAILER_SIZE))

def entry_key (bytes : List UInt8) (level : ℕ) : Except BTreeError (List UInt8) :=
  if level = 0 then leaf_entry_key bytes else internal_entry_key bytes

def encode_internal_entry (key : List UInt8) (child : PageId) : List UInt8 :=
  key ++ leBytes 8 child

/-! ## The page halves of a split -/

def apply_prepare_left (page : Page) (new_right : PageId) : Except BTreeError Page :=
  match checked_header page with
  | .error e => .error e
  | .ok header =>
    if header.pd_upper = 0 then
      .error (.Corrupted "apply_prepare_left on an uninitialized page")
    else
      (set_flag page BTREE_FLAG_SPLIT_INCOMPLETE true).map fun page => set_next page new_right

/-- A full re-initialisation: nothing of a previous tenant survives it. -/
def init_right_page (page : Page) (left left_old_next : PageId) (level : ℕ) : Page :=
  set_next (set_prev (init page level (flags_for_level level)) left) left_old_next

/-- Clear `SPLIT_INCOMPLETE`, and `ROOT` with it: the left page of a root split stops
being the root when its split commits. -/
def apply_commit_left (page : Page) : Except BTreeError Page :=
  match checked_header page with
  | .error e => .error e
  | .ok header =>
    if header.pd_upper = 0 then
      .error (.Corrupted "apply_commit_left on an uninitialized page")
    else
      (flags page).map fun flags =>
        set_flags page (flags &&& (0xFF ^^^ (BTREE_FLAG_SPLIT_INCOMPLETE ||| BTREE_FLAG_ROOT)))

/-- The live entries of the given slots, in order. -/
def collect_entries (page : Page) : List ℕ → Except BTreeError (List (List UInt8))
  | [] => .ok []
  | slot :: rest =>
    match entry_bytes page slot with
    | .error e => .error e
    | .ok bytes => (collect_entries page rest).map (bytes :: ·)

/-- Append entries in order. -/
def add_entries (page : Page) : List (List UInt8) → Except BTreeError Page
  | [] => .ok page
  | entry :: rest =>
    match add_tuple page entry with
    | .error e => .error (.Heap e)
    | .ok (_, page) => add_entries page rest

/-- The rebuild of the left page from the entries it keeps: its LSN, siblings, level
and flags survive, its dead space does not. -/
def rebuild_left (page : Page) (kept : List (List UInt8)) : Except BTreeError Page :=
  match checked_header page with
  | .error e => .error e
  | .ok header =>
    let pd_lsn := page_pd_lsn page
    let prev := page.readLe header.pd_special 8
    let next := page.readLe (header.pd_special + 8) 8
    let level := (header.pd_flags >>> 8) &&& 0x0F
    let flags := (header.pd_flags >>> 12) &&& 0x0F
    let page := set_next (set_prev (init page level flags) prev) next
    (add_entries page kept).map fun page => set_page_pd_lsn page pd_lsn

/-- Move every entry from `copy_start_slot` on to the right page, unless it already
has them, and rebuild the left page with the rest. -/
def apply_split_copy (left_page right_page : Page) (copy_start_slot : ℕ) (move_to_right : Bool) :
    Except BTreeError (Page × Page) :=
  let count := slot_count left_page
  if copy_start_slot = 0 ∨ copy_start_slot > count then
    .error (.Corrupted s!"copy_start_slot {copy_start_slot} outside slot count {count}")
  else
    match collect_entries left_page (List.range count) with
    | .error e => .error e
    | .ok entries =>
      let kept := entries.take copy_start_slot
      let moved := entries.drop copy_start_slot
      match if move_to_right then add_entries right_page moved else .ok right_page with
      | .error e => .error e
      | .ok right_page => (rebuild_left left_page kept).map fun left_page => (left_page, right_page)

/-! ## What a successful call has checked -/

/-- The geometry `checked_header` accepts. -/
structure Shaped (page : Page) : Prop extends Geometry page where
  special_eq : (header page).pd_special = 8176

variable {page page' : Page}

theorem checked_header_eq_ok {h : PageHeader} :
    checked_header page = .ok h ↔ Shaped page ∧ h = header page := by
  unfold checked_header
  constructor
  · intro hok
    simp only at hok
    split_ifs at hok with hbad
    push Not at hbad
    cases hok
    exact ⟨⟨⟨hbad.1, hbad.2.1, hbad.2.2.1, hbad.2.2.2.1, by omega⟩, hbad.2.2.2.2⟩, rfl⟩
  · rintro ⟨hg, rfl⟩
    have hb := hg.bounds
    have h5 := hg.special_eq
    have h6 : 8192 - BTREE_SPECIAL_SIZE = 8176 := rfl
    rw [if_neg (by omega)]

theorem Shaped.checked (h : Shaped page) : checked_header page = .ok (header page) :=
  checked_header_eq_ok.mpr ⟨h, rfl⟩

theorem checked_match_eq_ok {α : Type} {f : PageHeader → Except BTreeError α} {a : α} :
    (match checked_header page with | .error e => Except.error e | .ok h => f h) = .ok a ↔
      Shaped page ∧ f (header page) = .ok a := by
  constructor
  · intro h
    split at h
    · cases h
    · next hd hc =>
      obtain ⟨hs, rfl⟩ := checked_header_eq_ok.mp hc
      exact ⟨hs, h⟩
  · rintro ⟨hs, h⟩
    rw [hs.checked]
    exact h

theorem Shaped.upper_ne_zero (h : Shaped page) : (header page).pd_upper ≠ 0 := by
  have hb := h.bounds
  omega

theorem Shaped.init_if_fresh (h : Shaped page) (level flags : ℕ) :
    init_if_fresh page level flags = page := if_neg h.upper_ne_zero

variable {slot : ℕ}

/-- An insertion that succeeds had a slot in the array or at its end, and room. -/
theorem insert_entry_at_eq_ok {entry : List UInt8} :
    insert_entry_at page slot entry = .ok page' ↔
      Shaped page ∧ entry ≠ [] ∧ slot ≤ slot_count page ∧
      (header page).pd_lower + entry.length + 4 ≤ (header page).pd_upper ∧
      page' = place_entry page (header page) slot entry := by
  have hcount : slot_count page = ((header page).pd_lower - 32) / 4 := rfl
  unfold insert_entry_at
  simp only [checked_match_eq_ok, ite_error_eq_ok, Except.ok.injEq]
  constructor
  · rintro ⟨hs, hne, hslot, -, hfree, rfl⟩
    have hle := hs.lower_le_upper
    exact ⟨hs, hne, by omega, by omega, rfl⟩
  · rintro ⟨hs, hne, hslot, hfree, rfl⟩
    have hb := hs.bounds
    have h3 := hs.special_eq
    have h4 : 8192 - BTREE_SPECIAL_SIZE = 8176 := rfl
    exact ⟨hs, hne, by omega, by omega, by omega, rfl⟩

theorem remove_entry_at_eq_ok :
    remove_entry_at page slot = .ok page' ↔
      Shaped page ∧ slot < slot_count page ∧ page' = drop_entry page (header page) slot := by
  unfold remove_entry_at
  rw [checked_match_eq_ok, ite_error_eq_ok, not_le, Except.ok.injEq, eq_comm]
  rfl

/-- The `pd_flags` a committed left page ends with. -/
def committed_flags (pd_flags : ℕ) : ℕ :=
  (pd_flags &&& 0x0FFF) |||
    (((((pd_flags >>> 12) &&& 0x0F) &&& (0xFF ^^^ (BTREE_FLAG_SPLIT_INCOMPLETE ||| BTREE_FLAG_ROOT)))
      <<< 12) % 2 ^ 16)

theorem apply_commit_left_eq_ok :
    apply_commit_left page = .ok page' ↔
      Shaped page ∧ page' = page.writeLe 12 2 (committed_flags (page.readLe 12 2)) := by
  unfold apply_commit_left flags
  rw [checked_match_eq_ok]
  refine and_congr_right fun hs => ?_
  rw [if_neg hs.upper_ne_zero, hs.checked]
  constructor
  · intro hok
    exact (Except.ok.inj hok).symm
  · rintro rfl
    rfl

theorem apply_prepare_left_shaped {right : PageId} (h : apply_prepare_left page right = .ok page') :
    Shaped page := (checked_match_eq_ok.mp h).1

/-- The left half of a copy does not depend on the right page, nor on whether the
entries are moved. -/
theorem apply_split_copy_left {left right left' right' : Page} {copy_start_slot : ℕ}
    (h : apply_split_copy left right copy_start_slot true = .ok (left', right')) (other : Page) :
    apply_split_copy left other copy_start_slot false = .ok (left', other) := by
  unfold apply_split_copy at h ⊢
  simp only at h ⊢
  by_cases hslot : copy_start_slot = 0 ∨ copy_start_slot > slot_count left
  · simp [hslot] at h
  · rw [if_neg hslot] at h ⊢
    cases hc : collect_entries left (List.range (slot_count left)) with
    | error e => simp [hc] at h
    | ok entries =>
      simp only [hc, if_true] at h
      split at h
      · cases h
      · next moved hm =>
        cases hr : rebuild_left left (entries.take copy_start_slot) with
        | error e => simp [hr, Except.map] at h
        | ok kept =>
          simp only [hr, Except.map, Except.ok.injEq, Prod.mk.injEq] at h
          simp [hr, Except.map, h.1]

/-! ## The first fourteen bytes

The LSN, the checksum and the flags. The entry operations start at byte 14 and
neither read nor write what is below. -/

variable {p : Page} {off w v : ℕ}

theorem shaped_writeLe (hlow : off + w ≤ 14) : Shaped (p.writeLe off w v) ↔ Shaped p := by
  have h1 : (header (p.writeLe off w v)).pd_lower = (header p).pd_lower :=
    Buf.readLe_writeLe_of_disjoint (by omega)
  have h2 : (header (p.writeLe off w v)).pd_upper = (header p).pd_upper :=
    Buf.readLe_writeLe_of_disjoint (by omega)
  have h3 : (header (p.writeLe off w v)).pd_special = (header p).pd_special :=
    Buf.readLe_writeLe_of_disjoint (by omega)
  constructor
  · rintro ⟨⟨g₁, g₂, g₃, g₄, g₅⟩, g₆⟩
    rw [h1] at g₁ g₂ g₃
    rw [h2] at g₃ g₄
    rw [h3] at g₄ g₅ g₆
    exact ⟨⟨g₁, g₂, g₃, g₄, g₅⟩, g₆⟩
  · rintro ⟨⟨g₁, g₂, g₃, g₄, g₅⟩, g₆⟩
    refine ⟨⟨?_, ?_, ?_, ?_, ?_⟩, ?_⟩
    · rwa [h1]
    · rwa [h1]
    · rwa [h1, h2]
    · rwa [h2, h3]
    · rwa [h3]
    · rwa [h3]

/-- A write below byte 14 moves out past a write above it. -/
theorem write_writeLe_low (hlow : off + w ≤ 14) {place : ℕ} (hplace : 14 ≤ place)
    (bs : List UInt8) :
    (p.writeLe off w v).write place bs = (p.write place bs).writeLe off w v :=
  Buf.write_comm (.inl (by rw [length_leBytes]; omega))

theorem slice_writeLe_low (hlow : off + w ≤ 14) {place : ℕ} (hplace : 14 ≤ place) (len : ℕ) :
    (p.writeLe off w v).slice place len = p.slice place len :=
  Buf.slice_writeLe_of_disjoint (.inr (by omega))

theorem place_entry_writeLe (hlow : off + w ≤ 14) (hd : PageHeader) {entry : List UInt8}
    (hupper : 14 ≤ hd.pd_upper - entry.length) :
    place_entry (p.writeLe off w v) hd slot entry =
      (place_entry p hd slot entry).writeLe off w v := by
  have hslot : 14 ≤ 32 + slot * 4 := by omega
  unfold place_entry
  simp only
  rw [write_writeLe_low hlow hupper, slice_writeLe_low hlow hslot,
    write_writeLe_low hlow (by omega), write_writeLe_low hlow hslot]
  exact (congrArg (fun b : Page => b.writeLe 16 2 _) (write_writeLe_low hlow (le_refl 14) _)).trans
    (write_writeLe_low hlow (by omega) _)

theorem drop_entry_writeLe (hlow : off + w ≤ 14) (hd : PageHeader) :
    drop_entry (p.writeLe off w v) hd slot = (drop_entry p hd slot).writeLe off w v := by
  unfold drop_entry
  simp only
  rw [slice_writeLe_low hlow (by omega), write_writeLe_low hlow (by omega)]
  exact write_writeLe_low hlow (le_refl 14) _

/-- A page function that works above byte 14: it keeps the geometry and what is
below, and does the same whatever is below. -/
structure Above (f : Page → Except BTreeError Page) : Prop where
  shaped : ∀ {p q}, f p = .ok q → Shaped p ∧ Shaped q
  low : ∀ {p q}, f p = .ok q → ∀ {off w : ℕ}, off + w ≤ 14 → q.readLe off w = p.readLe off w
  blind : ∀ {p q}, f p = .ok q → ∀ {off w : ℕ} (v : ℕ), off + w ≤ 14 →
    f (p.writeLe off w v) = .ok (q.writeLe off w v)

/-- What `place_entry` leaves in the header. -/
theorem Shaped.place_entry {entry : List UInt8} (h : Shaped p)
    (hfree : (header p).pd_lower + entry.length + 4 ≤ (header p).pd_upper) :
    Shaped (place_entry p (header p) slot entry) := by
  have hb := h.bounds
  have h4 := h.special_eq
  have hlower : (header (BtreePage.place_entry p (header p) slot entry)).pd_lower =
      (header p).pd_lower + 4 := by
    refine (Buf.readLe_writeLe_of_disjoint (by omega)).trans ?_
    exact Buf.readLe_writeLe_self (by omega) (by omega)
  have hupper : (header (BtreePage.place_entry p (header p) slot entry)).pd_upper =
      (header p).pd_upper - entry.length :=
    Buf.readLe_writeLe_self (by omega) (by omega)
  have hspecial : (header (BtreePage.place_entry p (header p) slot entry)).pd_special =
      (header p).pd_special := by
    refine (Buf.readLe_writeLe_of_disjoint (by omega)).trans ?_
    refine (Buf.readLe_writeLe_of_disjoint (by omega)).trans ?_
    refine (Buf.readLe_write_of_disjoint (by omega)).trans ?_
    refine (Buf.readLe_write_of_disjoint (by omega)).trans ?_
    exact Buf.readLe_write_of_disjoint (by omega)
  refine ⟨⟨?_, ?_, ?_, ?_, ?_⟩, ?_⟩
  · rw [hlower]; omega
  · rw [hlower]; omega
  · rw [hlower, hupper]; omega
  · rw [hupper, hspecial]; omega
  · rw [hspecial]; omega
  · rw [hspecial]; exact h4

theorem Shaped.drop_entry (h : Shaped p) (hslot : slot < slot_count p) :
    Shaped (drop_entry p (header p) slot) := by
  have h1 := h.lower_ge
  have h2 := h.aligned
  have h3 := h.lower_le_upper
  have h4 := h.upper_le_special
  have h5 := h.special_eq
  have hcount : slot_count p = ((header p).pd_lower - 32) / 4 := rfl
  have hlower : (header (BtreePage.drop_entry p (header p) slot)).pd_lower =
      (header p).pd_lower - 4 := Buf.readLe_writeLe_self (by omega) (by omega)
  have hkept : ∀ field, 16 ≤ field → field + 2 ≤ 32 →
      (BtreePage.drop_entry p (header p) slot).readLe field 2 = p.readLe field 2 := by
    intro field hlo hhi
    refine (Buf.readLe_writeLe_of_disjoint (by omega)).trans ?_
    exact Buf.readLe_write_of_disjoint (by omega)
  have hupper : (header (BtreePage.drop_entry p (header p) slot)).pd_upper = (header p).pd_upper :=
    hkept 16 (by omega) (by omega)
  have hspecial : (header (BtreePage.drop_entry p (header p) slot)).pd_special =
      (header p).pd_special := hkept 18 (by omega) (by omega)
  refine ⟨⟨?_, ?_, ?_, ?_, ?_⟩, ?_⟩
  · rw [hlower]; omega
  · rw [hlower]; omega
  · rw [hlower, hupper]; omega
  · rw [hupper, hspecial]; exact h4
  · rw [hspecial]; omega
  · rw [hspecial]; exact h5

theorem header_writeLe_low (hlow : off + w ≤ 14) :
    slot_count (p.writeLe off w v) = slot_count p ∧
    (header (p.writeLe off w v)).pd_lower = (header p).pd_lower ∧
    (header (p.writeLe off w v)).pd_upper = (header p).pd_upper := by
  have h1 : (header (p.writeLe off w v)).pd_lower = (header p).pd_lower :=
    Buf.readLe_writeLe_of_disjoint (by omega)
  refine ⟨?_, h1, Buf.readLe_writeLe_of_disjoint (by omega)⟩
  rw [slot_count, PageHeader.slot_count, h1]
  rfl

theorem above_insert_entry_at (slot : ℕ) (entry : List UInt8) :
    Above fun page => insert_entry_at page slot entry where
  shaped {p q} h := by
    obtain ⟨hs, -, -, hfree, rfl⟩ := insert_entry_at_eq_ok.mp h
    exact ⟨hs, hs.place_entry hfree⟩
  low {p q} h := by
    obtain ⟨hs, -, -, hfree, rfl⟩ := insert_entry_at_eq_ok.mp h
    have h1 := hs.lower_ge
    intro off w hlow
    refine (Buf.readLe_writeLe_of_disjoint (by omega)).trans ?_
    refine (Buf.readLe_writeLe_of_disjoint (by omega)).trans ?_
    refine (Buf.readLe_write_of_disjoint (by omega)).trans ?_
    refine (Buf.readLe_write_of_disjoint (by omega)).trans ?_
    exact Buf.readLe_write_of_disjoint (by omega)
  blind {p q} h := by
    obtain ⟨hs, hne, hslot, hfree, rfl⟩ := insert_entry_at_eq_ok.mp h
    have h1 := hs.lower_ge
    intro off w v hlow
    obtain ⟨hcount, hlower, hupper⟩ := @header_writeLe_low p off w v hlow
    refine insert_entry_at_eq_ok.mpr ⟨(shaped_writeLe hlow).mpr hs, hne, ?_, ?_, ?_⟩
    · rw [hcount]; exact hslot
    · rw [hlower, hupper]; exact hfree
    · rw [← place_entry_writeLe hlow _ (by omega)]
      unfold BtreePage.place_entry
      rw [hlower, hupper]

theorem above_remove_entry_at (slot : ℕ) : Above fun page => remove_entry_at page slot where
  shaped {p q} h := by
    obtain ⟨hs, hslot, rfl⟩ := remove_entry_at_eq_ok.mp h
    exact ⟨hs, hs.drop_entry hslot⟩
  low {p q} h := by
    obtain ⟨-, -, rfl⟩ := remove_entry_at_eq_ok.mp h
    intro off w hlow
    refine (Buf.readLe_writeLe_of_disjoint (by omega)).trans ?_
    exact Buf.readLe_write_of_disjoint (by omega)
  blind {p q} h := by
    obtain ⟨hs, hslot, rfl⟩ := remove_entry_at_eq_ok.mp h
    intro off w v hlow
    obtain ⟨hcount, hlower, -⟩ := @header_writeLe_low p off w v hlow
    refine remove_entry_at_eq_ok.mpr ⟨(shaped_writeLe hlow).mpr hs, ?_, ?_⟩
    · rw [hcount]; exact hslot
    · rw [← drop_entry_writeLe hlow]
      unfold BtreePage.drop_entry
      rw [hlower]

/-- Clear the flags of a committed left page and stamp it. -/
def commit_left (page : Page) (lsn : Lsn) : Except BTreeError Page :=
  (apply_commit_left page).map (stamp_pd_lsn · lsn)

theorem commit_left_eq_ok {lsn : Lsn} :
    commit_left page lsn = .ok page' ↔ Shaped page ∧
      page' = (page.writeLe 12 2 (committed_flags (page.readLe 12 2))).writeLe 0 8
        (max lsn (page_pd_lsn page)) := by
  have hlsn : ∀ v, page_pd_lsn (page.writeLe 12 2 v) = page_pd_lsn page := fun v =>
    Buf.readLe_writeLe_of_disjoint (by omega)
  unfold commit_left
  constructor
  · intro h
    cases hc : apply_commit_left page with
    | error e => simp [hc, Except.map] at h
    | ok q =>
      obtain ⟨hs, rfl⟩ := apply_commit_left_eq_ok.mp hc
      simp only [hc, Except.map, Except.ok.injEq] at h
      rw [← h, stamp_pd_lsn, hlsn]
      exact ⟨hs, rfl⟩
  · rintro ⟨hs, rfl⟩
    rw [apply_commit_left_eq_ok.mpr ⟨hs, rfl⟩, Except.map, stamp_pd_lsn, hlsn]
    rfl

/-- **An entry operation and the commit of a left page commute**, their stamps
included: both orders clear the flags, change the entries and leave the later LSN. -/
theorem Above.commit_left_comm {f : Page → Except BTreeError Page} (hf : Above f)
    {p q c : Page} {lsn lsn' : Lsn} (hlsn : lsn < 256 ^ 8) (hlsn' : lsn' < 256 ^ 8)
    (hq : f p = .ok q) (hc : commit_left p lsn = .ok c) :
    ∃ d, f c = .ok d ∧ commit_left (stamp_pd_lsn q lsn') lsn = .ok (stamp_pd_lsn d lsn') := by
  obtain ⟨hs, rfl⟩ := commit_left_eq_ok.mp hc
  have hqlsn : page_pd_lsn q = page_pd_lsn p := hf.low hq (by omega)
  have hflags : q.readLe 12 2 = p.readLe 12 2 := hf.low hq (by omega)
  have hmax : max lsn (page_pd_lsn p) < 256 ^ 8 := max_lt hlsn (page_pd_lsn_lt p)
  refine ⟨_, hf.blind (hf.blind hq _ (by omega)) _ (by omega), ?_⟩
  refine commit_left_eq_ok.mpr ⟨(shaped_writeLe (by omega)).mpr (hf.shaped hq).2, ?_⟩
  have hread : (stamp_pd_lsn q lsn').readLe 12 2 = p.readLe 12 2 := by
    rw [← hflags]
    exact Buf.readLe_writeLe_of_disjoint (by omega)
  rw [hread, page_pd_lsn_stamp hlsn', hqlsn, stamp_pd_lsn, stamp_pd_lsn, set_page_pd_lsn,
    set_page_pd_lsn]
  have hd : page_pd_lsn ((q.writeLe 12 2 (committed_flags (p.readLe 12 2))).writeLe 0 8
      (max lsn (page_pd_lsn p))) = max lsn (page_pd_lsn p) :=
    Buf.readLe_writeLe_self (by omega) hmax
  rw [hd, hqlsn, max_left_comm, Buf.writeLe_writeLe_self]
  -- the earlier stamp is overwritten once the flags are out of the way
  have hswap : ∀ lo hi : ℕ, (q.writeLe 0 8 lo).writeLe 12 2 hi = (q.writeLe 12 2 hi).writeLe 0 8 lo :=
    fun lo hi => Buf.write_comm (.inl (by rw [length_leBytes]; omega))
  rw [hswap, Buf.writeLe_writeLe_self]

end BtreePage

end Ams
