/-
The slotted heap page: `pg-storage/src/page.rs`, `pg-am-heap/src/line_pointer.rs`
and `pg-am-heap/src/slotted_page.rs`, byte for byte.

A page is an 8 KiB buffer; the header fields, the line-pointer array and the
tuple bytes all live in it, and every function here reads and writes them at the
offsets the source uses. Errors carry the source's variants and messages. A
`Result` that is an error leaves the page as it was: the source validates before
it mutates, with the one exception of the kill loop of `compact`, which cannot
fail once the kill list has been validated.

The second half of the file inverts the functions once: what a call that
succeeded must have checked, and the page it produces. Everything later works
from these.
-/
import Ams.Types
import Ams.Lib.Bytes
import Ams.Lib.Fallible

set_option autoImplicit false

namespace Ams

open Ams.Lib

/-! ## The page header -/

/-- Page size of the default build. The layout constants appear as numerals
wherever offsets are computed from them: a header of 32 bytes, line pointers of
4, a page of 8192. -/
abbrev PAGE_SIZE : ℕ := 8192

abbrev PAGE_HEADER_SIZE : ℕ := 32

/-- Special-space size of every heap page: the forward pointer of the page chain
and eight reserved bytes. -/
abbrev HEAP_SPECIAL_SIZE : ℕ := 16

abbrev Page := Buf 8192

/-- The fresh all-zero page. -/
def Page.zero : Page := fun _ => 0

/-- `page_pd_lsn`. -/
def page_pd_lsn (page : Page) : Lsn := page.readLe 0 8

/-- `set_page_pd_lsn`. -/
def set_page_pd_lsn (page : Page) (lsn : Lsn) : Page := page.writeLe 0 8 lsn

structure PageHeader where
  pd_lsn : Lsn
  pd_checksum : ℕ
  pd_flags : ℕ
  pd_lower : ℕ
  pd_upper : ℕ
  pd_special : ℕ
  pd_pagesize_version : ℕ
  pd_prune_xid : ℕ
deriving DecidableEq, Repr

namespace PageHeader

def new (page_size : ℕ) : PageHeader where
  pd_lsn := 0
  pd_checksum := 0
  pd_flags := 0
  pd_lower := 32
  pd_upper := page_size
  pd_special := page_size
  pd_pagesize_version := 1
  pd_prune_xid := 0

def read_from (page : Page) : PageHeader where
  pd_lsn := page_pd_lsn page
  pd_checksum := page.readLe 8 4
  pd_flags := page.readLe 12 2
  pd_lower := page.readLe 14 2
  pd_upper := page.readLe 16 2
  pd_special := page.readLe 18 2
  pd_pagesize_version := page.readLe 20 2
  pd_prune_xid := page.readLe 22 4

def write_to (h : PageHeader) (page : Page) : Page :=
  let page := set_page_pd_lsn page h.pd_lsn
  let page := page.writeLe 8 4 h.pd_checksum
  let page := page.writeLe 12 2 h.pd_flags
  let page := page.writeLe 14 2 h.pd_lower
  let page := page.writeLe 16 2 h.pd_upper
  let page := page.writeLe 18 2 h.pd_special
  let page := page.writeLe 20 2 h.pd_pagesize_version
  let page := page.writeLe 22 4 h.pd_prune_xid
  page.fill 26 32 0

def init_page (page : Page) : Page := (new 8192).write_to page

/-- The number of line pointers below `pd_lower`. -/
def slot_count (h : PageHeader) : ℕ := (h.pd_lower - 32) / 4

end PageHeader

/-! ## Line pointers -/

/-- State of a line pointer. -/
inductive LpFlags where
  | Unused
  | Normal
  | Redirect
  | Dead
deriving DecidableEq, Repr

namespace LpFlags

def bits : LpFlags → ℕ
  | .Unused => 0
  | .Normal => 1
  | .Redirect => 2
  | .Dead => 3

def from_bits (bits : ℕ) : LpFlags :=
  match bits &&& 0x3 with
  | 0 => .Unused
  | 1 => .Normal
  | 2 => .Redirect
  | _ => .Dead

end LpFlags

/-- A 32-bit line pointer: `lp_off:15 / lp_flags:2 / lp_len:15`. -/
structure LinePointer where
  bits : ℕ
deriving DecidableEq, Repr

namespace LinePointer

def new (off : ℕ) (flags : LpFlags) (len : ℕ) : LinePointer :=
  ⟨(off &&& 0x7FFF) ||| (flags.bits <<< 15) ||| ((len <<< 17) % 2 ^ 32)⟩

def off (lp : LinePointer) : ℕ := lp.bits &&& 0x7FFF

def flags (lp : LinePointer) : LpFlags := LpFlags.from_bits (lp.bits >>> 15)

def len (lp : LinePointer) : ℕ := lp.bits >>> 17

/-- A copy with the flags replaced. -/
def with_flags (lp : LinePointer) (flags : LpFlags) : LinePointer := new lp.off flags lp.len

def from_le_bytes (bytes : List UInt8) : LinePointer := ⟨ofLe bytes⟩

def to_le_bytes (lp : LinePointer) : List UInt8 := leBytes 4 lp.bits

variable {len off : ℕ}

section Packing

variable (flags : LpFlags) (ho : off < 2 ^ 15) (hl : len < 2 ^ 15)

include ho hl

/-- The three fields do not overlap, so the disjunction is a sum. -/
theorem new_bits : (new off flags len).bits = off + 2 ^ 15 * flags.bits + 2 ^ 17 * len := by
  have hf : flags.bits < 4 := by cases flags <;> decide
  have hoff : off &&& 0x7FFF = off := by
    rw [show (0x7FFF : ℕ) = 2 ^ 15 - 1 from rfl, Nat.and_two_pow_sub_one_eq_mod,
      Nat.mod_eq_of_lt ho]
  have hlen : (len <<< 17) % 2 ^ 32 = 2 ^ 17 * len := by
    rw [Nat.shiftLeft_eq, Nat.mod_eq_of_lt (by omega), Nat.mul_comm]
  have hlow : off ||| (flags.bits <<< 15) = 2 ^ 15 * flags.bits + off := by
    rw [Nat.shiftLeft_eq, Nat.mul_comm, Nat.or_comm, Nat.two_pow_add_eq_or_of_lt ho]
  unfold new
  simp only [hoff, hlen]
  rw [hlow, Nat.or_comm, ← Nat.two_pow_add_eq_or_of_lt (by omega)]
  omega

theorem new_off : (new off flags len).off = off := by
  unfold LinePointer.off
  rw [new_bits flags ho hl, show (0x7FFF : ℕ) = 2 ^ 15 - 1 from rfl,
    Nat.and_two_pow_sub_one_eq_mod]
  omega

theorem new_len : (new off flags len).len = len := by
  have hf : flags.bits < 4 := by cases flags <;> decide
  unfold LinePointer.len
  rw [new_bits flags ho hl, Nat.shiftRight_eq_div_pow]
  omega

theorem new_flags : (new off flags len).flags = flags := by
  have hf : flags.bits < 4 := by cases flags <;> decide
  have hdiv : (off + 2 ^ 15 * flags.bits + 2 ^ 17 * len) / 2 ^ 15 % 4 = flags.bits := by omega
  unfold LinePointer.flags LpFlags.from_bits
  rw [new_bits flags ho hl, Nat.shiftRight_eq_div_pow, show (0x3 : ℕ) = 2 ^ 2 - 1 from rfl,
    Nat.and_two_pow_sub_one_eq_mod, hdiv]
  cases flags <;> rfl

theorem new_bits_lt : (new off flags len).bits < 256 ^ 4 := by
  have hf : flags.bits < 4 := by cases flags <;> decide
  rw [new_bits flags ho hl]
  omega

end Packing

theorem off_lt (lp : LinePointer) : lp.off < 2 ^ 15 := by
  unfold off
  rw [show (0x7FFF : ℕ) = 2 ^ 15 - 1 from rfl, Nat.and_two_pow_sub_one_eq_mod]
  exact Nat.mod_lt _ (by decide)

theorem len_lt {lp : LinePointer} (h : lp.bits < 256 ^ 4) : lp.len < 2 ^ 15 := by
  unfold len
  rw [Nat.shiftRight_eq_div_pow]
  omega

theorem with_flags_flags {lp : LinePointer} (h : lp.bits < 256 ^ 4) (flags : LpFlags) :
    (lp.with_flags flags).flags = flags := new_flags flags lp.off_lt (len_lt h)

theorem with_flags_bits_lt {lp : LinePointer} (h : lp.bits < 256 ^ 4) (flags : LpFlags) :
    (lp.with_flags flags).bits < 256 ^ 4 := new_bits_lt flags lp.off_lt (len_lt h)

end LinePointer

/-! ## Operations -/

namespace SlottedPage

def header (page : Page) : PageHeader := PageHeader.read_from page

def init_with_special (page : Page) (special_size : ℕ) : Page :=
  let page := page.fill 0 8192 0
  let page := PageHeader.init_page page
  let pd_special := 8192 - special_size
  let page := page.writeLe 16 2 pd_special
  page.writeLe 18 2 pd_special

/-- `pd_upper = 0` identifies a page that was never initialised. -/
def init_if_fresh_with_special (page : Page) (special_size : ℕ) : Page :=
  if (header page).pd_upper = 0 then init_with_special page special_size else page

def slot_count (page : Page) : ℕ := (header page).slot_count

def free_space (page : Page) : ℕ := (header page).pd_upper - (header page).pd_lower

/-- Decode the header and validate the geometry the line-pointer array depends on. -/
def checked_header (page : Page) : Except HeapError PageHeader :=
  let header := header page
  let lower := header.pd_lower
  let upper := header.pd_upper
  let special := header.pd_special
  if lower < 32 ∨ (lower - 32) % 4 ≠ 0 ∨ lower > upper ∨ upper > special ∨ special > 8192 then
    .error (.Corrupted
      s!"bad page header geometry: pd_lower={lower} pd_upper={upper} pd_special={special}")
  else .ok header

/-- The shared check of the page-chain accessors: heap geometry, then the offset
of the forward pointer. -/
def chain_offset (page : Page) : Except HeapError ℕ :=
  match checked_header page with
  | .error e => .error e
  | .ok header =>
    let special := header.pd_special
    if special ≠ 8192 - HEAP_SPECIAL_SIZE then
      .error (.Corrupted
        s!"page chain pointer requires special_size 16, page has pd_special={special}")
    else .ok special

def set_next_page (page : Page) (next : Option PageId) : Except HeapError Page :=
  match chain_offset page with
  | .error e => .error e
  | .ok off => .ok (page.writeLe off 8 (next.getD 0))

def next_page (page : Page) : Except HeapError (Option PageId) :=
  match chain_offset page with
  | .error e => .error e
  | .ok off =>
    let raw := page.readLe off 8
    .ok (if raw = 0 then none else some raw)

/-- The line pointer stored for `slot`, without a bounds check. -/
def raw_line_pointer (page : Page) (slot : ℕ) : LinePointer :=
  LinePointer.from_le_bytes (page.slice (32 + slot * 4) 4)

def line_pointer (page : Page) (slot : ℕ) : Except HeapError LinePointer :=
  match checked_header page with
  | .error e => .error e
  | .ok header =>
    if slot ≥ header.slot_count then
      .error (.InvalidSlot slot)
    else .ok (raw_line_pointer page slot)

def set_line_pointer (page : Page) (slot : ℕ) (lp : LinePointer) : Page :=
  page.write (32 + slot * 4) lp.to_le_bytes

def set_pd_lower (page : Page) (pd_lower : ℕ) : Page := page.writeLe 14 2 pd_lower

def set_pd_upper (page : Page) (pd_upper : ℕ) : Page := page.writeLe 16 2 pd_upper

/-- The first recyclable slot. -/
def first_fit_slot (page : Page) : Option ℕ :=
  let pd_lower := min (header page).pd_lower 8192
  let slot_count := (pd_lower - 32) / 4
  (List.range slot_count).find? fun slot => decide ((raw_line_pointer page slot).flags = .Unused)

/-- The writes of a successful `add_tuple_at`. -/
def place_tuple (page : Page) (header : PageHeader) (slot : ℕ) (appending : Bool)
    (bytes : List UInt8) : Page :=
  let new_upper := header.pd_upper - bytes.length
  let page := page.write new_upper bytes
  let page := set_line_pointer page slot (LinePointer.new new_upper .Normal bytes.length)
  let page := if appending then set_pd_lower page (header.pd_lower + 4) else page
  set_pd_upper page new_upper

/-- Insert `bytes` at the caller-selected `slot`: the end of the line-pointer
array, or an `Unused` slot, which is recycled. -/
def add_tuple_at (page : Page) (slot : ℕ) (bytes : List UInt8) : Except HeapError Page :=
  let len := bytes.length
  match checked_header page with
  | .error e => .error e
  | .ok header =>
    let max_tuple := header.pd_special - (32 + 4)
    if len = 0 then .error (.InvalidArgument "cannot insert an empty tuple")
    else if len > max_tuple then .error (.TupleTooLarge len)
    else
      let slot_count := header.slot_count
      if slot > slot_count then .error (.InvalidSlot slot)
      else if slot ≠ slot_count ∧ (raw_line_pointer page slot).flags ≠ .Unused then
        .error (.InvalidSlot slot)
      else
        let appending := decide (slot = slot_count)
        let lp_cost := if appending then 4 else 0
        let free := header.pd_upper - header.pd_lower
        if free < len + lp_cost then .error (.PageFull (len + lp_cost) free)
        else .ok (place_tuple page header slot appending bytes)

/-- Insert `bytes` at the first recyclable slot, else at the end. -/
def add_tuple (page : Page) (bytes : List UInt8) : Except HeapError (ℕ × Page) :=
  let slot := (first_fit_slot page).getD (slot_count page)
  match add_tuple_at page slot bytes with
  | .error e => .error e
  | .ok page => .ok (slot, page)

/-- Validation of a kill list: strictly ascending, in range, each slot holding a
tuple. -/
def check_dead_slots (page : Page) : Option ℕ → List ℕ → Except HeapError Unit
  | _, [] => .ok ()
  | prev, slot :: rest =>
    match prev.filter (fun p => decide (slot ≤ p)) with
    | some p =>
      .error (.InvalidArgument
        s!"compact dead_slots must be strictly ascending, got {slot} after {p}")
    | none =>
      match line_pointer page slot with
      | .error e => .error e
      | .ok lp =>
        if lp.flags = .Normal ∨ lp.flags = .Dead then check_dead_slots page (some slot) rest
        else .error (.InvalidSlot slot)

/-- A surviving tuple copied out of the page. -/
structure Staged where
  slot : ℕ
  flags : LpFlags
  len : ℕ
  bytes : List UInt8
deriving DecidableEq, Repr

/-- Stage the survivors among `slots`, in order. -/
def stage_slots (page : Page) (header : PageHeader) (dead_slots : List ℕ) :
    List ℕ → Except HeapError (List Staged)
  | [] => .ok []
  | slot :: rest =>
    let lp := raw_line_pointer page slot
    if lp.flags = .Unused ∨ slot ∈ dead_slots then stage_slots page header dead_slots rest
    else
      let o := lp.off
      let l := lp.len
      let pd_upper := header.pd_upper
      let pd_special := header.pd_special
      if o < pd_upper ∨ o + l > pd_special then
        .error (.Corrupted
          s!"slot {slot}: tuple region [{o}, {o + l}) outside [{pd_upper}, {pd_special})")
      else
        match stage_slots page header dead_slots rest with
        | .error e => .error e
        | .ok staged => .ok (⟨slot, lp.flags, l, page.slice o l⟩ :: staged)

/-- Put the staged tuples back, packed downward from the cursor. -/
def restage : Page → ℕ → List Staged → Page × ℕ
  | page, cursor, [] => (page, cursor)
  | page, cursor, s :: rest =>
    let cursor := cursor - s.len
    let page := page.write cursor s.bytes
    let page := set_line_pointer page s.slot (LinePointer.new cursor s.flags s.len)
    restage page cursor rest

/-- The kill loop: each slot's line pointer becomes `Unused`, offset and length
kept. -/
def kill_slots : Page → List ℕ → Except HeapError Page
  | page, [] => .ok page
  | page, slot :: rest =>
    match line_pointer page slot with
    | .error e => .error e
    | .ok lp => kill_slots (set_line_pointer page slot (lp.with_flags .Unused)) rest

/-- Kill the listed slots and pack the surviving tuple bytes against the special
space. Line pointers never move. The source's binary search on the validated,
strictly ascending list is membership. -/
def compact (page : Page) (dead_slots : List ℕ) : Except HeapError Page :=
  match checked_header page with
  | .error e => .error e
  | .ok header =>
    let slot_count := header.slot_count
    match check_dead_slots page none dead_slots with
    | .error e => .error e
    | .ok () =>
      match stage_slots page header dead_slots (List.range slot_count) with
      | .error e => .error e
      | .ok staged =>
        let page := page.fill header.pd_upper header.pd_special 0
        let (page, cursor) := restage page header.pd_special staged
        match kill_slots page dead_slots with
        | .error e => .error e
        | .ok page => .ok (set_pd_upper page cursor)

/-- Mark the tuple at `slot` as deleted; its bytes are not reclaimed. -/
def delete_tuple (page : Page) (slot : ℕ) : Except HeapError Page :=
  match line_pointer page slot with
  | .error e => .error e
  | .ok lp =>
    if lp.flags ≠ .Normal then .error (.InvalidSlot slot)
    else .ok (set_line_pointer page slot (lp.with_flags .Unused))

/-- The loop of `tuple`: follow redirects from `cur`, at most `fuel` pointers. -/
def tuple_loop (page : Page) (slot : ℕ) : ℕ → ℕ → Except HeapError (Option (List UInt8))
  | 0, _ =>
    .error (.Corrupted s!"slot {slot}: LP REDIRECT chain longer than the page's slot count")
  | fuel + 1, cur =>
    match line_pointer page cur with
    | .error (.InvalidSlot _) => .ok none
    | .error e => .error e
    | .ok lp =>
      if lp.flags = .Redirect then tuple_loop page slot fuel lp.off
      else if lp.flags ≠ .Normal then .ok none
      else
        match checked_header page with
        | .error e => .error e
        | .ok header =>
          let off := lp.off
          let stop := off + lp.len
          let upper := header.pd_upper
          let special := header.pd_special
          if off < upper ∨ stop > special then
            .error (.Corrupted
              s!"slot {slot}: tuple region [{off}, {stop}) outside [{upper}, {special})")
          else .ok (some (page.slice off lp.len))

/-- The tuple bytes at `slot`, if it holds a live tuple. -/
def tuple (page : Page) (slot : ℕ) : Except HeapError (Option (List UInt8)) :=
  tuple_loop page slot (slot_count page + 1) slot

/-! ## Geometry -/

/-- The header geometry `checked_header` accepts. -/
structure Geometry (page : Page) : Prop where
  lower_ge : 32 ≤ (header page).pd_lower
  aligned : ((header page).pd_lower - 32) % 4 = 0
  lower_le_upper : (header page).pd_lower ≤ (header page).pd_upper
  upper_le_special : (header page).pd_upper ≤ (header page).pd_special
  special_le : (header page).pd_special ≤ 8192

variable {page q : Page}

theorem checked_header_eq_ok {h : PageHeader} :
    checked_header page = .ok h ↔ Geometry page ∧ h = header page := by
  unfold checked_header
  constructor
  · intro hok
    simp only at hok
    split_ifs at hok with hbad
    push Not at hbad
    cases hok
    exact ⟨⟨hbad.1, hbad.2.1, hbad.2.2.1, hbad.2.2.2.1, hbad.2.2.2.2⟩, rfl⟩
  · rintro ⟨hg, rfl⟩
    have h1 := hg.lower_ge
    have h2 := hg.aligned
    have h3 := hg.lower_le_upper
    have h4 := hg.upper_le_special
    have h5 := hg.special_le
    rw [if_neg (by omega)]

theorem Geometry.checked (hg : Geometry page) :
    checked_header page = .ok (header page) := checked_header_eq_ok.mpr ⟨hg, rfl⟩

/-- What is done with a checked header is done with the page's own. -/
theorem checked_match_eq_ok {α : Type} {f : PageHeader → Except HeapError α} {a : α} :
    (match checked_header page with | .error e => Except.error e | .ok h => f h) = .ok a ↔
      Geometry page ∧ f (header page) = .ok a := by
  constructor
  · intro h
    split at h
    · cases h
    · next hd hc =>
      obtain ⟨hg, rfl⟩ := checked_header_eq_ok.mp hc
      exact ⟨hg, h⟩
  · rintro ⟨hg, h⟩
    rw [hg.checked]
    exact h

theorem header_slot_count (page : Page) : (header page).slot_count = slot_count page := rfl

theorem Geometry.of_header_eq {p : Page} (hg : Geometry p) (h : header q = header p) :
    Geometry q := by
  obtain ⟨h1, h2, h3, h4, h5⟩ := hg
  constructor <;> rw [h] <;> assumption

theorem slot_count_of_header_eq {p : Page} (h : header q = header p) :
    slot_count q = slot_count p := by rw [slot_count, h, header_slot_count]

/-- Where the line-pointer array ends, in slots. -/
theorem Geometry.lower_eq (hg : Geometry page) :
    (header page).pd_lower = 32 + slot_count page * 4 := by
  have h1 := hg.lower_ge
  have h2 := hg.aligned
  have hdef : slot_count page = ((header page).pd_lower - 32) / 4 := rfl
  omega

/-- Header, line pointers, free space and tuples, in this order. -/
theorem Geometry.bounds (hg : Geometry page) :
    32 ≤ (header page).pd_lower ∧ (header page).pd_lower = 32 + slot_count page * 4 ∧
      (header page).pd_lower ≤ (header page).pd_upper ∧
      (header page).pd_upper ≤ (header page).pd_special ∧ (header page).pd_special ≤ 8192 :=
  ⟨hg.lower_ge, hg.lower_eq, hg.lower_le_upper, hg.upper_le_special, hg.special_le⟩

theorem Geometry.line_pointer (hg : Geometry page) (slot : ℕ) : line_pointer page slot =
      if slot < slot_count page then .ok (raw_line_pointer page slot)
      else .error (.InvalidSlot slot) := by
  unfold SlottedPage.line_pointer
  rw [hg.checked]
  simp only
  rw [header_slot_count]
  by_cases h : slot < slot_count page
  · rw [if_neg (not_le.mpr h), if_pos h]
  · rw [if_pos (not_lt.mp h), if_neg h]

theorem line_pointer_eq_ok {slot : ℕ} {lp : LinePointer} : line_pointer page slot = .ok lp ↔
      Geometry page ∧ slot < slot_count page ∧ lp = raw_line_pointer page slot := by
  unfold SlottedPage.line_pointer
  rw [checked_match_eq_ok, ite_error_eq_ok, not_le, header_slot_count, Except.ok.injEq, eq_comm]

theorem raw_line_pointer_bits_lt (page : Page) (slot : ℕ) :
    (raw_line_pointer page slot).bits < 256 ^ 4 :=
  page.readLe_lt _ 4

/-! ## Inversion -/

/-- What `add_tuple_at` checks before it writes. -/
structure Fits (page : Page) (slot : ℕ) (bytes : List UInt8) : Prop where
  geometry : Geometry page
  nonempty : bytes.length ≠ 0
  not_too_large : bytes.length ≤ (header page).pd_special - 36
  slot_le : slot ≤ slot_count page
  recycles : slot ≠ slot_count page → (raw_line_pointer page slot).flags = .Unused
  room : bytes.length + (if slot = slot_count page then 4 else 0)
    ≤ (header page).pd_upper - (header page).pd_lower

theorem add_tuple_at_eq_ok {slot : ℕ} {bytes : List UInt8} :
    add_tuple_at page slot bytes = .ok q ↔ Fits page slot bytes ∧
      q = place_tuple page (header page) slot (decide (slot = slot_count page)) bytes := by
  unfold add_tuple_at
  simp only [checked_match_eq_ok, ite_error_eq_ok, decide_eq_true_eq, Except.ok.injEq]
  constructor
  · rintro ⟨hg, h1, h2, h3, h4, h5, rfl⟩
    refine ⟨⟨hg, h1, not_lt.mp h2, not_lt.mp h3, fun hne => ?_, not_lt.mp h5⟩, rfl⟩
    by_contra hflag
    exact h4 ⟨hne, hflag⟩
  · rintro ⟨hf, rfl⟩
    exact ⟨hf.geometry, hf.nonempty, not_lt.mpr hf.not_too_large, not_lt.mpr hf.slot_le,
      fun hbad => hbad.2 (hf.recycles hbad.1), not_lt.mpr hf.room, rfl⟩

theorem delete_tuple_eq_ok {slot : ℕ} : delete_tuple page slot = .ok q ↔
      (Geometry page ∧ slot < slot_count page ∧ (raw_line_pointer page slot).flags = .Normal) ∧
      q = set_line_pointer page slot ((raw_line_pointer page slot).with_flags .Unused) := by
  unfold delete_tuple
  constructor
  · intro h
    split at h
    · cases h
    · next lp hl =>
      obtain ⟨hg, hs, rfl⟩ := line_pointer_eq_ok.mp hl
      obtain ⟨hflag, hq⟩ := ite_error_eq_ok.mp h
      exact ⟨⟨hg, hs, not_not.mp hflag⟩, (Except.ok.inj hq).symm⟩
  · rintro ⟨⟨hg, hs, hflag⟩, rfl⟩
    rw [line_pointer_eq_ok.mpr ⟨hg, hs, rfl⟩]
    exact if_neg (not_not.mpr hflag)

theorem compact_geometry {dead_slots : List ℕ} (h : compact page dead_slots = .ok q) :
    Geometry page := (checked_match_eq_ok.mp h).1

theorem set_next_page_eq_ok {next : Option PageId} : set_next_page page next = .ok q ↔
      (Geometry page ∧ (header page).pd_special = 8176) ∧ q = page.writeLe 8176 8 (next.getD 0) := by
  unfold set_next_page chain_offset
  constructor
  · intro h
    split at h
    · cases h
    · next off hoff =>
      obtain ⟨hg, hc⟩ := checked_match_eq_ok.mp hoff
      obtain ⟨hs, ho⟩ := ite_error_eq_ok.mp hc
      have hspecial : (header page).pd_special = 8176 := not_not.mp hs
      cases h
      cases ho
      exact ⟨⟨hg, hspecial⟩, by rw [hspecial]⟩
  · rintro ⟨⟨hg, hs⟩, rfl⟩
    have hsize : ¬ (header page).pd_special ≠ 8192 - HEAP_SPECIAL_SIZE := not_not.mpr hs
    rw [hg.checked]
    simp only
    rw [if_neg hsize, hs]

end SlottedPage

end Ams
