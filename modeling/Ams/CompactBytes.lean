/-
`SlottedPage::compact` on arbitrary bytes.

A page that this module did not build can hold line pointers whose regions overlap. `compact`
checks that each region lies in the tuple area, and then puts the tuples side by side, counting
down from the special space. Regions that overlap may need more room than there is: the cursor
passes the line pointers and the header and, in the end, zero.

The other results on `compact` speak of the page it returns. Here it is the function on the page
in place: what it leaves behind when it fails, and where it panics.
-/
import Ams.PageInvariant
import Ams.Lib.Run

set_option autoImplicit false

namespace Ams

namespace SlottedPage

/-! ## The function in place -/

/-- The restaging loop; `none` if the cursor underflows. -/
def restage_checked : Page → ℕ → List Staged → Option (Page × ℕ)
  | page, cursor, [] => some (page, cursor)
  | page, cursor, s :: rest =>
    if cursor < s.len then none
    else
      let cursor := cursor - s.len
      let page := page.write cursor s.bytes
      let page := set_line_pointer page s.slot (LinePointer.new cursor s.flags s.len)
      restage_checked page cursor rest

/-- The kill loop, with the page it leaves when it fails. -/
def kill_in_place : Page → List ℕ → Page × Except HeapError Unit
  | page, [] => (page, .ok ())
  | page, slot :: rest =>
    match line_pointer page slot with
    | .error e => (page, .error e)
    | .ok lp => kill_in_place (set_line_pointer page slot (lp.with_flags .Unused)) rest

/-- `compact`, with the page it leaves; `none` is a panic. -/
def compact_in_place (page : Page) (dead_slots : List ℕ) :
    Option (Page × Except HeapError Unit) :=
  match checked_header page with
  | .error e => some (page, .error e)
  | .ok header =>
    match check_dead_slots page none dead_slots with
    | .error e => some (page, .error e)
    | .ok () =>
      match stage_slots page header dead_slots (List.range header.slot_count) with
      | .error e => some (page, .error e)
      | .ok staged =>
        let page := page.fill header.pd_upper header.pd_special 0
        match restage_checked page header.pd_special staged with
        | none => none
        | some (page, cursor) =>
          match kill_in_place page dead_slots with
          | (page, .error e) => some (page, .error e)
          | (page, .ok ()) => some (set_pd_upper page cursor, .ok ())

/-! ## With room for the survivors -/

section Room

variable {p q : Page} {dead_slots : List ℕ}

theorem restage_checked_eq {staged : List Staged} :
    ∀ {p : Page} {cursor : ℕ}, (staged.map Staged.len).sum ≤ cursor →
      restage_checked p cursor staged = some (restage p cursor staged) := by
  induction staged with
  | nil => exact fun _ => rfl
  | cons e rest ih =>
    intro p cursor hsum
    rw [List.map_cons, List.sum_cons] at hsum
    rw [restage_checked, if_neg (by omega)]
    exact ih (by omega)

theorem kill_in_place_eq : ∀ {p : Page}, kill_slots p dead_slots = .ok q →
    kill_in_place p dead_slots = (q, .ok ()) := by
  induction dead_slots with
  | nil =>
    intro p h
    rw [← Except.ok.inj h]
    rfl
  | cons s rest ih =>
    intro p h
    rw [kill_slots] at h
    rw [kill_in_place]
    cases hlp : line_pointer p s with
    | error e =>
      rw [hlp] at h
      simp at h
    | ok lp =>
      rw [hlp] at h
      exact ih h

/-- Staging succeeds only on regions in the tuple area. -/
theorem within_of_stage_slots {slots : List ℕ} {staged : List Staged}
    (h : stage_slots p (header p) dead_slots slots = .ok staged) {s : ℕ} (hs : s ∈ slots)
    (hkeep : ¬ ((raw_line_pointer p s).flags = .Unused ∨ s ∈ dead_slots)) :
    (header p).pd_upper ≤ (raw_line_pointer p s).off ∧
      (raw_line_pointer p s).off + (raw_line_pointer p s).len ≤ (header p).pd_special := by
  induction slots generalizing staged with
  | nil => simp at hs
  | cons t rest ih =>
    rw [stage_slots] at h
    simp only at h
    by_cases hskip : (raw_line_pointer p t).flags = .Unused ∨ t ∈ dead_slots
    · rw [if_pos hskip] at h
      rcases List.mem_cons.mp hs with rfl | hs
      · exact absurd hskip hkeep
      · exact ih h hs
    · rw [if_neg hskip] at h
      split_ifs at h with hout
      cases hrest : stage_slots p (header p) dead_slots rest with
      | error e =>
        rw [hrest] at h
        simp at h
      | ok rest' =>
        rcases List.mem_cons.mp hs with rfl | hs
        · omega
        · exact ih hrest hs

end Room

/-- Two line pointers to one region, the whole tuple area up to `pd_special`. -/
def overlapping_page (pd_special : ℕ) : Page :=
  let page := ((Page.zero.writeLe 14 2 40).writeLe 16 2 40).writeLe 18 2 pd_special
  let lp := LinePointer.new 40 .Normal (pd_special - 40)
  set_line_pointer (set_line_pointer page 0 lp) 1 lp

end SlottedPage

open SlottedPage

end Ams
