/-
Byte streams addressed by position.

A log that is cut into files of one size is one stream of bytes: the file and the
offset in it are a quotient and a remainder of the position. A stream here is a
function on positions, so that reading and writing a range need no bounds, and
what a range holds after a write is decided by comparing positions.
-/
import Mathlib.Tactic
import Mathlib.Data.List.GetD

set_option autoImplicit false

namespace Ams.Lib

/-- An unbounded stream of bytes. -/
abbrev ByteStream := ℕ → UInt8

namespace ByteStream

variable (s : ByteStream)

/-- The `len` bytes from `pos` on. -/
def read (pos len : ℕ) : List UInt8 := (List.range len).map fun i => s (pos + i)

/-- Replace the bytes from `pos` on by `bs`. -/
def write (pos : ℕ) (bs : List UInt8) : ByteStream :=
  fun i => if pos ≤ i ∧ i < pos + bs.length then bs.getD (i - pos) 0 else s i

variable {s}

@[simp] theorem length_read (pos len : ℕ) : (s.read pos len).length = len := by
  rw [read, List.length_map, List.length_range]

theorem read_add (pos m n : ℕ) : s.read pos (m + n) = s.read pos m ++ s.read (pos + m) n := by
  rw [read, List.range_add, List.map_append, List.map_map]
  congr 1
  apply List.map_congr_left
  intro i _
  show s (pos + (m + i)) = s (pos + m + i)
  rw [Nat.add_assoc]

theorem read_congr {t : ByteStream} {pos len : ℕ}
    (h : ∀ i, pos ≤ i → i < pos + len → t i = s i) : t.read pos len = s.read pos len := by
  apply List.map_congr_left
  intro i hi
  exact h (pos + i) (Nat.le_add_right _ _) (Nat.add_lt_add_left (List.mem_range.mp hi) _)

theorem read_zero {pos len : ℕ} (h : ∀ i, pos ≤ i → s i = 0) :
    s.read pos len = List.replicate len 0 := by
  rw [List.eq_replicate_iff]
  refine ⟨length_read pos len, fun b hb => ?_⟩
  obtain ⟨i, -, rfl⟩ := List.mem_map.mp hb
  exact h _ (Nat.le_add_right _ _)

/-- A position outside the range that was written. -/
theorem write_of_not_mem {pos i : ℕ} {bs : List UInt8} (h : i < pos ∨ pos + bs.length ≤ i) :
    s.write pos bs i = s i := by
  apply if_neg
  omega

theorem read_write_self (pos : ℕ) (bs : List UInt8) : (s.write pos bs).read pos bs.length = bs := by
  apply List.ext_getElem (length_read _ _)
  intro i hi hlt
  have hw : s.write pos bs (pos + i) = bs.getD (pos + i - pos) 0 :=
    if_pos ⟨Nat.le_add_right _ _, Nat.add_lt_add_left hlt _⟩
  simp only [read, List.getElem_map, List.getElem_range]
  rw [hw, Nat.add_sub_cancel_left, List.getD_eq_getElem _ _ hlt]

/-- Two adjacent writes are one. -/
theorem write_append (pos : ℕ) (xs ys : List UInt8) :
    (s.write pos xs).write (pos + xs.length) ys = s.write pos (xs ++ ys) := by
  funext i
  unfold write
  rw [List.length_append]
  by_cases hy : pos + xs.length ≤ i ∧ i < pos + xs.length + ys.length
  · rw [if_pos hy, if_pos (by omega), List.getD_append_right _ _ _ _ (by omega)]
    congr 1
    omega
  · rw [if_neg hy]
    by_cases hx : pos ≤ i ∧ i < pos + xs.length
    · rw [if_pos hx, if_pos (by omega), List.getD_append _ _ _ _ (by omega)]
    · rw [if_neg hx, if_neg (by omega)]

end ByteStream

end Ams.Lib
