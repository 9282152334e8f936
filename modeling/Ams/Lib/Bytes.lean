/-
Byte buffers of fixed size and little-endian fields in them.

A buffer is a function on `Fin n`, so a write is a pointwise update and two
buffers are equal when their bytes are. Everything a page format needs is then
two kinds of fact: a read inside a write returns what was written, and a read
disjoint from a write returns what was there. The side conditions are linear
arithmetic on offsets, left to `omega` at the use.

Reads are total: `byte` answers `0` past the end. The formats below only read
in bounds, and their invariants say so.
-/
import Mathlib.Tactic

set_option autoImplicit false

namespace Ams.Lib

/-! ## Little-endian numbers -/

/-- The `w` low-order bytes of `v`, least significant first. -/
def leBytes : ℕ → ℕ → List UInt8
  | 0, _ => []
  | w + 1, v => UInt8.ofNat v :: leBytes w (v / 256)

/-- The number a little-endian byte string denotes. -/
def ofLe : List UInt8 → ℕ
  | [] => 0
  | b :: bs => b.toNat + 256 * ofLe bs

@[simp] theorem length_leBytes (w v : ℕ) : (leBytes w v).length = w := by
  induction w generalizing v with
  | zero => rfl
  | succ w ih => rw [leBytes, List.length_cons, ih]

theorem ofLe_leBytes (w v : ℕ) : ofLe (leBytes w v) = v % 256 ^ w := by
  induction w generalizing v with
  | zero => rw [pow_zero, Nat.mod_one]; rfl
  | succ w ih =>
    have hb : (UInt8.ofNat v).toNat = v % 256 := rfl
    rw [leBytes, ofLe, ih, hb, Nat.pow_succ, Nat.mul_comm (256 ^ w) 256, Nat.mod_mul]

theorem ofLe_leBytes_of_lt {w v : ℕ} (h : v < 256 ^ w) : ofLe (leBytes w v) = v := by
  rw [ofLe_leBytes, Nat.mod_eq_of_lt h]

theorem ofLe_lt (bs : List UInt8) : ofLe bs < 256 ^ bs.length := by
  induction bs with
  | nil => exact Nat.one_pos
  | cons b bs ih =>
    have hb : b.toNat < 256 := b.toNat_lt
    rw [ofLe, List.length_cons, Nat.pow_succ]
    omega

theorem leBytes_ofLe (bs : List UInt8) : leBytes bs.length (ofLe bs) = bs := by
  induction bs with
  | nil => rfl
  | cons b bs ih =>
    have hb : b.toNat < 256 := b.toNat_lt
    have hdiv : (b.toNat + 256 * ofLe bs) / 256 = ofLe bs := by omega
    have hlow : UInt8.ofNat (b.toNat + 256 * ofLe bs) = b := by
      apply UInt8.toNat_inj.mp
      rw [UInt8.toNat_ofNat']
      omega
    rw [ofLe, List.length_cons, leBytes, hdiv, hlow, ih]

/-- A field of `w` bytes, read and written back. -/
theorem leBytes_ofLe_slice {bs : List UInt8} {off w : ℕ} (h : off + w ≤ bs.length) :
    leBytes w (ofLe ((bs.drop off).take w)) = (bs.drop off).take w := by
  have hlen : ((bs.drop off).take w).length = w := by
    rw [List.length_take, List.length_drop]
    omega
  have heq := leBytes_ofLe ((bs.drop off).take w)
  rwa [hlen] at heq

theorem ofLe_slice_lt (bs : List UInt8) (off w : ℕ) : ofLe ((bs.drop off).take w) < 256 ^ w := by
  refine (ofLe_lt _).trans_le (Nat.pow_le_pow_right (by decide) ?_)
  rw [List.length_take]
  exact Nat.min_le_left _ _

/-! ## Consecutive fields -/

/-- Cut one field out of consecutive fields, by its offset and width. -/
theorem take_drop_flatten {α : Type*} {fs : List (List α)} {rest f : List α} {k off w : ℕ}
    (hk : fs[k]? = some f) (hoff : ((fs.take k).map List.length).sum = off) (hw : f.length = w) :
    ((fs.flatten ++ rest).drop off).take w = f := by
  obtain ⟨hlt, hget⟩ := List.getElem?_eq_some_iff.mp hk
  have hsplit : fs = fs.take k ++ f :: fs.drop (k + 1) := by
    rw [← hget, List.getElem_cons_drop, List.take_append_drop]
  have hlen : (fs.take k).flatten.length = off := by rw [List.length_flatten, hoff]
  rw [hsplit, List.flatten_append, List.flatten_cons, List.append_assoc, List.append_assoc,
    List.drop_left' hlen, List.take_left' hw]

/-! ## Buffers -/

/-- A buffer of `n` bytes. -/
abbrev Buf (n : ℕ) := Fin n → UInt8

namespace Buf

variable {n : ℕ} (b : Buf n)

/-- The byte at `i`, `0` past the end. -/
def byte (i : ℕ) : UInt8 := if h : i < n then b ⟨i, h⟩ else 0

/-- The bytes `[off, off + len)`. -/
def slice (off len : ℕ) : List UInt8 := (List.range len).map fun i => b.byte (off + i)

/-- Copy `bs` to `[off, off + bs.length)`. -/
def write (off : ℕ) (bs : List UInt8) : Buf n :=
  fun i => if off ≤ i.val ∧ i.val < off + bs.length then bs.getD (i.val - off) 0 else b i

/-- Set the bytes `[off, stop)` to `v`. -/
def fill (off stop : ℕ) (v : UInt8) : Buf n :=
  fun i => if off ≤ i.val ∧ i.val < stop then v else b i

/-- The little-endian field of width `w` at `off`. -/
def readLe (off w : ℕ) : ℕ := ofLe (b.slice off w)

def writeLe (off w v : ℕ) : Buf n := b.write off (leBytes w v)

variable {b}

/-- Buffers with the same bytes are equal. -/
theorem ext_byte {a b : Buf n} (h : ∀ i, i < n → a.byte i = b.byte i) : a = b := by
  funext i
  have hi := h i.val i.isLt
  simpa only [byte, i.isLt, dif_pos] using hi

variable {len off off' v w : ℕ} {bs : List UInt8}

theorem byte_write (hn : off + bs.length ≤ n) (i : ℕ) :
    (b.write off bs).byte i =
      if off ≤ i ∧ i < off + bs.length then bs.getD (i - off) 0 else b.byte i := by
  unfold byte write
  by_cases h : i < n
  · rw [dif_pos h, dif_pos h]
  · rw [dif_neg h, dif_neg h, if_neg (by omega)]

theorem byte_write_of_disjoint {i : ℕ} (h : i < off ∨ off + bs.length ≤ i) :
    (b.write off bs).byte i = b.byte i := by
  unfold byte write
  by_cases hi : i < n
  · rw [dif_pos hi, dif_pos hi, if_neg (by simp only; omega)]
  · rw [dif_neg hi, dif_neg hi]

theorem byte_fill {stop : ℕ} {v : UInt8} (hn : stop ≤ n) (i : ℕ) :
    (b.fill off stop v).byte i = if off ≤ i ∧ i < stop then v else b.byte i := by
  unfold byte fill
  by_cases h : i < n
  · rw [dif_pos h, dif_pos h]
  · rw [dif_neg h, dif_neg h, if_neg (by omega)]

/-! ### Slices -/

@[simp] theorem length_slice (off len : ℕ) : (b.slice off len).length = len := by
  rw [slice, List.length_map, List.length_range]

theorem getD_slice {i : ℕ} (h : i < len) :
    (b.slice off len).getD i 0 = b.byte (off + i) := by
  simp [slice, List.getD_eq_getElem?_getD, h]

/-- Slices depend on their own bytes only. -/
theorem slice_add (off k m : ℕ) : b.slice off (k + m) = b.slice off k ++ b.slice (off + k) m := by
  unfold slice
  rw [List.range_add, List.map_append, List.map_map]
  simp only [Function.comp_def, Nat.add_assoc]

theorem slice_congr {a b : Buf n} (h : ∀ i, off ≤ i → i < off + len → a.byte i = b.byte i) :
    a.slice off len = b.slice off len := by
  unfold slice
  refine List.map_congr_left fun i hi => ?_
  have hi' := List.mem_range.mp hi
  exact h (off + i) (by omega) (by omega)

theorem readLe_congr {a b : Buf n} (h : ∀ i, off ≤ i → i < off + w → a.byte i = b.byte i) :
    a.readLe off w = b.readLe off w := by
  rw [readLe, readLe, slice_congr h]

/-- Read back what was written. -/
theorem slice_write_self (hn : off + bs.length ≤ n) :
    (b.write off bs).slice off bs.length = bs := by
  apply List.ext_getElem
  · rw [length_slice]
  · intro i h1 h2
    simp only [slice, List.getElem_map, List.getElem_range]
    rw [byte_write hn, if_pos (by omega), Nat.add_sub_cancel_left, List.getD_eq_getElem?_getD,
      List.getElem?_eq_getElem h2, Option.getD_some]

theorem slice_write_of_disjoint (h : off' + len ≤ off ∨ off + bs.length ≤ off') :
    (b.write off bs).slice off' len = b.slice off' len :=
  slice_congr fun _ _ _ => byte_write_of_disjoint (by omega)

theorem readLe_lt (off w : ℕ) : b.readLe off w < 256 ^ w := by
  have h := ofLe_lt (b.slice off w)
  rwa [length_slice] at h

theorem readLe_write_of_disjoint (h : off' + w ≤ off ∨ off + bs.length ≤ off') :
    (b.write off bs).readLe off' w = b.readLe off' w := by
  rw [readLe, readLe, slice_write_of_disjoint h]

theorem readLe_writeLe_self (hn : off + w ≤ n) (hv : v < 256 ^ w) :
    (b.writeLe off w v).readLe off w = v := by
  have h := @slice_write_self _ b off (leBytes w v)
    (by rw [length_leBytes]; exact hn)
  rw [length_leBytes] at h
  rw [readLe, writeLe, h, ofLe_leBytes_of_lt hv]

theorem readLe_writeLe_of_disjoint {w' : ℕ} (h : off' + w' ≤ off ∨ off + w ≤ off') :
    (b.writeLe off w v).readLe off' w' = b.readLe off' w' :=
  readLe_write_of_disjoint (by rwa [length_leBytes])

theorem byte_writeLe_of_disjoint {i : ℕ} (h : i < off ∨ off + w ≤ i) :
    (b.writeLe off w v).byte i = b.byte i :=
  byte_write_of_disjoint (by rwa [length_leBytes])

theorem slice_writeLe_of_disjoint (h : off' + len ≤ off ∨ off + w ≤ off') :
    (b.writeLe off w v).slice off' len = b.slice off' len :=
  slice_write_of_disjoint (by rwa [length_leBytes])

/-- Writes to disjoint places commute. -/
theorem write_comm {cs : List UInt8} (h : off + bs.length ≤ off' ∨ off' + cs.length ≤ off) :
    (b.write off bs).write off' cs = (b.write off' cs).write off bs := by
  funext i
  unfold write
  by_cases h1 : off ≤ i.val ∧ i.val < off + bs.length
  · rw [if_pos h1, if_pos h1, if_neg (by omega)]
  · rw [if_neg h1, if_neg h1]

/-- The last write to a field wins. -/
theorem writeLe_writeLe_self (off w v v' : ℕ) :
    (b.writeLe off w v).writeLe off w v' = b.writeLe off w v' := by
  funext i
  unfold writeLe write
  simp only [length_leBytes]
  by_cases hi : off ≤ i.val ∧ i.val < off + w
  · rw [if_pos hi, if_pos hi]
  · rw [if_neg hi, if_neg hi, if_neg hi]

/-! ### Buffers that differ in places -/

/-- The two buffers have the same bytes outside the positions `X`. -/
def EqOff (X : ℕ → Prop) (a b : Buf n) : Prop := ∀ i, b.byte i = a.byte i ∨ X i

section EqOff

variable {X Y : ℕ → Prop} {a c : Buf n}

theorem EqOff.refl (X : ℕ → Prop) (a : Buf n) : EqOff X a a := fun _ => .inl rfl

theorem EqOff.mono (h : EqOff X a c) (hXY : ∀ i, X i → Y i) : EqOff Y a c :=
  fun i => (h i).imp_right (hXY i)

theorem EqOff.byte_eq (h : EqOff X a c) {i : ℕ} (hi : ¬ X i) : c.byte i = a.byte i :=
  (h i).resolve_right hi

/-- Writing strings that agree outside `X` at the same place. -/
theorem EqOff.write (h : EqOff X a c) {off : ℕ} {as cs : List UInt8} (hlen : cs.length = as.length)
    (hbytes : ∀ j, j < as.length → cs.getD j 0 = as.getD j 0 ∨ X (off + j)) :
    EqOff X (a.write off as) (c.write off cs) := by
  intro i
  have hold := h i
  unfold byte at hold ⊢
  by_cases hi : i < n
  · simp only [dif_pos hi, Buf.write, hlen] at hold ⊢
    by_cases hr : off ≤ i ∧ i < off + as.length
    · rw [if_pos hr, if_pos hr]
      have hj := hbytes (i - off) (by omega)
      rwa [show off + (i - off) = i by omega] at hj
    · rwa [if_neg hr, if_neg hr]
  · rwa [dif_neg hi, dif_neg hi] at hold ⊢

theorem EqOff.write_same (h : EqOff X a c) (off : ℕ) (bs : List UInt8) :
    EqOff X (a.write off bs) (c.write off bs) :=
  h.write rfl fun _ _ => .inl rfl

/-- Clearing the differing positions makes the buffers equal. -/
theorem EqOff.fill_eq (h : EqOff X a c) {off stop : ℕ} (v : UInt8) (hstop : stop ≤ n)
    (hX : ∀ i, X i → off ≤ i ∧ i < stop) : c.fill off stop v = a.fill off stop v := by
  apply ext_byte
  intro i _
  rw [byte_fill hstop, byte_fill hstop]
  by_cases hr : off ≤ i ∧ i < stop
  · rw [if_pos hr, if_pos hr]
  · rw [if_neg hr, if_neg hr, h.byte_eq fun hi => hr (hX i hi)]

end EqOff

end Buf

/-! ## Disjoint regions

A region is an offset and a length. -/

/-- The positions the regions of a list cover. -/
def regionCover (l : List (ℕ × ℕ)) : Finset ℕ :=
  l.foldr (fun r cover => Finset.Ico r.1 (r.1 + r.2) ∪ cover) ∅

theorem mem_regionCover {l : List (ℕ × ℕ)} {i : ℕ} :
    i ∈ regionCover l ↔ ∃ r ∈ l, r.1 ≤ i ∧ i < r.1 + r.2 := by
  induction l with
  | nil => simp [regionCover]
  | cons r l ih =>
    rw [regionCover, List.foldr_cons, ← regionCover, Finset.mem_union, ih, Finset.mem_Ico,
      List.exists_mem_cons_iff]

/-- **Disjoint regions inside `[lo, hi)` have total length at most `hi - lo`.** -/
theorem sum_len_le_of_disjoint {l : List (ℕ × ℕ)} {lo hi : ℕ}
    (hdisj : l.Pairwise fun r s => r.1 + r.2 ≤ s.1 ∨ s.1 + s.2 ≤ r.1)
    (hin : ∀ r ∈ l, lo ≤ r.1 ∧ r.1 + r.2 ≤ hi) : (l.map Prod.snd).sum ≤ hi - lo := by
  have hcard : (regionCover l).card = (l.map Prod.snd).sum := by
    clear hin
    induction l with
    | nil => rfl
    | cons r l ih =>
      obtain ⟨hr, hl⟩ := List.pairwise_cons.mp hdisj
      have hapart : Disjoint (Finset.Ico r.1 (r.1 + r.2)) (regionCover l) := by
        rw [Finset.disjoint_left]
        intro i hi hmem
        rw [Finset.mem_Ico] at hi
        obtain ⟨s, hs, hsi⟩ := mem_regionCover.mp hmem
        rcases hr s hs with h | h <;> omega
      rw [regionCover, List.foldr_cons, ← regionCover, Finset.card_union_of_disjoint hapart,
        Nat.card_Ico, ih hl, List.map_cons, List.sum_cons]
      omega
  have hsub : regionCover l ⊆ Finset.Ico lo hi := by
    intro i hi
    obtain ⟨r, hr, hri⟩ := mem_regionCover.mp hi
    have := hin r hr
    rw [Finset.mem_Ico]
    omega
  calc (l.map Prod.snd).sum = (regionCover l).card := hcard.symm
    _ ≤ (Finset.Ico lo hi).card := Finset.card_le_card hsub
    _ = hi - lo := Nat.card_Ico lo hi

end Ams.Lib
