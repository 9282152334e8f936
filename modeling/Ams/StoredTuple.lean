/-
A tuple as it lies on a page: the 64-byte header, which the heap rewrites in place
for as long as the tuple lives, and the attribute data behind it, which nobody
touches after the insert.

The stamps go through the header's bytes, so what they do to the decoded tuple has
to be argued through the codec. `decode_tuple_restamp` does that once: a header of
the same shape, written over the old one, decodes to itself and the same values.
All five stamps keep the shape.
-/
import Ams.HeapPage

set_option autoImplicit false

namespace Ams

open Ams.Lib SlottedPage

/-! ## The header's bytes -/

/-- Cut a list into consecutive pieces of the given lengths. -/
def cut {α : Type} : List ℕ → List α → List (List α)
  | [], _ => []
  | w :: ws, l => l.take w :: cut ws (l.drop w)

theorem cut_flatten {α : Type} (ws : List ℕ) (l : List α) :
    (cut ws l).flatten = l.take ws.sum := by
  induction ws generalizing l with
  | nil => rfl
  | cons w ws ih =>
    rw [cut, List.flatten_cons, ih, List.sum_cons, List.take_add]

/-- A field read is the field's bytes. -/
theorem leBytes_le_at {bytes : List UInt8} {off w : ℕ} (h : off + w ≤ bytes.length) :
    leBytes w (le_at bytes off w) = (bytes.drop off).take w := leBytes_ofLe_slice h

theorem le_at_lt {bytes : List UInt8} {off w : ℕ} : le_at bytes off w < 256 ^ w :=
  ofLe_slice_lt bytes off w

namespace TupleHeader

/-- A header that was read is in range, and writing it back changes nothing. -/
theorem write_to_read_from {bytes : List UInt8} {h : TupleHeader}
    (hread : read_from bytes = .ok h) :
    64 ≤ bytes.length ∧ h.InRange ∧ bytes = h.write_to ++ bytes.drop 64 := by
  unfold read_from at hread
  simp only at hread
  split_ifs at hread with hlen hpad
  rw [not_lt] at hlen
  rw [not_not] at hpad
  cases hread
  refine ⟨hlen, ⟨le_at_lt, le_at_lt, le_at_lt, le_at_lt, le_at_lt, le_at_lt, le_at_lt⟩, ?_⟩
  have htrace : (Vector.ofFn fun i : Fin 16 => bytes.getD (24 + i.val) 0).toList
      = (bytes.drop 24).take 16 := by
    apply List.ext_getElem
    · simp only [Vector.length_toList, List.length_take, List.length_drop]
      omega
    · intro i hi _
      have hi' : i < 16 := by simpa using hi
      simp [List.getD_eq_getElem?_getD, List.getElem?_eq_getElem (show 24 + i < bytes.length by omega)]
  have hmask : ∀ off, (BitVec.ofNat 16 (le_at bytes off 2)).toNat = le_at bytes off 2 := by
    intro off
    rw [BitVec.toNat_ofNat]
    exact Nat.mod_eq_of_lt le_at_lt
  have hfields : (fields
      { t_xmin := le_at bytes 0 8
        t_xmax := le_at bytes 8 8
        t_agent_id := le_at bytes 16 8
        t_trace_id := Vector.ofFn fun i => bytes.getD (24 + i.val) 0
        t_ctid := ⟨le_at bytes 40 8, le_at bytes 48 2⟩
        t_infomask := BitVec.ofNat 16 (le_at bytes 52 2)
        t_infomask2 := BitVec.ofNat 16 (le_at bytes 54 2)
        t_hoff := le_at bytes 56 2
        t_flags := BitVec.ofNat 16 (le_at bytes 58 2)
        t_cid := le_at bytes 60 4 }) = cut [8, 8, 8, 16, 8, 2, 2, 2, 2, 2, 2, 4] bytes := by
    have hpad' : leBytes 2 0 = (bytes.drop 50).take 2 := by
      rw [← hpad]
      exact leBytes_le_at (by omega)
    simp only [fields, cut, hmask, htrace, hpad', List.drop_drop, Nat.reduceAdd]
    rw [leBytes_le_at (by omega), leBytes_le_at (by omega), leBytes_le_at (by omega),
      leBytes_le_at (by omega), leBytes_le_at (by omega), leBytes_le_at (by omega),
      leBytes_le_at (by omega), leBytes_le_at (by omega), leBytes_le_at (by omega),
      leBytes_le_at (by omega), List.drop_zero]
  rw [write_to, hfields, cut_flatten]
  exact (List.take_append_drop 64 bytes).symm

/-- What decoding reads of a header. The stamps leave all of it alone. -/
structure SameShape (h h' : TupleHeader) : Prop where
  natts : h'.natts = h.natts
  t_hoff : h'.t_hoff = h.t_hoff
  has_null : hasFlag h'.t_infomask HEAP_HASNULL = hasFlag h.t_infomask HEAP_HASNULL
  has_nodeid : hasFlag h'.t_infomask2 HEAP_HAS_NODEID = hasFlag h.t_infomask2 HEAP_HAS_NODEID

end TupleHeader

/-! ## Decoding a restamped tuple -/

section Restamp

variable {a b : List UInt8}

/-- Two byte strings with the same data behind the header. -/
def SameBody (a b : List UInt8) : Prop := b.drop 64 = a.drop 64 ∧ b.length = a.length

variable {pos : ℕ}

theorem SameBody.take (h : SameBody a b) {n : ℕ} (hpos : 64 ≤ pos) :
    take b pos n = take a pos n := by
  have hdrop : b.drop pos = a.drop pos := by
    have hb : b.drop pos = (b.drop 64).drop (pos - 64) := by
      rw [List.drop_drop, Nat.add_sub_cancel' hpos]
    rw [hb, h.1, List.drop_drop, Nat.add_sub_cancel' hpos]
  unfold Ams.take
  rw [h.2, hdrop]

variable {bytes : List UInt8}

theorem take_pos {out : List UInt8} {n pos' : ℕ} (h : take bytes pos n = .ok (out, pos')) :
    pos' = pos + n := by
  unfold Ams.take at h
  simp only at h
  split_ifs at h
  exact (congrArg Prod.snd (Except.ok.inj h)).symm

theorem SameBody.decode_varlena (h : SameBody a b) (hpos : 64 ≤ pos)
    (inline : List UInt8 → Except HeapError Datum) :
    decode_varlena b pos inline = decode_varlena a pos inline := by
  unfold Ams.decode_varlena
  rw [h.take hpos]
  cases htag : Ams.take a pos 4 with
  | error e => rfl
  | ok r =>
    obtain ⟨tag, pos'⟩ := r
    obtain rfl := take_pos htag
    simp only [Nat.add_sub_cancel, h.take hpos, h.take (le_trans hpos (Nat.le_add_right pos 4))]

theorem SameBody.decode_datum (h : SameBody a b) (hpos : 64 ≤ pos) (col : ColumnType) :
    decode_datum b pos col = decode_datum a pos col := by
  cases col <;>
    simp only [Ams.decode_datum, decode_fixed, h.take hpos, h.decode_varlena hpos]

/-- A column leaves the position where it was or further on. -/
theorem decode_datum_pos {pos' : ℕ} {col : ColumnType} {d : Datum}
    (h : decode_datum bytes pos col = .ok (d, pos')) : pos ≤ pos' := by
  have hfixed : ∀ w read, decode_fixed bytes pos w read = .ok (d, pos') → pos ≤ pos' := by
    intro w read h
    unfold decode_fixed at h
    split at h
    · simp at h
    · next f q hq =>
      obtain rfl : q = pos' := congrArg Prod.snd (Except.ok.inj h)
      rw [take_pos hq]
      exact Nat.le_add_right _ _
  have hvar : ∀ inline, decode_varlena bytes pos inline = .ok (d, pos') → pos ≤ pos' := by
    intro inline h
    unfold decode_varlena at h
    split at h
    · simp at h
    next tag p hp =>
    obtain rfl := take_pos hp
    simp only at h
    split at h
    · split at h
      · simp at h
      next raw q hq =>
      split at h
      · simp at h
      obtain rfl : q = pos' := congrArg Prod.snd (Except.ok.inj h)
      have := take_pos hq
      omega
    · split at h
      · simp at h
      split at h
      · simp at h
      next payload q hq =>
      split at h
      · simp at h
      obtain rfl : q = pos' := congrArg Prod.snd (Except.ok.inj h)
      have := take_pos hq
      omega
  cases col with
  | Text => exact hvar _ h
  | Bytea => exact hvar (fun payload => .ok (.Bytea payload)) h
  | Int4 => exact hfixed _ _ h
  | Int8 => exact hfixed _ _ h
  | Timestamptz => exact hfixed _ _ h
  | Uuid => exact hfixed _ _ h
  | Vector dim => exact hfixed _ _ h

theorem SameBody.decode_columns (h : SameBody a b) (is_null : ℕ → Bool) (columns : List ColumnType) :
    ∀ {i pos : ℕ}, 64 ≤ pos →
      decode_columns b is_null i pos columns = decode_columns a is_null i pos columns := by
  induction columns with
  | nil => exact fun _ => rfl
  | cons col columns ih =>
    intro i pos hpos
    rw [Ams.decode_columns, Ams.decode_columns, ih hpos, h.decode_datum hpos]
    split_ifs
    · rfl
    · cases hd : Ams.decode_datum a pos col with
      | error e => rfl
      | ok r =>
        obtain ⟨d, pos'⟩ := r
        simp only [ih (le_trans hpos (decode_datum_pos hd))]

theorem SameBody.null_bit (h : SameBody a b) (i : ℕ) : null_bit b i = null_bit a i := by
  have hget : b.getD (64 + i / 8) 0 = a.getD (64 + i / 8) 0 := by
    have := congrArg (fun l => l[i / 8]?) h.1
    simp only [List.getElem?_drop] at this
    rw [List.getD_eq_getElem?_getD, List.getD_eq_getElem?_getD, this]
  unfold Ams.null_bit
  rw [hget]

/-- Everything `decode_tuple` checks, and where the values come from. -/
theorem decode_tuple_eq_ok {columns : List ColumnType} {h : TupleHeader}
    {values : List (Option Datum)} :
    decode_tuple bytes columns = .ok (h, values) ↔
      TupleHeader.read_from bytes = .ok h ∧ h.natts = columns.length ∧
      check_dims columns = .ok () ∧
      ¬ (h.t_hoff < 64 ∨ h.t_hoff > bytes.length ∨ h.t_hoff % 8 ≠ 0) ∧
      ¬ (hasFlag h.t_infomask HEAP_HASNULL = true ∧
        64 + bitmap_len (hasFlag h.t_infomask HEAP_HASNULL) columns.length > h.t_hoff) ∧
      ∃ pos, decode_columns bytes (fun i => hasFlag h.t_infomask HEAP_HASNULL && null_bit bytes i) 0
          h.t_hoff columns = .ok (values, pos) ∧
        bytes.length - pos = if hasFlag h.t_infomask2 HEAP_HAS_NODEID then 4 else 0 := by
  unfold decode_tuple
  constructor
  · intro hdec
    split at hdec
    · simp at hdec
    next hd hread =>
    simp only at hdec
    by_cases hnatts : hd.natts ≠ columns.length
    · simp [hnatts] at hdec
    rw [if_neg hnatts] at hdec
    split at hdec
    · simp at hdec
    next hdims =>
    split at hdec
    · simp at hdec
    next hoff =>
    split at hdec
    · simp at hdec
    next hnull =>
    split at hdec
    · simp at hdec
    next vals pos hcols =>
    have hend : (h = hd ∧ values = vals) ∧
        bytes.length - pos = if hasFlag hd.t_infomask2 HEAP_HAS_NODEID then 4 else 0 := by
      by_cases hnode : hasFlag hd.t_infomask2 HEAP_HAS_NODEID = true
      · rw [if_pos hnode] at hdec ⊢
        split_ifs at hdec with htrail
        simp only [Except.ok.injEq, Prod.mk.injEq] at hdec
        exact ⟨⟨hdec.1.symm, hdec.2.symm⟩, not_not.mp htrail⟩
      · rw [if_neg hnode] at hdec ⊢
        split_ifs at hdec with htrail
        simp only [Except.ok.injEq, Prod.mk.injEq] at hdec
        exact ⟨⟨hdec.1.symm, hdec.2.symm⟩, not_not.mp htrail⟩
    obtain ⟨⟨rfl, rfl⟩, htrail⟩ := hend
    exact ⟨hread, not_not.mp hnatts, hdims, hoff, hnull, pos, hcols, htrail⟩
  · rintro ⟨hread, hnatts, hdims, hoff, hnull, pos, hcols, htrail⟩
    rw [hread]
    simp only
    rw [if_neg (not_not.mpr hnatts), hdims]
    simp only
    rw [if_neg hoff, if_neg hnull, hcols]
    simp only
    by_cases hnode : hasFlag h.t_infomask2 HEAP_HAS_NODEID = true
    · rw [if_pos hnode] at htrail ⊢
      rw [if_neg (not_not.mpr htrail)]
    · rw [if_neg hnode] at htrail ⊢
      rw [if_neg (not_not.mpr htrail)]

/-- **Restamping keeps the values.** A header of the same shape over the old one
decodes to itself and the same values. -/
theorem decode_tuple_restamp {columns : List ColumnType} {h h' : TupleHeader}
    {values : List (Option Datum)} (hdec : decode_tuple bytes columns = .ok (h, values))
    (hshape : h.SameShape h') (hr : h'.InRange) :
    decode_tuple (h'.write_to ++ bytes.drop 64) columns = .ok (h', values) := by
  obtain ⟨hread, hnatts, hdims, hoff, hnull, pos, hcols, htrail⟩ := decode_tuple_eq_ok.mp hdec
  obtain ⟨hlen, -, -⟩ := TupleHeader.write_to_read_from hread
  have hbody : SameBody bytes (h'.write_to ++ bytes.drop 64) := by
    constructor
    · rw [List.drop_left' (TupleHeader.length_write_to h')]
    · rw [List.length_append, TupleHeader.length_write_to, List.length_drop]
      omega
  have hstart : 64 ≤ h.t_hoff := by omega
  refine decode_tuple_eq_ok.mpr ⟨TupleHeader.read_from_write_to hr _, ?_, hdims, ?_, ?_, pos, ?_, ?_⟩
  · rw [hshape.natts, hnatts]
  · rw [hshape.t_hoff, hbody.2]
    exact hoff
  · rw [hshape.has_null, hshape.t_hoff]
    exact hnull
  · rw [hshape.has_null, hshape.t_hoff, hbody.decode_columns _ _ hstart]
    simp only [hbody.null_bit]
    exact hcols
  · rw [hbody.2, hshape.has_nodeid]
    exact htrail

end Restamp

/-! ## The stamps -/

section Stamps

variable {h : TupleHeader} {x : TxnId} {c : ℕ}

/-- A flag the stamps do not deal in. -/
theorem hasFlag_real_stamp (m f : BitVec 16) (hf : f = 0#16 ∨ f = HEAP_UPDATED) :
    hasFlag ((m ||| f) &&& ~~~(HEAP_XMAX_LOCK_ONLY ||| HEAP_XMAX_IS_SHARE)) HEAP_HASNULL
      = hasFlag m HEAP_HASNULL := by
  rw [hasFlag_and, show ~~~(HEAP_XMAX_LOCK_ONLY ||| HEAP_XMAX_IS_SHARE) &&& HEAP_HASNULL
    = HEAP_HASNULL from by decide, hasFlag_or]
  rcases hf with rfl | rfl
  · rw [show hasFlag 0#16 HEAP_HASNULL = false from by decide, Bool.or_false]
  · rw [show hasFlag HEAP_UPDATED HEAP_HASNULL = false from by decide, Bool.or_false]

theorem TupleHeader.SameShape.stamp_deleted (updated : Bool) :
    h.SameShape (h.stamp_deleted x c updated) := by
  refine ⟨rfl, rfl, ?_, rfl⟩
  cases updated with
  | true => exact hasFlag_real_stamp _ _ (.inr rfl)
  | false =>
    have := hasFlag_real_stamp h.t_infomask 0#16 (.inl rfl)
    rwa [BitVec.or_zero] at this

theorem TupleHeader.SameShape.stamp_hot_update (tid : Tid) :
    h.SameShape (h.stamp_hot_update x c tid) := by
  refine ⟨?_, rfl, hasFlag_real_stamp _ _ (.inr rfl), ?_⟩
  · exact congrArg BitVec.toNat (or_and_eq_of_and_eq_zero (by decide))
  · show hasFlag (h.t_infomask2 ||| HEAP_HOT_UPDATED) HEAP_HAS_NODEID = _
    rw [hasFlag_or, show hasFlag HEAP_HOT_UPDATED HEAP_HAS_NODEID = false from by decide,
      Bool.or_false]

theorem TupleHeader.SameShape.stamp_lock_only (shared : Bool) :
    h.SameShape (h.stamp_lock_only x c shared) := by
  refine ⟨rfl, rfl, ?_, rfl⟩
  cases shared with
  | true =>
    show hasFlag (h.t_infomask ||| HEAP_XMAX_LOCK_ONLY ||| HEAP_XMAX_IS_SHARE) HEAP_HASNULL = _
    rw [hasFlag_or, hasFlag_or,
      show hasFlag HEAP_XMAX_LOCK_ONLY HEAP_HASNULL = false from by decide,
      show hasFlag HEAP_XMAX_IS_SHARE HEAP_HASNULL = false from by decide, Bool.or_false,
      Bool.or_false]
  | false =>
    show hasFlag ((h.t_infomask ||| HEAP_XMAX_LOCK_ONLY) &&& ~~~HEAP_XMAX_IS_SHARE) HEAP_HASNULL = _
    rw [hasFlag_and, show ~~~HEAP_XMAX_IS_SHARE &&& HEAP_HASNULL = HEAP_HASNULL from by decide,
      hasFlag_or, show hasFlag HEAP_XMAX_LOCK_ONLY HEAP_HASNULL = false from by decide,
      Bool.or_false]

theorem TupleHeader.SameShape.stamp_xmin : h.SameShape (h.stamp_xmin x) := ⟨rfl, rfl, rfl, rfl⟩

theorem TupleHeader.SameShape.stamp_hot_only : h.SameShape (h.stamp_hot_only x) := by
  refine ⟨?_, rfl, rfl, ?_⟩
  · exact congrArg BitVec.toNat (or_and_eq_of_and_eq_zero (by decide))
  · show hasFlag (h.t_infomask2 ||| HEAP_ONLY_TUPLE) HEAP_HAS_NODEID = _
    rw [hasFlag_or, show hasFlag HEAP_ONLY_TUPLE HEAP_HAS_NODEID = false from by decide,
      Bool.or_false]

/-- The bytes `HeapAM::stamp_xmin` returns are the stamped header's. -/
theorem HeapAM.stamp_xmin_bytes {tuple : List UInt8} (hread : TupleHeader.read_from tuple = .ok h) :
    HeapAM.stamp_xmin tuple x = .ok ((h.stamp_xmin x).write_to ++ tuple.drop 64) := by
  obtain ⟨hlen, -, hbytes⟩ := TupleHeader.write_to_read_from hread
  rw [HeapAM.stamp_xmin, if_neg (not_lt.mpr hlen)]
  congr 1
  have hdrop : tuple.drop 8 = h.write_to.drop 8 ++ tuple.drop 64 := by
    conv_lhs => rw [hbytes]
    rw [List.drop_append_of_le_length (by rw [TupleHeader.length_write_to]; decide)]
  rw [hdrop, ← List.append_assoc]
  congr 1

/-- And those of `HeapAM::stamp_hot_only`. -/
theorem HeapAM.stamp_hot_only_bytes {tuple : List UInt8}
    (hread : TupleHeader.read_from tuple = .ok h) :
    HeapAM.stamp_hot_only tuple x = .ok ((h.stamp_hot_only x).write_to ++ tuple.drop 64) := by
  obtain ⟨hlen, -, -⟩ := TupleHeader.write_to_read_from hread
  have howned := @HeapAM.stamp_xmin_bytes h x tuple hread
  rw [HeapAM.stamp_xmin, if_neg (not_lt.mpr hlen)] at howned
  rw [HeapAM.stamp_hot_only, if_neg (not_lt.mpr hlen)]
  simp only
  rw [Except.ok.inj howned]
  have hmask : le_at ((h.stamp_xmin x).write_to ++ tuple.drop 64) 54 2 = h.t_infomask2.toNat :=
    @TupleHeader.le_at_fields (h.stamp_xmin x) _ 8 _ _ _ rfl (by simp [TupleHeader.fields])
      h.t_infomask2.isLt
  have hhead : ((h.stamp_xmin x).fields.take 8).flatten.length = 54 := by
    simp [TupleHeader.fields]
  have htail : ((h.stamp_xmin x).fields.take 9).flatten.length = 56 := by
    simp [TupleHeader.fields]
  have hsplit : ∀ k, (h.stamp_xmin x).write_to ++ tuple.drop 64 =
      ((h.stamp_xmin x).fields.take k).flatten ++
        (((h.stamp_xmin x).fields.drop k).flatten ++ tuple.drop 64) := by
    intro k
    rw [← List.append_assoc, ← List.flatten_append, List.take_append_drop, TupleHeader.write_to]
  rw [hmask, BitVec.ofNat_toNat, BitVec.setWidth_eq]
  congr 1
  conv_lhs =>
    arg 1
    arg 1
    rw [hsplit 8, List.take_left' hhead]
  rw [hsplit 9, List.drop_left' htail]
  simp [TupleHeader.write_to, TupleHeader.fields, TupleHeader.stamp_xmin, TupleHeader.stamp_hot_only]

end Stamps

end Ams
