/-
CLOG addresses, nibbles and page files: `pg-txn/src/clog_file.rs`.

Every XID has four bits: two XIDs share a byte, the even one in the high half, and a
page of 8192 bytes holds the states of 16384 of them. A page read gives zeros where
nothing was written, and zero is `InProgress`, so a missing entry needs no test.

A page write does not reach the disk by itself. The file of a page is therefore what
it reads as, what the last fsync of its segment made durable, and the images written
since. A write that fails may have changed some of the bytes.
-/
import Ams.Types
import Ams.Lib.Bytes

set_option autoImplicit false

namespace Ams

open Ams.Lib

/-! ## Addresses -/

abbrev CLOG_PAGE_BYTES : ℕ := 8192
abbrev XIDS_PER_CLOG_PAGE : ℕ := 16384
abbrev CLOG_PAGES_PER_SEGMENT : ℕ := 16384

abbrev ClogPage := Buf 8192

def page_no_of_xid (xid : TxnId) : ℕ := xid / XIDS_PER_CLOG_PAGE

def byte_in_page_of_xid (xid : TxnId) : ℕ := (xid % XIDS_PER_CLOG_PAGE) / 2

def segment_id_of_page (page_no : ℕ) : ℕ := page_no / CLOG_PAGES_PER_SEGMENT

/-! ## Nibbles -/

/-- The `#[repr(u8)]` of a state. -/
def TxnState.bits : TxnState → UInt8
  | .InProgress => 0
  | .Committed => 1
  | .Aborted => 2
  | .SubCommitted => 3

def get_nibble (byte : UInt8) (xid : TxnId) : UInt8 :=
  if xid &&& 1 = 0 then byte >>> (4 : UInt8) else byte &&& (0x0F : UInt8)

def set_nibble (byte : UInt8) (xid : TxnId) (state : UInt8) : UInt8 :=
  if xid &&& 1 = 0 then
    (byte &&& (0x0F : UInt8)) ||| ((state &&& (0x0F : UInt8)) <<< (4 : UInt8))
  else (byte &&& (0xF0 : UInt8)) ||| (state &&& (0x0F : UInt8))

/-- `none` is the panic on a corrupt nibble. -/
def txn_state_from_nibble (nibble : UInt8) : Option TxnState :=
  if nibble = 0 then some .InProgress
  else if nibble = 1 then some .Committed
  else if nibble = 2 then some .Aborted
  else if nibble = 3 then some .SubCommitted
  else none

/-- The state a page has for `xid`. -/
def page_state (data : ClogPage) (xid : TxnId) : Option TxnState :=
  txn_state_from_nibble (get_nibble (data.byte (byte_in_page_of_xid xid)) xid)

/-- The page with the state of `xid` replaced. -/
def set_page_state (data : ClogPage) (xid : TxnId) (state : TxnState) : ClogPage :=
  let i := byte_in_page_of_xid xid
  data.write i [set_nibble (data.byte i) xid state.bits]

/-- A page of zeros. -/
def ClogPage.zero : ClogPage := fun _ => 0

theorem byte_in_page_lt (xid : TxnId) : byte_in_page_of_xid xid < 8192 := by
  have h : xid % 16384 < 16384 := Nat.mod_lt _ (by decide)
  have hdef : byte_in_page_of_xid xid = xid % 16384 / 2 := rfl
  omega

/-- The two halves of a byte, after one of them is replaced. -/
theorem nibbles (byte : UInt8) (state : TxnState) :
    ((byte &&& (0x0F : UInt8)) ||| ((state.bits &&& (0x0F : UInt8)) <<< (4 : UInt8))) >>> (4 : UInt8) = state.bits ∧
    ((byte &&& (0x0F : UInt8)) ||| ((state.bits &&& (0x0F : UInt8)) <<< (4 : UInt8))) &&& (0x0F : UInt8) = byte &&& (0x0F : UInt8) ∧
    ((byte &&& (0xF0 : UInt8)) ||| (state.bits &&& (0x0F : UInt8))) &&& (0x0F : UInt8) = state.bits ∧
    ((byte &&& (0xF0 : UInt8)) ||| (state.bits &&& (0x0F : UInt8))) >>> (4 : UInt8) = byte >>> (4 : UInt8) := by
  have key : ∀ n : Fin 256, ∀ st ∈ [(0 : UInt8), 1, 2, 3],
      ((UInt8.ofNat n &&& (0x0F : UInt8)) ||| ((st &&& (0x0F : UInt8)) <<< (4 : UInt8))) >>> (4 : UInt8) = st ∧
      ((UInt8.ofNat n &&& (0x0F : UInt8)) ||| ((st &&& (0x0F : UInt8)) <<< (4 : UInt8))) &&& (0x0F : UInt8) = UInt8.ofNat n &&& (0x0F : UInt8) ∧
      ((UInt8.ofNat n &&& (0xF0 : UInt8)) ||| (st &&& (0x0F : UInt8))) &&& (0x0F : UInt8) = st ∧
      ((UInt8.ofNat n &&& (0xF0 : UInt8)) ||| (st &&& (0x0F : UInt8))) >>> (4 : UInt8) = UInt8.ofNat n >>> (4 : UInt8) := by
    decide +kernel
  have hmem : state.bits ∈ [(0 : UInt8), 1, 2, 3] := by cases state <;> decide
  have h := key ⟨byte.toNat, byte.toNat_lt⟩ state.bits hmem
  rwa [UInt8.ofNat_toNat] at h

theorem txn_state_from_nibble_bits (state : TxnState) :
    txn_state_from_nibble state.bits = some state := by
  cases state <;> decide

theorem get_set_nibble (byte : UInt8) (xid : TxnId) (state : TxnState) :
    get_nibble (set_nibble byte xid state.bits) xid = state.bits := by
  unfold get_nibble set_nibble
  by_cases h : xid &&& 1 = 0
  · rw [if_pos h, if_pos h]
    exact (nibbles byte state).1
  · rw [if_neg h, if_neg h]
    exact (nibbles byte state).2.2.1

/-- The other XID of the byte keeps its nibble. -/
theorem get_set_nibble_other (byte : UInt8) {xid y : TxnId} (h : ¬ (xid &&& 1 = 0 ↔ y &&& 1 = 0))
    (state : TxnState) : get_nibble (set_nibble byte xid state.bits) y = get_nibble byte y := by
  unfold get_nibble set_nibble
  by_cases hx : xid &&& 1 = 0
  · have hy : ¬ y &&& 1 = 0 := fun hy => h ⟨fun _ => hy, fun _ => hx⟩
    rw [if_pos hx, if_neg hy, if_neg hy]
    exact (nibbles byte state).2.1
  · have hy : y &&& 1 = 0 := by
      by_contra hy
      exact h ⟨fun hx' => absurd hx' hx, fun hy' => absurd hy' hy⟩
    rw [if_neg hx, if_pos hy, if_pos hy]
    exact (nibbles byte state).2.2.2

theorem page_state_set_self (data : ClogPage) (xid : TxnId) (state : TxnState) :
    page_state (set_page_state data xid state) xid = some state := by
  have hi := byte_in_page_lt xid
  unfold page_state set_page_state
  simp only
  rw [Buf.byte_write (by simp only [List.length_singleton]; omega), if_pos (by simp)]
  rw [Nat.sub_self, List.getD_cons_zero, get_set_nibble, txn_state_from_nibble_bits]

/-- Two XIDs of one page with the same byte and the same half are the same. -/
theorem xid_eq_of_same_nibble {x y : ℕ} (hp : page_no_of_xid x = page_no_of_xid y)
    (hb : byte_in_page_of_xid x = byte_in_page_of_xid y) (hn : x &&& 1 = 0 ↔ y &&& 1 = 0) : x = y := by
  unfold page_no_of_xid byte_in_page_of_xid XIDS_PER_CLOG_PAGE at *
  rw [Nat.and_one_is_mod, Nat.and_one_is_mod] at hn
  have hparity : x % 2 = y % 2 := by
    rcases Nat.mod_two_eq_zero_or_one x with h | h
    · rw [h, hn.mp h]
    · rcases Nat.mod_two_eq_zero_or_one y with h' | h'
      · exact absurd (hn.mpr h') (by rw [h]; decide)
      · rw [h, h']
  omega

theorem page_state_set_other (data : ClogPage) {xid y : TxnId} (hne : y ≠ xid)
    (hp : page_no_of_xid y = page_no_of_xid xid) (state : TxnState) :
    page_state (set_page_state data xid state) y = page_state data y := by
  have hi := byte_in_page_lt xid
  unfold page_state set_page_state
  simp only
  by_cases hb : byte_in_page_of_xid y = byte_in_page_of_xid xid
  · rw [Buf.byte_write (by simp only [List.length_singleton]; omega), if_pos (by simp [hb]), hb,
      Nat.sub_self, List.getD_cons_zero, get_set_nibble_other]
    intro hn
    exact hne (xid_eq_of_same_nibble hp hb hn.symm)
  · rw [Buf.byte_write_of_disjoint]
    simp only [List.length_singleton]
    omega

/-- A page of zeros has every XID in progress. -/
theorem page_state_zero (xid : TxnId) : page_state ClogPage.zero xid = some .InProgress := by
  have hb : ClogPage.zero.byte (byte_in_page_of_xid xid) = 0 := by
    unfold Buf.byte
    rw [dif_pos (byte_in_page_lt xid)]
    rfl
  unfold page_state get_nibble
  rw [hb]
  split <;> decide

/-! ## Page files -/

/-- A page of a segment file. -/
structure ClogPageFile where
  now : ClogPage
  synced : ClogPage
  written : List ClogPage

/-- How a page write ends. A failing one has written the bytes of its mask. -/
inductive WriteIo where
  | ok
  | fails (mask : Fin 8192 → Bool)

/-- What a failing write leaves. -/
def torn_page (mask : Fin 8192 → Bool) (old new : ClogPage) : ClogPage :=
  fun i => if mask i then new i else old i

namespace ClogPageFile

def durable (data : ClogPage) : ClogPageFile := ⟨data, data, []⟩

def write (f : ClogPageFile) (data : ClogPage) : ClogPageFile :=
  { f with now := data, written := data :: f.written }

def sync (f : ClogPageFile) : ClogPageFile := durable f.now

/-- What a crash may leave of the page. -/
def Survives (f : ClogPageFile) (data : ClogPage) : Prop := data = f.synced ∨ data ∈ f.written

end ClogPageFile

/-- Torn bytes come from one of the two pages, so what both agree on survives. -/
theorem page_state_torn {mask : Fin 8192 → Bool} {old new : ClogPage} {xid : TxnId}
    {state : Option TxnState} (hold : page_state old xid = state) (hnew : page_state new xid = state) :
    page_state (torn_page mask old new) xid = state := by
  unfold page_state at *
  have hi := byte_in_page_lt xid
  have hbyte : (torn_page mask old new).byte (byte_in_page_of_xid xid) =
      old.byte (byte_in_page_of_xid xid) ∨
      (torn_page mask old new).byte (byte_in_page_of_xid xid) =
      new.byte (byte_in_page_of_xid xid) := by
    unfold Buf.byte torn_page
    rw [dif_pos hi, dif_pos hi, dif_pos hi]
    by_cases hm : mask ⟨byte_in_page_of_xid xid, hi⟩
    · rw [if_pos hm]; exact .inr rfl
    · rw [if_neg hm]; exact .inl rfl
  rcases hbyte with h | h <;> rw [h]
  · exact hold
  · exact hnew

end Ams
