/-
Readers of byte strings, for formats that are read front to back.

A reader takes the bytes ahead and gives a value and what is left. The one notion the
proofs use is `Reads p bs a`: whatever follows `bs`, the reader takes exactly `bs` and
gives `a`. It composes along `bind`, so the round trip of a format is assembled from
those of its fields. `Framed p bs as` is the same for a sequence of messages, and
`Framed.readAll` says that the greedy loop finds that sequence; there is no other.
-/
import Ams.Lib.Bytes

set_option autoImplicit false

namespace Ams.Lib

/-! ## Big-endian numbers -/

/-- The `w` low-order bytes of `v`, most significant first. -/
def beBytes (w v : ℕ) : List UInt8 := (leBytes w v).reverse

def ofBe (bs : List UInt8) : ℕ := ofLe bs.reverse

@[simp] theorem length_beBytes (w v : ℕ) : (beBytes w v).length = w := by
  rw [beBytes, List.length_reverse, length_leBytes]

theorem ofBe_beBytes (w v : ℕ) : ofBe (beBytes w v) = v % 256 ^ w := by
  rw [ofBe, beBytes, List.reverse_reverse, ofLe_leBytes]

theorem ofBe_beBytes_of_lt {w v : ℕ} (h : v < 256 ^ w) : ofBe (beBytes w v) = v := by
  rw [ofBe_beBytes, Nat.mod_eq_of_lt h]

/-- Two's complement in `w` bytes. -/
def beInt (w : ℕ) (i : ℤ) : List UInt8 := beBytes w (i % 256 ^ w).toNat

/-- The number that `w` bytes of two's complement denote. -/
def signed (w v : ℕ) : ℤ := if 2 * v < 256 ^ w then v else (v : ℤ) - 256 ^ w

@[simp] theorem length_beInt (w : ℕ) (i : ℤ) : (beInt w i).length = w := length_beBytes w _

theorem signed_ofBe_beInt {w : ℕ} {i : ℤ} (hlo : -256 ^ w ≤ 2 * i) (hhi : 2 * i < 256 ^ w) :
    signed w (ofBe (beInt w i)) = i := by
  have hpos : (0 : ℤ) < 256 ^ w := by positivity
  have hmod : 0 ≤ i % 256 ^ w := Int.emod_nonneg _ hpos.ne'
  have hlt : (i % 256 ^ w).toNat < 256 ^ w := by
    have := Int.emod_lt_of_pos i hpos
    zify
    rw [Int.toNat_of_nonneg hmod]
    exact this
  rw [beInt, ofBe_beBytes_of_lt hlt, signed]
  by_cases hneg : i < 0
  · have heq : i % 256 ^ w = i + 256 ^ w := by
      rw [← Int.add_emod_right]
      exact Int.emod_eq_of_lt (by omega) (by omega)
    rw [heq]
    have hval : ((i + 256 ^ w).toNat : ℤ) = i + 256 ^ w := Int.toNat_of_nonneg (by omega)
    rw [if_neg, hval]
    · ring
    · zify
      rw [hval]
      omega
  · have heq : i % 256 ^ w = i := Int.emod_eq_of_lt (by omega) (by omega)
    rw [heq]
    have hval : (i.toNat : ℤ) = i := Int.toNat_of_nonneg (by omega)
    rw [if_pos, hval]
    zify
    rw [hval]
    exact hhi

/-! ## Readers -/

/-- A reader of a value of type `α`. -/
def ByteReader (α : Type) : Type := List UInt8 → Option (α × List UInt8)

namespace ByteReader

variable {α β : Type}

protected def pure (a : α) : ByteReader α := fun bs => some (a, bs)

protected def bind (p : ByteReader α) (f : α → ByteReader β) : ByteReader β := fun bs =>
  (p bs).bind fun r => f r.1 r.2

instance : Monad ByteReader where
  pure := ByteReader.pure
  bind := ByteReader.bind

theorem bind_apply (p : ByteReader α) (f : α → ByteReader β) (bs : List UInt8) :
    (p >>= f) bs = (p bs).bind fun r => f r.1 r.2 := rfl

def fail : ByteReader α := fun _ => none

/-- A value found without taking anything. -/
def ofOption (o : Option α) : ByteReader α := fun bs => o.map fun a => (a, bs)

/-- `n` bytes. -/
def take (n : ℕ) : ByteReader (List UInt8) := fun bs =>
  if n ≤ bs.length then some (bs.take n, bs.drop n) else none

/-- An unsigned number of `w` bytes. -/
def unsigned (w : ℕ) : ByteReader ℕ := fun bs => (take w bs).map fun r => (ofBe r.1, r.2)

/-- A signed number of `w` bytes. -/
def int (w : ℕ) : ByteReader ℤ := fun bs => (take w bs).map fun r => (signed w (ofBe r.1), r.2)

/-- The bytes up to a zero, which is taken too. -/
def cstring : ByteReader (List UInt8)
  | [] => none
  | b :: bs => if b = 0 then some ([], bs) else (cstring bs).map fun r => (b :: r.1, r.2)

/-- `n` values in a row. -/
def times (p : ByteReader α) : ℕ → ByteReader (List α)
  | 0 => ByteReader.pure []
  | n + 1 => ByteReader.bind p fun a => ByteReader.bind (times p n) fun as => ByteReader.pure (a :: as)

/-- The value, if the reader takes all of the bytes. -/
def whole (p : ByteReader α) (bs : List UInt8) : Option α :=
  match p bs with
  | some (a, []) => some a
  | _ => none

/-- The loop of `readAll`. -/
def readAllLoop (p : ByteReader α) : ℕ → List UInt8 → Option (List α)
  | _, [] => some []
  | 0, _ :: _ => none
  | fuel + 1, b :: bs => (p (b :: bs)).bind fun r => (readAllLoop p fuel r.2).map (r.1 :: ·)

/-- Values to the end of the bytes. A reader that takes nothing has no sequence. -/
def readAll (p : ByteReader α) (bs : List UInt8) : Option (List α) := readAllLoop p bs.length bs

/-- Whatever follows, the reader takes `bs` and gives `a`. -/
def Reads (p : ByteReader α) (bs : List UInt8) (a : α) : Prop := ∀ rest, p (bs ++ rest) = some (a, rest)

theorem reads_pure (a : α) : Reads (pure a) [] a := fun _ => rfl

theorem reads_ofOption {o : Option α} {a : α} (h : o = some a) : Reads (ofOption o) [] a := by
  intro rest
  rw [h]
  rfl

theorem Reads.bind {p : ByteReader α} {f : α → ByteReader β} {bs cs : List UInt8} {a : α} {b : β}
    (hp : Reads p bs a) (hf : Reads (f a) cs b) : Reads (p >>= f) (bs ++ cs) b := by
  intro rest
  rw [bind_apply, List.append_assoc, hp (cs ++ rest)]
  exact hf rest

/-- A step that takes nothing. -/
theorem Reads.bind_pure {p : ByteReader α} {f : α → β} {bs : List UInt8} {a : α} (hp : Reads p bs a) :
    Reads (p >>= fun a => pure (f a)) bs (f a) := by
  have h := @Reads.bind _ _ p (fun a => pure (f a)) bs [] a (f a) hp (reads_pure (f a))
  rwa [List.append_nil] at h

theorem reads_take {n : ℕ} {bs : List UInt8} (h : bs.length = n) : Reads (take n) bs bs := by
  intro rest
  unfold take
  rw [if_pos (by rw [List.length_append]; omega), ← h, List.take_left, List.drop_left]

theorem reads_unsigned {w v : ℕ} (h : v < 256 ^ w) : Reads (unsigned w) (beBytes w v) v := by
  intro rest
  unfold unsigned
  rw [reads_take (length_beBytes w v) rest, Option.map_some, ofBe_beBytes_of_lt h]

theorem reads_int {w : ℕ} {i : ℤ} (hlo : -256 ^ w ≤ 2 * i) (hhi : 2 * i < 256 ^ w) :
    Reads (int w) (beInt w i) i := by
  intro rest
  unfold int
  rw [reads_take (length_beInt w i) rest, Option.map_some, signed_ofBe_beInt hlo hhi]

theorem reads_cstring {s : List UInt8} (h : (0 : UInt8) ∉ s) : Reads cstring (s ++ [0]) s := by
  intro rest
  induction s with
  | nil => rw [List.nil_append, List.singleton_append, cstring, if_pos rfl]
  | cons b s ih =>
    have hb : b ≠ 0 := fun heq => h (by rw [heq]; exact .head _)
    have hs : (0 : UInt8) ∉ s := fun hmem => h (.tail _ hmem)
    rw [List.cons_append, List.cons_append, cstring, if_neg hb, ih hs]
    rfl

/-- As many values as the list has, each read from what it is written as. -/
theorem reads_times_map {p : ByteReader β} {enc : α → List UInt8} {val : α → β} {as : List α}
    (h : ∀ a ∈ as, Reads p (enc a) (val a)) :
    Reads (times p as.length) (as.flatMap enc) (as.map val) := by
  induction as with
  | nil => exact reads_pure []
  | cons a as ih =>
    have htail := ih fun x hx => h x (.tail _ hx)
    exact (h a (.head _)).bind htail.bind_pure

theorem Reads.whole {p : ByteReader α} {bs : List UInt8} {a : α} (h : Reads p bs a) :
    p.whole bs = some a := by
  have heq := h []
  rw [List.append_nil] at heq
  unfold ByteReader.whole
  rw [heq]

/-- Bytes that do not start with a message are no sequence. -/
theorem readAll_eq_none {p : ByteReader α} {bs : List UInt8} (h : p bs = none) (hne : bs ≠ []) :
    p.readAll bs = none := by
  obtain ⟨b, bs, rfl⟩ := List.exists_cons_of_ne_nil hne
  rw [readAll, List.length_cons, readAllLoop, h]
  rfl

end ByteReader

/-! ## Sequences of messages -/

open ByteReader

/-- `bs` is a sequence of messages of the reader. -/
inductive Framed {α : Type} (p : ByteReader α) : List UInt8 → List α → Prop
  | nil : Framed p [] []
  | cons {bs rest : List UInt8} {a : α} {as : List α} (h : Reads p bs a) (hne : bs ≠ [])
      (hrest : Framed p rest as) : Framed p (bs ++ rest) (a :: as)

namespace Framed

variable {α : Type} {p : ByteReader α} {bs cs : List UInt8} {as as' : List α}

theorem single {a : α} (h : Reads p bs a) (hne : bs ≠ []) : Framed p bs [a] := by
  have hf := Framed.cons h hne .nil
  rwa [List.append_nil] at hf

theorem append (h : Framed p bs as) (h' : Framed p cs as') : Framed p (bs ++ cs) (as ++ as') := by
  induction h with
  | nil => exact h'
  | cons hr hne _ ih =>
    rw [List.append_assoc, List.cons_append]
    exact .cons hr hne ih

theorem readAllLoop (h : Framed p bs as) {fuel : ℕ} (hf : bs.length ≤ fuel) :
    p.readAllLoop fuel bs = some as := by
  induction h generalizing fuel with
  | nil => rw [ByteReader.readAllLoop]
  | @cons bs rest a as hr hne hrest ih =>
    -- a message has a first byte, so there is fuel for the rest
    obtain ⟨b, bs, rfl⟩ := List.exists_cons_of_ne_nil hne
    rw [List.length_append, List.length_cons] at hf
    obtain ⟨n, rfl⟩ : ∃ n, fuel = n + 1 := ⟨fuel - 1, by omega⟩
    have hread := hr rest
    rw [List.cons_append] at hread ⊢
    rw [ByteReader.readAllLoop, hread, Option.bind_some, ih (by omega), Option.map_some]

/-- The loop finds the sequence. -/
theorem readAll (h : Framed p bs as) : p.readAll bs = some as := h.readAllLoop le_rfl

/-- There is at most one sequence. -/
theorem unique (h : Framed p bs as) (h' : Framed p bs as') : as = as' :=
  Option.mem_unique h.readAll h'.readAll

end Framed

end Ams.Lib
