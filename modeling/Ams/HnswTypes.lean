/-
What the modules of `pg-am-hnsw` share: errors, node identifiers, parameters.

A call of the crate ends in a value, in one of its errors, or in a panic: an index out of
range, an `expect` that does not hold, an underflow. The model keeps the three apart.
`Failure.panic` is not an error of the source, and the statements that exclude it are about
the code and not about the type.

A node identifier is a `u32`, here a natural number: every identifier that is written is
below a node count that is one. Vector components are the 32-bit words of the `f32`s.
-/
import Ams.Types
import Ams.Lib.Fallible

set_option autoImplicit false

namespace Ams.HnswAm

open Ams.Lib

/-! ## Errors -/

inductive HnswError where
  | InvalidParams (msg : String)
  | InvalidArgument (msg : String)
  | ZeroVector
  | Corrupted (msg : String)
  | ChecksumMismatch (stored computed : ℕ)
  | InvalidOperation (msg : String)
  | Storage (msg : String)
deriving DecidableEq, Repr

/-- How a call ends without a value. -/
inductive Failure where
  | err (e : HnswError)
  | panic
deriving DecidableEq, Repr

abbrev Result (α : Type) := Except Failure α

def corrupted (msg : String) : Failure := .err (.Corrupted msg)

def invalid_argument (msg : String) : Failure := .err (.InvalidArgument msg)

/-- A failure that is an error the source returns. -/
def Failure.IsErr : Failure → Prop
  | .err _ => True
  | .panic => False

/-- The call does not panic. -/
def NoPanic {α : Type} (x : Result α) : Prop := FailsIn Failure.IsErr x

theorem NoPanic.ne_panic {α : Type} {x : Result α} (h : NoPanic x) : x ≠ .error .panic :=
  fun heq => h _ heq

namespace NoPanic

variable {α β : Type}

theorem ok (a : α) : NoPanic (.ok a) := FailsIn.ok a

theorem err (e : HnswError) : NoPanic (.error (.err e) : Result α) := FailsIn.error trivial

theorem of_eq_ok {x : Result α} {a : α} (h : x = .ok a) : NoPanic x := FailsIn.of_eq_ok h

theorem failIf {c : Prop} [Decidable c] (e : HnswError) : NoPanic (failIf c (.err e)) :=
  FailsIn.failIf trivial

theorem bind {x : Result α} {f : α → Result β} (hx : NoPanic x)
    (hf : ∀ a, x = .ok a → NoPanic (f a)) : NoPanic (x >>= f) := FailsIn.bind hx hf

theorem check {c : Prop} [Decidable c] {e : HnswError} {f : PUnit → Result β}
    (hf : NoPanic (f ⟨⟩)) : NoPanic (Lib.failIf c (.err e) >>= f) := bind (failIf e) fun _ _ => hf

theorem forM {f : α → Result Unit} {l : List α} (h : ∀ a ∈ l, NoPanic (f a)) :
    NoPanic (l.forM f) := FailsIn.forM h

theorem foldlM {f : β → α → Result β} {l : List α} (h : ∀ b, ∀ a ∈ l, NoPanic (f b a)) {b : β} :
    NoPanic (l.foldlM f b) := FailsIn.foldlM h

end NoPanic

/-- `l[i]`. -/
def index {α : Type} (l : List α) (i : ℕ) : Result α :=
  match l[i]? with
  | some a => .ok a
  | none => .error .panic

@[simp] theorem index_eq_ok {α : Type} {l : List α} {i : ℕ} {a : α} :
    index l i = .ok a ↔ l[i]? = some a := by
  unfold index
  split
  · rename_i b hb
    rw [hb]
    simp
  · rename_i hb
    rw [hb]
    simp

theorem index_of_lt {α : Type} {l : List α} {i : ℕ} (h : i < l.length) :
    index l i = .ok l[i] := by
  rw [index_eq_ok]
  exact List.getElem?_eq_getElem h

theorem NoPanic.index {α : Type} {l : List α} {i : ℕ} (h : i < l.length) :
    NoPanic (index l i) := .of_eq_ok (index_of_lt h)

/-- An `Option` that is expected to hold a value. -/
def expect {α : Type} : Option α → Result α
  | some a => .ok a
  | none => .error .panic

@[simp] theorem expect_eq_ok {α : Type} {o : Option α} {a : α} :
    expect o = .ok a ↔ o = some a := by
  cases o with
  | none => simp [expect]
  | some b => simp [expect]

/-! ## Identifiers and parameters -/

abbrev NodeId := ℕ

/-- `NodeId::INVALID`, the entry point of an empty graph. -/
abbrev NodeId.INVALID : NodeId := 4294967295

inductive Metric where
  | L2 | Cosine | InnerProduct
deriving DecidableEq, Repr

inductive NeighborSelection where
  | Heuristic | Simple
deriving DecidableEq, Repr

/-- The fields are private in the source, so a value is one that `new` has let through. -/
structure HnswParams where
  m : UInt16
  m_max0 : UInt16
  ef_construction : UInt32
  ef_search_default : UInt32
  two_le_m : 2 ≤ m.toNat
  m_le_m_max0 : m.toNat ≤ m_max0.toNat
  m_le_ef_construction : m.toNat ≤ ef_construction.toNat
  m_le_ef_search_default : m.toNat ≤ ef_search_default.toNat
deriving DecidableEq

/-- `HnswParams::new`. -/
def HnswParams.new (m m_max0 : UInt16) (ef_construction ef_search_default : UInt32) :
    Result HnswParams :=
  if hm : m.toNat < 2 then .error (.err (.InvalidParams
    s!"M = {m} < 2 (§4.2: the geometric level distribution needs ln(M) > 0)"))
  else if hmax : m_max0.toNat < m.toNat then .error (.err (.InvalidParams
    s!"M_max0 = {m_max0} < M = {m} (§4.2: the layer-0 cap must fit one full neighbor set; v1.7 closes the zero-validation gap before Stage B's shrink consumes it)"))
  else if hc : ef_construction.toNat < m.toNat then .error (.err (.InvalidParams
    s!"ef_construction = {ef_construction} < M = {m} (§4.2: the candidate pool must fit one full neighbor set)"))
  else if hs : ef_search_default.toNat < m.toNat then .error (.err (.InvalidParams
    s!"ef_search_default = {ef_search_default} < M = {m} (§4.4: constrains the construction default, not per-query ef)"))
  else .ok ⟨m, m_max0, ef_construction, ef_search_default, not_lt.mp hm, not_lt.mp hmax,
    not_lt.mp hc, not_lt.mp hs⟩

/-! ## Vector components -/

/-- The bits of an `f32`. -/
abbrev F32 := UInt32

/-- `f32::is_finite`: the exponent is not all ones. -/
def F32.is_finite (x : F32) : Bool := x.toNat / 2 ^ 23 % 256 != 255

end Ams.HnswAm
