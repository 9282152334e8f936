/-
Finite maps as association lists in strictly increasing key order.

This is the model of an ordered map (`BTreeMap`) and, where iteration order does
not matter, of a hash map: lookups, insertions and removals are the map's own,
iteration is the list, and the smallest key is the list's head. The order is a
field of the structure, so a map with a duplicate key cannot be written down and
`mem_toList` below is an equivalence without side conditions.
-/
import Mathlib.Tactic

set_option autoImplicit false

namespace Ams.Lib

/-- A finite map from `κ` to `α`, its entries in strictly increasing key order. -/
structure OrdMap (κ α : Type*) [LinearOrder κ] where
  toList : List (κ × α)
  sorted : toList.Pairwise (fun a b => a.1 < b.1)

namespace OrdMap

variable {κ α : Type*} [LinearOrder κ]

/-- The map without entries. -/
def empty : OrdMap κ α := ⟨[], List.Pairwise.nil⟩

/-- The value stored under `k`. -/
def getList (k : κ) : List (κ × α) → Option α
  | [] => none
  | (k', v) :: l => if k' = k then some v else getList k l

def get? (m : OrdMap κ α) (k : κ) : Option α := getList k m.toList

/-- The keys, smallest first. -/
def keys (m : OrdMap κ α) : List κ := m.toList.map Prod.fst

/-- Store `v` under `k`, replacing what was there. -/
def insertList (k : κ) (v : α) : List (κ × α) → List (κ × α)
  | [] => [(k, v)]
  | (k', v') :: l =>
    if k < k' then (k, v) :: (k', v') :: l
    else if k = k' then (k, v) :: l
    else (k', v') :: insertList k v l

variable {l : List (κ × α)}

theorem mem_insertList {k : κ} {v : α} {p : κ × α} (h : p ∈ insertList k v l) : p = (k, v) ∨ p ∈ l := by
  induction l with
  | nil => exact .inl (List.mem_singleton.mp h)
  | cons q l ih =>
    obtain ⟨k', v'⟩ := q
    simp only [insertList] at h
    split_ifs at h with h1 h2
    · rcases List.mem_cons.mp h with h | h
      · exact .inl h
      · exact .inr h
    · rcases List.mem_cons.mp h with h | h
      · exact .inl h
      · exact .inr (.tail _ h)
    · rcases List.mem_cons.mp h with h | h
      · exact .inr (h ▸ (.head _))
      · rcases ih h with h | h
        · exact .inl h
        · exact .inr (.tail _ h)

theorem sorted_insertList {k : κ} {v : α} (hl : l.Pairwise (fun a b => a.1 < b.1)) :
    (insertList k v l).Pairwise (fun a b => a.1 < b.1) := by
  induction l with
  | nil => exact List.pairwise_singleton _ _
  | cons q l ih =>
    obtain ⟨k', v'⟩ := q
    obtain ⟨hq, hl'⟩ := List.pairwise_cons.mp hl
    simp only [insertList]
    split_ifs with h1 h2
    · refine List.pairwise_cons.mpr ⟨fun p hp => ?_, hl⟩
      rcases List.mem_cons.mp hp with hp | hp
      · rw [hp]; exact h1
      · exact lt_trans h1 (hq p hp)
    · exact List.pairwise_cons.mpr ⟨fun p hp => h2 ▸ hq p hp, hl'⟩
    · refine List.pairwise_cons.mpr ⟨fun p hp => ?_, ih hl'⟩
      rcases mem_insertList hp with hp | hp
      · rw [hp]; exact lt_of_le_of_ne (not_lt.mp h1) (Ne.symm h2)
      · exact hq p hp

def insert (m : OrdMap κ α) (k : κ) (v : α) : OrdMap κ α :=
  ⟨insertList k v m.toList, sorted_insertList m.sorted⟩

/-- Drop the entry of `k`, if any. -/
def erase (m : OrdMap κ α) (k : κ) : OrdMap κ α :=
  ⟨m.toList.filter (fun p => p.1 ≠ k), m.sorted.sublist List.filter_sublist⟩

/-- Visit every entry: `none` drops it, `some` replaces its value. -/
def filterMap (m : OrdMap κ α) (f : κ → α → Option α) : OrdMap κ α :=
  ⟨m.toList.filterMap fun p => (f p.1 p.2).map (Prod.mk p.1), by
    rw [List.pairwise_filterMap]
    refine m.sorted.imp fun {a b} hab p hp q hq => ?_
    obtain ⟨v, -, rfl⟩ := Option.map_eq_some_iff.mp hp
    obtain ⟨w, -, rfl⟩ := Option.map_eq_some_iff.mp hq
    exact hab⟩

def isEmpty (m : OrdMap κ α) : Bool := m.toList.isEmpty

/-! ## Lookups -/

theorem mem_iff_getList {k : κ} {v : α} (hl : l.Pairwise (fun a b => a.1 < b.1)) :
    (k, v) ∈ l ↔ getList k l = some v := by
  induction l with
  | nil => simp [getList]
  | cons q l ih =>
    obtain ⟨k', v'⟩ := q
    obtain ⟨hq, hl'⟩ := List.pairwise_cons.mp hl
    by_cases hk : k' = k
    · subst hk
      have hnot : (k', v) ∉ l := fun hm => lt_irrefl k' (hq (k', v) hm)
      simp only [List.mem_cons, Prod.mk.injEq, true_and, getList, if_true, Option.some.injEq]
      constructor
      · rintro (h | h)
        · exact h.symm
        · exact absurd h hnot
      · intro h; exact .inl h.symm
    · rw [getList, if_neg hk, ← ih hl', List.mem_cons]
      constructor
      · rintro (h | h)
        · exact absurd (Prod.mk.inj h).1.symm hk
        · exact h
      · exact Or.inr

variable {m : OrdMap κ α}

/-- The entries of a map are exactly what lookups return. -/
theorem mem_toList {k : κ} {v : α} :
    (k, v) ∈ m.toList ↔ m.get? k = some v := mem_iff_getList m.sorted

@[simp] theorem get?_empty (k : κ) : (empty : OrdMap κ α).get? k = none := rfl

theorem getList_insertList (k k' : κ) (v : α) (hl : l.Pairwise (fun a b => a.1 < b.1)) :
    getList k' (insertList k v l) = if k = k' then some v else getList k' l := by
  induction l with
  | nil => rfl
  | cons q l ih =>
    obtain ⟨c, w⟩ := q
    obtain ⟨hq, hl'⟩ := List.pairwise_cons.mp hl
    simp only [insertList]
    split_ifs with h1 h2 h3 h4 h5
    · rw [getList, if_pos h2]
    · rw [getList, if_neg h2]
    · rw [getList, if_pos h4]
    · subst h3; rw [getList, if_neg h4, getList, if_neg h4]
    · subst h5
      rw [getList, if_neg (Ne.symm h3), ih hl', if_pos rfl]
    · rw [getList, getList, ih hl', if_neg h5]

@[simp] theorem get?_insert (m : OrdMap κ α) (k k' : κ) (v : α) :
    (m.insert k v).get? k' = if k = k' then some v else m.get? k' :=
  getList_insertList k k' v m.sorted

theorem getList_filter_ne (k k' : κ) (l : List (κ × α)) :
    getList k' (l.filter (fun p => p.1 ≠ k)) = if k = k' then none else getList k' l := by
  induction l with
  | nil => simp [getList]
  | cons q l ih =>
    obtain ⟨c, w⟩ := q
    by_cases hc : c = k
    · rw [List.filter_cons_of_neg (by simp [hc]), ih]
      by_cases hk : k = k'
      · rw [if_pos hk, if_pos hk]
      · rw [if_neg hk, if_neg hk, getList, if_neg (by rw [hc]; exact hk)]
    · rw [List.filter_cons_of_pos (by simpa using hc), getList, getList, ih]
      by_cases hk : k = k'
      · rw [if_pos hk, if_neg (by rw [← hk]; exact hc), if_pos hk]
      · rw [if_neg hk, if_neg hk]

@[simp] theorem get?_erase (m : OrdMap κ α) (k k' : κ) :
    (m.erase k).get? k' = if k = k' then none else m.get? k' :=
  getList_filter_ne k k' m.toList

@[simp] theorem get?_filterMap (m : OrdMap κ α) (f : κ → α → Option α) (k : κ) :
    (m.filterMap f).get? k = (m.get? k).bind (f k) := by
  ext v
  rw [← mem_toList, Option.bind_eq_some_iff]
  simp only [filterMap, List.mem_filterMap, Prod.exists, Option.map_eq_some_iff, Prod.mk.injEq]
  constructor
  · rintro ⟨k', v', hmem, w, hw, rfl, rfl⟩
    exact ⟨v', mem_toList.mp hmem, hw⟩
  · rintro ⟨v', hget, hv⟩
    exact ⟨k, v', mem_toList.mpr hget, v, hv, rfl, rfl⟩

theorem isEmpty_eq_false {k : κ} {v : α} (h : m.get? k = some v) :
    m.isEmpty = false := by
  have hmem := mem_toList.mpr h
  rw [isEmpty, List.isEmpty_eq_false_iff]
  exact List.ne_nil_of_mem hmem

/-! ## Keys -/

theorem mem_keys {k : κ} : k ∈ m.keys ↔ ∃ v, m.get? k = some v := by
  simp only [keys, List.mem_map, Prod.exists, mem_toList]
  constructor
  · rintro ⟨a, v, h, rfl⟩
    exact ⟨v, h⟩
  · rintro ⟨v, h⟩
    exact ⟨k, v, h, rfl⟩

/-- The head of the key list is the smallest key. -/
theorem head?_keys_le {k k' : κ} (hk : m.keys.head? = some k) (hk' : k' ∈ m.keys) : k ≤ k' := by
  obtain ⟨l, hl⟩ := m
  cases l with
  | nil => simp [keys] at hk
  | cons q l =>
    simp only [keys, List.map_cons, List.head?_cons, Option.some.injEq] at hk
    subst hk
    simp only [keys, List.map_cons, List.mem_cons, List.mem_map] at hk'
    rcases hk' with rfl | ⟨p, hp, rfl⟩
    · exact le_refl _
    · exact le_of_lt ((List.pairwise_cons.mp hl).1 p hp)

theorem head?_keys_mem {k : κ} (hk : m.keys.head? = some k) : k ∈ m.keys :=
  List.mem_of_mem_head? hk

end OrdMap

end Ams.Lib
