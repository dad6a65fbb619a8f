import Mathlib.Algebra.GroupWithZero.Nat
import Mathlib.Data.List.Basic
import Mathlib.Tactic.Common

/-!
# MiniMem.XArray

The kernel's xarray as an ordered map from indices to entries: load, store,
erase, and the cursor of `xa_for_each`, which looks for the first entry at
or after an index.
-/

namespace MiniMem

/-- `struct xarray`, with entries of type `α`. -/
abbrev XArray (α : Type) := Std.ExtTreeMap Nat α compare

namespace XArray

variable {α : Type} {x : XArray α} {i j cursor : Nat} {e : α}

/-- `xa_load`. -/
def load (x : XArray α) (i : Nat) : Option α := x[i]?

/-- `xa_store`. -/
def store (x : XArray α) (i : Nat) (e : α) : XArray α := x.insert i e

/-- `xa_erase`. -/
def erase (x : XArray α) (i : Nat) : XArray α := Std.ExtTreeMap.erase x i

/-- `xa_find`: the first entry at or after `cursor`. -/
def findFrom (x : XArray α) (cursor : Nat) : Option (Nat × α) :=
  x.toList.find? fun p => decide (cursor ≤ p.1)

/-! ## load after an update -/

/-- Nothing is in the empty array. -/
@[simp] theorem load_empty : load (∅ : XArray α) i = none := by
  simp [load]

/-- A store changes its slot and no other. -/
theorem load_store (x : XArray α) (i j : Nat) (e : α) :
    (x.store i e).load j = if j = i then some e else x.load j := by
  rw [load, store, Std.ExtTreeMap.getElem?_insert, load]
  simp only [Nat.compare_eq_eq, eq_comm (a := j)]

/-- So does an erasure. -/
theorem load_erase (x : XArray α) (i j : Nat) :
    (x.erase i).load j = if j = i then none else x.load j := by
  rw [load, erase, Std.ExtTreeMap.getElem?_erase, load]
  simp only [Nat.compare_eq_eq, eq_comm (a := j)]

/-- What is stored is there. -/
@[simp] theorem load_store_self : (x.store i e).load i = some e := by
  rw [load_store, if_pos rfl]

/-- The other slots are as before. -/
theorem load_store_of_ne (h : j ≠ i) : (x.store i e).load j = x.load j := by
  rw [load_store, if_neg h]

/-- What is erased is gone. -/
@[simp] theorem load_erase_self : (x.erase i).load i = none := by
  rw [load_erase, if_pos rfl]

/-- A slot is vacant when its index is not in the array. -/
theorem load_eq_none_iff_not_mem : x.load i = none ↔ i ∉ x := by
  simp [load]

/-- Erasing does not see what was stored last. -/
theorem erase_store (x : XArray α) (i : Nat) (e : α) : (x.store i e).erase i = x.erase i := by
  apply Std.ExtTreeMap.ext_getElem?
  intro j
  have hload := load_erase (x.store i e) i j
  have hload' := load_erase x i j
  rw [load] at hload hload'
  rw [hload, hload', load_store]
  by_cases hj : j = i
  · rw [if_pos hj, if_pos hj]
  · rw [if_neg hj, if_neg hj, if_neg hj]

/-- Erasing a vacant slot does nothing. -/
theorem erase_of_vacant (h : x.load i = none) : x.erase i = x := by
  apply Std.ExtTreeMap.ext_getElem?
  intro j
  have hload := load_erase x i j
  rw [load] at hload
  rw [hload]
  by_cases hj : j = i
  · rw [if_pos hj, hj]
    exact h.symm
  · rw [if_neg hj, load]

/-- Erasing several entries one after the other. -/
theorem load_foldl_erase (is : List Nat) (x : XArray α) (j : Nat) :
    (is.foldl erase x).load j = if j ∈ is then none else x.load j := by
  induction is generalizing x with
  | nil => simp
  | cons i is ih =>
      rw [List.foldl_cons, ih, load_erase]
      by_cases hj : j = i
      · simp [hj]
      · simp [hj]

/-- The occupied indices, in order. -/
theorem mem_keys_iff_load : i ∈ x.keys ↔ x.load i ≠ none := by
  rw [Std.ExtTreeMap.mem_keys, Ne, load_eq_none_iff_not_mem, not_not]

/-! ## size after an update -/

/-- Storing at a vacant index adds an entry, storing over one replaces it. -/
theorem size_store : (x.store i e).size = if x.load i = none then x.size + 1 else x.size := by
  rw [store, Std.ExtTreeMap.size_insert, Std.ExtTreeMap.contains_eq_isSome_getElem?, load]
  cases x[i]? <;> simp

/-- An erasure takes one entry, or none from a vacant slot. -/
theorem size_erase : (x.erase i).size = if x.load i = none then x.size else x.size - 1 := by
  rw [erase, Std.ExtTreeMap.size_erase, Std.ExtTreeMap.contains_eq_isSome_getElem?, load]
  cases x[i]? <;> simp

/-- An array with an entry is not empty. -/
theorem size_pos_of_load (h : x.load i = some e) : 0 < x.size := by
  have hmem : i ∈ x := by
    by_contra hmem
    rw [load_eq_none_iff_not_mem.2 hmem] at h
    cases h
  have hne : x ≠ ∅ := by
    rintro rfl
    simp at hmem
  rw [Nat.pos_iff_ne_zero]
  intro hzero
  exact hne (Std.ExtTreeMap.eq_empty_iff_size_eq_zero.2 hzero)

/-! ## the cursor -/

/-- The list holds exactly what can be loaded. -/
theorem mem_toList_iff_load : (i, e) ∈ x.toList ↔ x.load i = some e :=
  Std.ExtTreeMap.mem_toList_iff_getElem?_eq_some

/-- What is found is the entry at the least occupied index from the cursor on. -/
theorem findFrom_eq_some (h : x.findFrom cursor = some (i, e)) :
    x.load i = some e ∧ cursor ≤ i ∧ ∀ j, cursor ≤ j → j < i → x.load j = none := by
  rw [findFrom, List.find?_eq_some_iff_append] at h
  obtain ⟨hcursor, pre, post, hlist, hpre⟩ := h
  have hload : x.load i = some e := by
    rw [← mem_toList_iff_load, hlist]
    simp
  refine ⟨hload, by simpa using hcursor, ?_⟩
  intro j hj hji
  cases hloadj : x.load j with
  | none => rfl
  | some e' =>
      have hmem := mem_toList_iff_load.2 hloadj
      have hord := Std.ExtTreeMap.ordered_keys_toList (t := x)
      rw [hlist] at hmem hord
      rw [List.pairwise_append, List.pairwise_cons] at hord
      obtain ⟨-, ⟨hafter, -⟩, -⟩ := hord
      rw [List.mem_append, List.mem_cons] at hmem
      rcases hmem with hin | heq | hin
      · have := hpre _ hin
        simp at this
        omega
      · injection heq with heq
        omega
      · have hlt := hafter _ hin
        rw [Nat.compare_eq_lt] at hlt
        have : i < j := hlt
        omega

/-- Where nothing is found, there is nothing from the cursor on. -/
theorem load_of_findFrom_eq_none (h : x.findFrom cursor = none) (hi : cursor ≤ i) :
    x.load i = none := by
  rw [findFrom, List.find?_eq_none] at h
  cases hload : x.load i with
  | none => rfl
  | some e => exact absurd (decide_eq_true hi) (h (i, e) (mem_toList_iff_load.2 hload))

/-- An array without entries has size 0. -/
theorem size_eq_zero_of_load (h : ∀ i, x.load i = none) : x.size = 0 := by
  have hempty : x = ∅ := Std.ExtTreeMap.ext_getElem? fun i => by
    rw [Std.ExtTreeMap.getElem?_empty]
    exact h i
  rw [hempty]
  exact Std.ExtTreeMap.size_empty

/-- The entries at or after an index, in order. -/
def entriesFrom (x : XArray α) (cursor : Nat) : List (Nat × α) :=
  x.toList.filter fun p => decide (cursor ≤ p.1)

/-- From index 0 on that is all. -/
theorem entriesFrom_zero (x : XArray α) : x.entriesFrom 0 = x.toList := by
  simp [entriesFrom]

/-- The search gives the first entry from the cursor on. -/
theorem findFrom_eq_head? (x : XArray α) (cursor : Nat) :
    x.findFrom cursor = (x.entriesFrom cursor).head? := by
  rw [findFrom, entriesFrom, List.head?_filter]

/-- The entries from a cursor on. -/
theorem mem_entriesFrom : (i, e) ∈ x.entriesFrom cursor ↔ x.load i = some e ∧ cursor ≤ i := by
  rw [entriesFrom, List.mem_filter, mem_toList_iff_load, decide_eq_true_eq]

/-- Erasing removes the entry from the list. -/
theorem toList_erase (x : XArray α) (i : Nat) :
    (x.erase i).toList = x.toList.filter fun p => decide (p.1 ≠ i) := by
  have hfilter : x.erase i = x.filter fun j _ => decide (j ≠ i) := by
    apply Std.ExtTreeMap.ext_getElem?
    intro j
    have hload := load_erase x i j
    rw [load, load] at hload
    rw [hload, Std.ExtTreeMap.getElem?_filter']
    by_cases h : j = i
    · simp [h]
    · rw [if_neg h]
      cases x[j]? <;> simp [h, Option.filter]
  rw [hfilter, Std.ExtTreeMap.toList_filter]

/-- In a list with distinct keys, one element and those with other keys make up the list. -/
theorem perm_filter_key {l : List (Nat × α)} (hkeys : l.Pairwise fun p q => p.1 ≠ q.1)
    (hmem : (i, e) ∈ l) : l.Perm ((i, e) :: l.filter fun p => decide (p.1 ≠ i)) := by
  induction l with
  | nil => cases hmem
  | cons p l ih =>
      rw [List.pairwise_cons] at hkeys
      obtain ⟨hhead, htail⟩ := hkeys
      rcases List.mem_cons.1 hmem with heq | hin
      · subst heq
        have hrest : l.filter (fun p => decide (p.1 ≠ i)) = l := by
          rw [List.filter_eq_self]
          intro q hq
          exact decide_eq_true (Ne.symm (hhead q hq))
        rw [List.filter_cons, if_neg (by simp), hrest]
      · have hne : p.1 ≠ i := hhead _ hin
        rw [List.filter_cons, if_pos (decide_eq_true hne)]
        exact ((ih htail hin).cons p).trans (.swap _ _ _)

/-- The entries of an array are the one at an occupied index and those left when it is erased. -/
theorem toList_perm_erase (h : x.load i = some e) :
    x.toList.Perm ((i, e) :: (x.erase i).toList) := by
  have hkeys : x.toList.Pairwise fun p q => p.1 ≠ q.1 := by
    refine Std.ExtTreeMap.distinct_keys_toList.imp ?_
    intro p q hpq
    simpa using hpq
  rw [toList_erase]
  exact perm_filter_key hkeys (mem_toList_iff_load.2 h)

/-- Storing at a vacant index adds the entry to those there were. -/
theorem toList_perm_store (h : x.load i = none) :
    (x.store i e).toList.Perm ((i, e) :: x.toList) := by
  have hperm := toList_perm_erase (load_store_self (x := x) (i := i) (e := e))
  rwa [erase_store, erase_of_vacant h] at hperm

/-! ## sums over the entries -/

/-- The sum of a measure of the entries. -/
def sum (f : α → Nat) (x : XArray α) : Nat := (x.toList.map fun p => f p.2).sum

/-- There is nothing to add up. -/
@[simp] theorem sum_empty (f : α → Nat) : sum f (∅ : XArray α) = 0 := by
  rw [sum, Std.ExtTreeMap.toList_eq_nil_iff.2 rfl]
  rfl

/-- An entry and the others. -/
theorem sum_erase (h : x.load i = some e) (f : α → Nat) :
    sum f x = f e + sum f (x.erase i) := by
  have hperm := ((toList_perm_erase h).map fun p => f p.2).sum_nat
  rwa [List.map_cons, List.sum_cons] at hperm

/-- A store counts what is stored instead of what was there. -/
theorem sum_store (x : XArray α) (i : Nat) (e : α) (f : α → Nat) :
    sum f (x.store i e) = f e + sum f (x.erase i) := by
  rw [← erase_store x i e]
  exact sum_erase load_store_self f

/-- In a vacant slot it adds. -/
theorem sum_store_of_vacant (h : x.load i = none) (f : α → Nat) :
    sum f (x.store i e) = f e + sum f x := by
  rw [sum_store, erase_of_vacant h]

/-- The cursor at the start finds an entry where there is one. -/
theorem exists_findFrom_zero (h : x.load i = some e) : ∃ p, x.findFrom 0 = some p := by
  rw [← Option.ne_none_iff_exists']
  intro hnone
  rw [load_of_findFrom_eq_none hnone (Nat.zero_le i)] at h
  cases h

/-- Behind the first entry from a cursor on come the entries from the next index on, and
erasing that entry does not change them. -/
theorem entriesFrom_erase {rest : List (Nat × α)} (h : x.entriesFrom cursor = (i, e) :: rest) :
    (x.erase i).entriesFrom (i + 1) = rest := by
  have hcursor : cursor ≤ i := (mem_entriesFrom.1 (h ▸ List.mem_cons_self)).2
  have hord : (x.entriesFrom cursor).Pairwise fun p q => compare p.1 q.1 = .lt :=
    Std.ExtTreeMap.ordered_keys_toList.filter _
  rw [h, List.pairwise_cons] at hord
  have hrest : rest.filter (fun p => decide (i + 1 ≤ p.1)) = rest := by
    rw [List.filter_eq_self]
    intro p hp
    have hlt := hord.1 p hp
    rw [Nat.compare_eq_lt] at hlt
    exact decide_eq_true (show i + 1 ≤ p.1 from hlt)
  have hback : (x.entriesFrom cursor).filter (fun p => decide (i + 1 ≤ p.1)) = rest := by
    rw [h, List.filter_cons, if_neg (by simp), hrest]
  rw [← hback, entriesFrom, entriesFrom, toList_erase, List.filter_filter, List.filter_filter]
  apply List.filter_congr
  intro p _
  by_cases hp : i + 1 ≤ p.1
  · simp [hp, show p.1 ≠ i by omega, show cursor ≤ p.1 by omega]
  · simp [hp]

end XArray

end MiniMem
