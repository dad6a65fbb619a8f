import Mathlib.Data.List.Basic
import Mathlib.Data.List.Nodup
import Mathlib.Tactic.Common

/-!
# MiniMem.GroupBy

Tables built by a linear search.  Items come one after another; each goes
into the row that has its key, which adds it up, or begins a new row behind
the others.  In the end there is one row for each key that occurs, and a row
holds what the items of its key add up to, in the order in which they came.
-/

namespace MiniMem

/-- How a table of rows `ρ` takes in items `ε` by keys `κ`. -/
structure Grouping (ε ρ κ : Type*) where
  key : ε → κ
  rowKey : ρ → κ
  new : ε → ρ
  add : ρ → ε → ρ
  rowKey_new : ∀ e, rowKey (new e) = key e
  rowKey_add : ∀ r e, rowKey (add r e) = rowKey r

namespace Grouping

variable {ε ρ κ : Type*} [DecidableEq κ] (g : Grouping ε ρ κ)

/-- The first row with the key of the item takes it in, or a new one does. -/
def upsert (e : ε) : List ρ → List ρ
  | [] => [g.new e]
  | r :: rows => if g.rowKey r = g.key e then g.add r e :: rows else r :: upsert e rows

/-- The items of one key. -/
def group (k : κ) (es : List ε) : List ε := es.filter fun e => decide (g.key e = k)

/-- The row is what the items add up to. -/
def Total (r : ρ) : List ε → Prop
  | [] => False
  | e :: es => r = es.foldl g.add (g.new e)

/-- The rows are the table of the items. -/
structure Table (es : List ε) (rows : List ρ) : Prop where
  nodup : (rows.map g.rowKey).Nodup
  keys : ∀ k, k ∈ rows.map g.rowKey ↔ k ∈ es.map g.key
  total : ∀ r ∈ rows, g.Total r (g.group (g.rowKey r) es)

variable {g} {e : ε} {es : List ε} {r : ρ} {rows : List ρ}

omit [DecidableEq κ] in
theorem Total.append (h : g.Total r es) (e : ε) : g.Total (g.add r e) (es ++ [e]) := by
  cases es with
  | nil => exact h.elim
  | cons e' es =>
      rw [List.cons_append, Total, List.foldl_append, ← show r = es.foldl g.add (g.new e') from h]
      rfl

theorem group_append_of_eq {k : κ} (h : g.key e = k) :
    g.group k (es ++ [e]) = g.group k es ++ [e] := by
  simp [group, h]

theorem group_append_of_ne {k : κ} (h : g.key e ≠ k) :
    g.group k (es ++ [e]) = g.group k es := by
  simp [group, h]

theorem group_eq_nil {k : κ} (h : k ∉ es.map g.key) : g.group k es = [] := by
  rw [group, List.filter_eq_nil_iff]
  intro e he hkey
  exact h (List.mem_map.2 ⟨e, he, of_decide_eq_true hkey⟩)

/-- The keys of the rows after an item. -/
theorem map_rowKey_upsert (e : ε) (rows : List ρ) :
    (g.upsert e rows).map g.rowKey =
      if g.key e ∈ rows.map g.rowKey then rows.map g.rowKey
      else rows.map g.rowKey ++ [g.key e] := by
  induction rows with
  | nil => simp [upsert, g.rowKey_new]
  | cons r rows ih =>
      unfold upsert
      by_cases hr : g.rowKey r = g.key e
      · simp [hr, g.rowKey_add]
      · have hne : ¬g.key e = g.rowKey r := fun h => hr h.symm
        simp only [if_neg hr, List.map_cons, ih, List.mem_cons, hne, false_or]
        split <;> rfl

/-- A row of the table after an item is one of before, the one that has taken the item in, or
a new one. -/
theorem mem_upsert (hnodup : (rows.map g.rowKey).Nodup) (h : r ∈ g.upsert e rows) :
    (r ∈ rows ∧ g.rowKey r ≠ g.key e) ∨
      (∃ r' ∈ rows, g.rowKey r' = g.key e ∧ r = g.add r' e) ∨
        (g.key e ∉ rows.map g.rowKey ∧ r = g.new e) := by
  induction rows with
  | nil =>
      rw [upsert, List.mem_singleton] at h
      exact .inr (.inr ⟨List.not_mem_nil, h⟩)
  | cons r' rows ih =>
      rw [List.map_cons, List.nodup_cons] at hnodup
      unfold upsert at h
      split at h
      next hr' =>
        rcases List.mem_cons.1 h with rfl | hmem
        · exact .inr (.inl ⟨r', List.mem_cons_self, hr', rfl⟩)
        · refine .inl ⟨List.mem_cons_of_mem _ hmem, fun hkey => hnodup.1 ?_⟩
          rw [hr', ← hkey]
          exact List.mem_map_of_mem hmem
      next hr' =>
        rcases List.mem_cons.1 h with rfl | hmem
        · exact .inl ⟨List.mem_cons_self, hr'⟩
        · rcases ih hnodup.2 hmem with ⟨hold, hne⟩ | ⟨r'', hr'', hkey, rfl⟩ | ⟨hnew, rfl⟩
          · exact .inl ⟨List.mem_cons_of_mem _ hold, hne⟩
          · exact .inr (.inl ⟨r'', List.mem_cons_of_mem _ hr'', hkey, rfl⟩)
          · refine .inr (.inr ⟨fun hin => ?_, rfl⟩)
            rcases List.mem_cons.1 hin with heq | hin
            · exact hr' heq.symm
            · exact hnew hin

theorem Table.nil : g.Table [] [] := ⟨List.nodup_nil, fun _ => Iff.rfl, fun _ h => by cases h⟩

/-- Taking an item in makes the table of one item more. -/
theorem Table.upsert (h : g.Table es rows) (e : ε) : g.Table (es ++ [e]) (g.upsert e rows) := by
  refine ⟨?_, fun k => ?_, fun r hr => ?_⟩
  · rw [map_rowKey_upsert]
    split
    · exact h.nodup
    next hnew => exact List.nodup_append.2 ⟨h.nodup, List.nodup_singleton _, fun k hk k' hk' => by
        rw [List.mem_singleton] at hk'
        rintro rfl
        exact hnew (hk' ▸ hk)⟩
  · rw [map_rowKey_upsert, List.map_append, List.mem_append, ← h.keys]
    split
    next hin =>
      refine ⟨.inl, fun hk => hk.elim id fun hk => ?_⟩
      rw [List.map_singleton, List.mem_singleton] at hk
      rwa [hk]
    · rw [List.mem_append, List.map_singleton]
  · rcases mem_upsert h.nodup hr with ⟨hold, hne⟩ | ⟨r', hr', hkey, rfl⟩ | ⟨hnew, rfl⟩
    · rw [group_append_of_ne hne.symm]
      exact h.total r hold
    · rw [g.rowKey_add, group_append_of_eq hkey.symm]
      exact (h.total r' hr').append e
    · rw [g.rowKey_new, group_append_of_eq rfl,
        group_eq_nil (fun hin => hnew ((h.keys _).2 hin))]
      exact rfl

end Grouping

end MiniMem
