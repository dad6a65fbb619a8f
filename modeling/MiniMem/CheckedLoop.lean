import Mathlib.Algebra.GroupWithZero.Nat
import Mathlib.Data.List.Basic
import Mathlib.Tactic.Common

/-!
# MiniMem.CheckedLoop

Loops that ask now and then whether to go on, for any state and any items.
A counter, which some of the items move, says when the loop asks: before
every item at which it is a positive multiple of the period.  How many items
go by between two questions is then a matter of which items count; every
gap is at most the period exactly when the items that count come in blocks,

```
1 … 1 (period)   0 … 0 (any number)   1 … 1 (period)   0 … 0   …
```

but for a rest of at most a period at the end.
-/

namespace MiniMem

/-! ## Gaps between questions -/

/-- A loop over items: when it ends without asking, the counter that says when it asks, whether
the answer ends it, and its body with the items that it counts. -/
structure CheckedLoop (σ α : Type*) where
  quits : σ → Bool
  counter : σ → Nat
  period : Nat
  expired : σ → Bool
  body : σ → α → σ
  counts : σ → α → Bool
  counter_body : ∀ s a, counter (body s a) = counter s + (counts s a).toNat

/-- The numbers of items between two questions, where a flag says of each item whether it counts;
`n` items have gone by since the last question. -/
def gapsOf (period : Nat) : Nat → Nat → List Bool → List Nat
  | _, n, [] => [n]
  | counter, n, f :: fs =>
      if 0 < counter ∧ counter % period = 0 then n :: gapsOf period (counter + f.toNat) 1 fs
      else gapsOf period (counter + f.toNat) (n + 1) fs

section Loop

variable {σ α : Type*}

/-- The loop asks before the next item. -/
def CheckedLoop.asks (l : CheckedLoop σ α) (s : σ) : Bool :=
  decide (0 < l.counter s) && l.counter s % l.period == 0

/-- The items that are left when the loop ends, and the state. -/
def CheckedLoop.run (l : CheckedLoop σ α) : List α → σ → List α × σ
  | [], s => ([], s)
  | a :: as, s =>
      if l.quits s then (a :: as, s)
      else if l.asks s && l.expired s then (a :: as, s)
      else l.run as (l.body s a)

/-- The numbers of items that the loop goes over between two questions; it is asked again when
the loop has ended. -/
def CheckedLoop.gaps (l : CheckedLoop σ α) : Nat → List α → σ → List Nat
  | n, [], _ => [n]
  | n, a :: as, s =>
      if l.quits s then [n]
      else if l.asks s then
        if l.expired s then [n, 0] else n :: l.gaps 1 as (l.body s a)
      else l.gaps (n + 1) as (l.body s a)

/-- Which of the items that the loop goes over count. -/
def CheckedLoop.flags (l : CheckedLoop σ α) : List α → σ → List Bool
  | [], _ => []
  | a :: as, s =>
      if l.quits s then []
      else if l.asks s && l.expired s then []
      else l.counts s a :: l.flags as (l.body s a)

variable (l : CheckedLoop σ α)

/-- The gaps make up the items that the loop goes over. -/
theorem CheckedLoop.sum_gaps (n : Nat) (as : List α) (s : σ) :
    (l.gaps n as s).sum + (l.run as s).1.length = n + as.length := by
  induction as generalizing n s with
  | nil => simp [gaps, run]
  | cons a as ih =>
      rw [gaps, run]
      by_cases hquits : l.quits s = true
      · simp [hquits]
      rw [if_neg hquits, if_neg hquits]
      by_cases hasks : l.asks s = true
      · by_cases hexpired : l.expired s = true
        · simp [hasks, hexpired]
        · have hrest := ih 1 (l.body s a)
          rw [if_pos hasks, if_neg hexpired, if_neg (by simp [hexpired]), List.sum_cons,
            List.length_cons]
          omega
      · have hrest := ih (n + 1) (l.body s a)
        rw [if_neg hasks, if_neg (by simp [hasks]), List.length_cons]
        omega

/-- The items that are left are the last of them. -/
theorem CheckedLoop.run_eq_drop (as : List α) (s : σ) :
    (l.run as s).1 = as.drop (l.gaps 0 as s).sum := by
  have hsuffix : (l.run as s).1 <:+ as := by
    induction as generalizing s with
    | nil => exact List.suffix_rfl
    | cons a as ih =>
        rw [run]
        split
        · exact List.suffix_rfl
        split
        · exact List.suffix_rfl
        · exact (ih (l.body s a)).trans (List.suffix_cons a as)
  have hsum := l.sum_gaps 0 as s
  rw [List.suffix_iff_eq_drop.1 hsuffix]
  congr 1
  omega

/-- What the gaps are at most depends on the flags alone. -/
theorem CheckedLoop.gaps_le_iff (n : Nat) (as : List α) (s : σ) (bound : Nat) :
    (∀ g ∈ l.gaps n as s, g ≤ bound) ↔
      ∀ g ∈ gapsOf l.period (l.counter s) n (l.flags as s), g ≤ bound := by
  induction as generalizing n s with
  | nil => rw [gaps, flags, gapsOf]
  | cons a as ih =>
      rw [gaps, flags]
      by_cases hquits : l.quits s = true
      · rw [if_pos hquits, if_pos hquits, gapsOf]
      rw [if_neg hquits, if_neg hquits]
      have hasks : l.asks s = true ↔ 0 < l.counter s ∧ l.counter s % l.period = 0 := by
        rw [asks, Bool.and_eq_true, decide_eq_true_iff, beq_iff_eq]
      by_cases hask : l.asks s = true
      · by_cases hexpired : l.expired s = true
        · simp [hask, hexpired, gapsOf]
        · rw [if_pos hask, if_neg hexpired, if_neg (by simp [hexpired]), gapsOf,
            if_pos (hasks.1 hask), ← l.counter_body, List.forall_mem_cons, List.forall_mem_cons, ih]
      · rw [if_neg hask, if_neg (by simp [hask]), gapsOf, if_neg (fun h => hask (hasks.2 h)),
          ← l.counter_body, ih]

end Loop

/-! ## Blocks -/

/-- The flags come in blocks: a period of items that count, then any number of items that do
not, and a rest of at most a period. -/
inductive Dense (period : Nat) : List Bool → Prop
  | rest {flags : List Bool} (h : flags.length ≤ period) : Dense period flags
  | block {flags : List Bool} (skipped : Nat) (h : Dense period flags) :
      Dense period (List.replicate period true ++ (List.replicate skipped false ++ flags))

section Blocks

variable {period : Nat}

theorem dense_iff {flags : List Bool} : Dense period flags ↔ flags.length ≤ period ∨
    ∃ skipped flags', flags = List.replicate period true ++
      (List.replicate skipped false ++ flags') ∧ Dense period flags' := by
  constructor
  · intro h
    cases h with
    | rest h => exact .inl h
    | block skipped h => exact .inr ⟨skipped, _, rfl, h⟩
  · rintro (h | ⟨skipped, flags', rfl, h⟩)
    · exact .rest h
    · exact .block skipped h

/-- Behind a block of items that count, where the loop asks before every item that does not. -/
def DenseBehind (period : Nat) (flags : List Bool) : Prop :=
  ∃ skipped flags', flags = List.replicate skipped false ++ flags' ∧ Dense period flags'

theorem denseBehind_of_dense {flags : List Bool} (h : Dense period flags) :
    DenseBehind period flags := ⟨0, flags, rfl, h⟩

theorem denseBehind_false_iff (hperiod : 0 < period) {flags : List Bool} :
    DenseBehind period (false :: flags) ↔ DenseBehind period flags := by
  constructor
  · rintro ⟨skipped, flags', heq, h⟩
    cases skipped with
    | zero =>
        -- a block does not begin with an item that does not count
        rw [List.replicate_zero, List.nil_append] at heq
        subst heq
        rcases dense_iff.1 h with hlen | ⟨skipped, flags', heq, -⟩
        · rw [List.length_cons] at hlen
          exact denseBehind_of_dense (.rest (by omega))
        · obtain ⟨p, rfl⟩ := Nat.exists_eq_succ_of_ne_zero (Nat.ne_of_gt hperiod)
          rw [List.replicate_succ, List.cons_append] at heq
          cases heq
    | succ skipped =>
        rw [List.replicate_succ, List.cons_append] at heq
        injection heq with _ heq
        exact ⟨skipped, flags', heq, h⟩
  · rintro ⟨skipped, flags', rfl, h⟩
    exact ⟨skipped + 1, flags', rfl, h⟩

theorem denseBehind_true_iff {flags : List Bool} :
    DenseBehind period (true :: flags) ↔ Dense period (true :: flags) := by
  refine ⟨?_, denseBehind_of_dense⟩
  rintro ⟨skipped, flags', heq, h⟩
  cases skipped with
  | zero =>
      rw [List.replicate_zero, List.nil_append] at heq
      rwa [heq]
  | succ skipped => cases heq

/-- The counter inside a block. -/
theorem not_asks {q r : Nat} (hr : r < period) (hstart : q = 0 ∨ 0 < r) :
    ¬(0 < period * q + r ∧ (period * q + r) % period = 0) := by
  rw [Nat.mul_add_mod, Nat.mod_eq_of_lt hr]
  rcases hstart with rfl | hpos
  · omega
  · omega

/-- The counter behind a block. -/
theorem asks_behind (hperiod : 0 < period) (q : Nat) :
    0 < period * (q + 1) ∧ period * (q + 1) % period = 0 :=
  ⟨Nat.mul_pos hperiod (Nat.succ_pos q), Nat.mul_mod_right period (q + 1)⟩

/-- Behind a block the gap so far counts by itself. -/
theorem gapsOf_behind (hperiod : 0 < period) (q n : Nat) (flags : List Bool) :
    (∀ g ∈ gapsOf period (period * (q + 1)) n flags, g ≤ period) ↔
      n ≤ period ∧ ∀ g ∈ gapsOf period (period * (q + 1)) period flags, g ≤ period := by
  cases flags with
  | nil => simp [gapsOf]
  | cons f flags =>
      rw [gapsOf, gapsOf, if_pos (asks_behind hperiod q), if_pos (asks_behind hperiod q),
        List.forall_mem_cons, List.forall_mem_cons]
      simp

/-- Inside a block, with `r` of the last `n` items counting: the items end within the period, or
all of them count to the end of the block. -/
theorem gapsOf_block (q : Nat) {r n : Nat} (hr : r < period) (hrn : r ≤ n)
    (hstart : q = 0 ∨ 0 < r) (flags : List Bool) :
    (∀ g ∈ gapsOf period (period * q + r) n flags, g ≤ period) ↔
      n + flags.length ≤ period ∨
      n = r ∧ ∃ rest, flags = List.replicate (period - r) true ++ rest ∧
        ∀ g ∈ gapsOf period (period * (q + 1)) period rest, g ≤ period := by
  have hperiod : 0 < period := Nat.zero_lt_of_lt hr
  induction flags generalizing r n with
  | nil =>
      obtain ⟨p, hp⟩ := Nat.exists_eq_succ_of_ne_zero (Nat.sub_ne_zero_of_lt hr)
      simp [gapsOf, hp, List.replicate_succ]
  | cons f flags ih =>
      rw [gapsOf, if_neg (not_asks hr hstart), List.length_cons]
      obtain ⟨p, hp⟩ := Nat.exists_eq_succ_of_ne_zero (Nat.sub_ne_zero_of_lt hr)
      cases f with
      | false =>
          have hrest := @ih r (n + 1) hr (by omega) hstart
          rw [Bool.toNat_false, Nat.add_zero]
          refine hrest.trans ?_
          constructor
          · rintro (h | ⟨h, -⟩)
            · exact .inl (by omega)
            · omega
          · rintro (h | ⟨-, rest, heq, -⟩)
            · exact .inl (by omega)
            · rw [hp, List.replicate_succ] at heq
              cases heq
      | true =>
          rw [Bool.toNat_true, Nat.add_assoc, hp, List.replicate_succ]
          by_cases hlast : r + 1 < period
          · have hleft : period - (r + 1) = p := by omega
            have hrest := @ih (r + 1) (n + 1) hlast (by omega) (.inr (Nat.succ_pos r))
            rw [hleft] at hrest
            refine hrest.trans ?_
            refine or_congr (by omega) (and_congr (by omega) (exists_congr fun rest => ?_))
            rw [List.cons_append, List.cons.injEq]
            simp
          · -- the item that ends the block
            have hend : period * q + (r + 1) = period * (q + 1) := by
              rw [Nat.mul_add_one]
              omega
            have hzero : p = 0 := by omega
            rw [hend, gapsOf_behind hperiod, hzero]
            constructor
            · rintro ⟨hle, h⟩
              exact .inr ⟨by omega, flags, rfl, h⟩
            · rintro (h | ⟨heq, rest, hcons, h⟩)
              · have hnil : flags = [] := List.eq_nil_of_length_eq_zero (by omega)
                subst hnil
                refine ⟨by omega, ?_⟩
                simp [gapsOf]
              · injection hcons with _ hcons
                rw [hcons]
                exact ⟨by omega, h⟩

/-- Where the flags begin a block and where they are behind one. -/
theorem gapsOf_le_iff_aux (hperiod : 1 < period) (len : Nat) : ∀ flags : List Bool,
    flags.length ≤ len →
    ((∀ g ∈ gapsOf period 0 0 flags, g ≤ period) ↔ Dense period flags) ∧
    ∀ q, (∀ g ∈ gapsOf period (period * (q + 1)) period flags, g ≤ period) ↔
      DenseBehind period flags := by
  have hpos : 0 < period := Nat.lt_trans Nat.zero_lt_one hperiod
  induction len with
  | zero =>
      intro flags hlen
      have hnil : flags = [] := List.eq_nil_of_length_eq_zero (Nat.le_zero.1 hlen)
      subst hnil
      have hdense : Dense period [] := .rest (Nat.zero_le period)
      refine ⟨iff_of_true (by simp [gapsOf]) hdense, fun q => ?_⟩
      exact iff_of_true (by simp [gapsOf]) (denseBehind_of_dense hdense)
  | succ len ih =>
      intro flags hlen
      -- a block from its first item on
      have hblock : ∀ q r rest, List.replicate r true ++ rest = flags → r < period →
          (q = 0 ∨ 0 < r) →
          ((∀ g ∈ gapsOf period (period * q + r) r rest, g ≤ period) ↔ Dense period flags) := by
        intro q r rest hflags hr hstart
        have hsize : flags.length = r + rest.length := by
          rw [← hflags, List.length_append, List.length_replicate]
        rw [gapsOf_block q hr (Nat.le_refl r) hstart, dense_iff, hsize]
        refine or_congr Iff.rfl ?_
        constructor
        · rintro ⟨-, rest', rfl, h⟩
          rw [List.length_append, List.length_replicate] at hsize
          obtain ⟨skipped, flags', rfl, hdense⟩ := ((ih rest' (by omega)).2 q).1 h
          refine ⟨skipped, flags', ?_, hdense⟩
          rw [← hflags, ← List.append_assoc, ← List.replicate_add]
          congr 2
          omega
        · rintro ⟨skipped, flags', heq, hdense⟩
          have hsplit : List.replicate period true =
              List.replicate r true ++ List.replicate (period - r) true := by
            rw [← List.replicate_add]
            congr 1
            omega
          rw [← hflags, hsplit, List.append_assoc] at heq
          have hrest := List.append_cancel_left heq
          refine ⟨rfl, _, hrest, ((ih _ ?_).2 q).2 ⟨skipped, flags', rfl, hdense⟩⟩
          have hlen' := congrArg List.length hrest
          rw [List.length_append, List.length_replicate] at hlen'
          omega
      refine ⟨by simpa using hblock 0 0 flags rfl hpos (.inl rfl), fun q => ?_⟩
      cases flags with
      | nil =>
          have hdense : Dense period [] := .rest (Nat.zero_le period)
          exact iff_of_true (by simp [gapsOf]) (denseBehind_of_dense hdense)
      | cons f flags =>
          rw [gapsOf, if_pos (asks_behind hpos q), List.forall_mem_cons]
          cases f with
          | false =>
              rw [Bool.toNat_false, Nat.add_zero, gapsOf_behind hpos, denseBehind_false_iff hpos,
                (ih flags (Nat.le_of_succ_le_succ hlen)).2 q]
              simp only [Nat.le_refl, true_and, and_iff_right_iff_imp]
              omega
          | true =>
              rw [Bool.toNat_true, denseBehind_true_iff,
                ← hblock (q + 1) 1 flags rfl hperiod (.inr Nat.zero_lt_one)]
              simp

/-- **Gaps**: every gap is at most the period exactly when the items that count come in
blocks. -/
theorem gapsOf_le_iff (hperiod : 1 < period) (flags : List Bool) :
    (∀ g ∈ gapsOf period 0 0 flags, g ≤ period) ↔ Dense period flags :=
  (gapsOf_le_iff_aux hperiod flags.length flags (Nat.le_refl _)).1

end Blocks

/-- The gaps of a loop whose counter starts at 0. -/
theorem CheckedLoop.gaps_le_period_iff {σ α : Type*} (l : CheckedLoop σ α) (hperiod : 1 < l.period)
    (as : List α) {s : σ} (hstart : l.counter s = 0) :
    (∀ g ∈ l.gaps 0 as s, g ≤ l.period) ↔ Dense l.period (l.flags as s) := by
  rw [l.gaps_le_iff, hstart, gapsOf_le_iff hperiod]

end MiniMem
