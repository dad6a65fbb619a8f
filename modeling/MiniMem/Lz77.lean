import Mathlib.Data.List.Basic
import Mathlib.Tactic.Common

/-!
# MiniMem.Lz77

Copies from what a decoder has written already, for any element type.
`copyBack d n out` appends `n` elements one by one, each a copy of the element
`d` places before it, so a copy may overlap what it writes: with `d = 1` it
repeats the last element.  A distance of 0 reads what is not written yet,
which counts as the default element.

* `copyBack_of_le` — a copy no longer than its distance is a block move;
* `copyBack_multiple` — once enough periods are written, a multiple of the
  distance copies the same elements;
* `copyBack_take` — a copy over elements that have been compared goes on with
  the list they were compared in.

`LongestAt` is what an encoder looks for: how many elements at one position
are those at another, up to a limit.
-/

namespace MiniMem

section CopyBack

variable {α : Type*} [Inhabited α]

/-- Append `n` elements, each the one `d` places before it. -/
def copyBack (d : Nat) : Nat → List α → List α
  | 0, out => out
  | n + 1, out => copyBack d n (out ++ [out.getD (out.length - d) default])

@[simp] theorem copyBack_zero (d : Nat) (out : List α) : copyBack d 0 out = out := rfl

theorem copyBack_succ (d n : Nat) (out : List α) :
    copyBack d (n + 1) out = copyBack d n (out ++ [out.getD (out.length - d) default]) := rfl

@[simp] theorem length_copyBack (d n : Nat) (out : List α) :
    (copyBack d n out).length = out.length + n := by
  induction n generalizing out with
  | zero => simp
  | succ n ih => simp [copyBack_succ, ih]; omega

/-- Copies compose. -/
theorem copyBack_add (d m n : Nat) (out : List α) :
    copyBack d (m + n) out = copyBack d n (copyBack d m out) := by
  induction m generalizing out with
  | zero => simp
  | succ m ih => rw [Nat.add_right_comm, copyBack_succ, copyBack_succ, ih]

/-- The last element of a copy. -/
theorem copyBack_succ_last (d n : Nat) (out : List α) :
    copyBack d (n + 1) out = copyBack d n out ++
      [(copyBack d n out).getD ((copyBack d n out).length - d) default] := by
  rw [copyBack_add, copyBack_succ, copyBack_zero]

/-- A copy only appends. -/
theorem prefix_copyBack (d n : Nat) (out : List α) : out <+: copyBack d n out := by
  induction n with
  | zero => simp
  | succ n ih =>
      rw [copyBack_succ_last]
      exact ih.trans (List.prefix_append _ _)

/-- The front of a copy is a shorter copy. -/
theorem prefix_copyBack_of_le {m n : Nat} (d : Nat) (out : List α) (h : m ≤ n) :
    copyBack d m out <+: copyBack d n out := by
  rw [show n = m + (n - m) by omega, copyBack_add]
  exact prefix_copyBack _ _ _

theorem getD_copyBack_of_lt {d n i : Nat} {out : List α} (h : i < out.length) :
    (copyBack d n out).getD i default = out.getD i default := by
  obtain ⟨rest, hrest⟩ := prefix_copyBack d n out
  rw [← hrest]
  simp [List.getD_eq_getElem?_getD, List.getElem?_append_left h]

/-- Each element of a copy is the one `d` places before it. -/
theorem getD_copyBack {d n i : Nat} {out : List α} (hd₀ : 0 < d) (hd : d ≤ out.length)
    (hi : out.length ≤ i) (hn : i < out.length + n) :
    (copyBack d n out).getD i default = (copyBack d n out).getD (i - d) default := by
  induction n with
  | zero => omega
  | succ n ih =>
      rw [copyBack_succ_last]
      by_cases hlast : i = out.length + n
      · have hself : ((copyBack d n out ++ [(copyBack d n out).getD
            ((copyBack d n out).length - d) default]).getD i default) =
            (copyBack d n out).getD (i - d) default := by
          simp [List.getD_eq_getElem?_getD, hlast]
        rw [hself]
        have hback : i - d < (copyBack d n out).length := by simp; omega
        simp [List.getD_eq_getElem?_getD, List.getElem?_append_left hback]
      · have hlt : i < (copyBack d n out).length := by simp; omega
        have hlt' : i - d < (copyBack d n out).length := by omega
        have hstep := ih (by omega)
        simp only [List.getD_eq_getElem?_getD] at hstep ⊢
        rwa [List.getElem?_append_left hlt, List.getElem?_append_left hlt']

/-- A copy at no distance appends default elements. -/
theorem copyBack_distance_zero (n : Nat) (out : List α) :
    copyBack 0 n out = out ++ List.replicate n default := by
  induction n generalizing out with
  | zero => simp
  | succ n ih =>
      have hend : out.getD (out.length - 0) default = default := by simp
      rw [copyBack_succ, ih, hend, List.append_assoc, List.replicate_succ]
      rfl

/-- A copy no longer than its distance moves a block. -/
theorem copyBack_of_le {d n : Nat} {out : List α} (hn : n ≤ d) (hd : d ≤ out.length) :
    copyBack d n out = out ++ (out.drop (out.length - d)).take n := by
  induction n with
  | zero => simp
  | succ n ih =>
      have hlt : n < (out.drop (out.length - d)).length := by simp; omega
      have hidx : out.length - d + n < out.length := by omega
      have hback : out.length + n - d < out.length := by omega
      have hnext : out.getD (out.length + n - d) default = out[out.length - d + n] := by
        simp [List.getD_eq_getElem?_getD, List.getElem?_eq_getElem hidx,
          show out.length + n - d = out.length - d + n by omega]
      rw [copyBack_succ_last, length_copyBack, getD_copyBack_of_lt hback, ih (by omega),
        List.take_add_one, List.getElem?_eq_getElem hlt, List.append_assoc, hnext]
      simp

/-- A copy over compared elements goes on with the list they were compared in. -/
theorem copyBack_take {s : List α} {d p n : Nat} (hd : d ≤ p) (hd₀ : 0 < d)
    (hn : p + n ≤ s.length)
    (heq : ∀ k < n, s.getD (p - d + k) default = s.getD (p + k) default) :
    copyBack d n (s.take p) = s.take (p + n) := by
  induction n with
  | zero => simp
  | succ n ih =>
      have hlt : p + n < s.length := by omega
      have hback : p + n - d < p + n := by omega
      rw [copyBack_succ_last, ih (by omega) fun k hk => heq k (by omega)]
      have hlast := heq n (by omega)
      rw [show p - d + n = p + n - d by omega] at hlast
      rw [show p + (n + 1) = p + n + 1 by omega, List.take_add_one, List.length_take_of_le (Nat.le_of_lt hlt)]
      simp only [List.getD_eq_getElem?_getD, List.getElem?_take_of_lt hback] at hlast ⊢
      rw [hlast, List.getElem?_eq_getElem hlt]
      rfl

/-- An element of a copy is also the one any number of whole distances before it, as long as
these lie in what was copied. -/
theorem getD_copyBack_mul {d n i : Nat} {out : List α} (hd₀ : 0 < d) (hd : d ≤ out.length)
    (k : Nat) (hi : out.length + k * d ≤ i) (hn : i < out.length + n) :
    (copyBack d n out).getD i default = (copyBack d n out).getD (i - (k + 1) * d) default := by
  induction k with
  | zero => simpa using getD_copyBack hd₀ hd (by omega) hn
  | succ k ih =>
      have hk : (k + 1) * d = k * d + d := Nat.succ_mul k d
      have hk' : (k + 1 + 1) * d = (k + 1) * d + d := Nat.succ_mul (k + 1) d
      rw [ih (by omega), getD_copyBack hd₀ hd (by omega) (by omega), hk']
      congr 1
      omega

/-- Once the last `e - d` elements are copied at distance `d`, a copy at a multiple `e` of the
distance is one at the distance. -/
theorem copyBack_multiple {d e m : Nat} (n : Nat) {out : List α} (hd₀ : 0 < d)
    (hd : d ≤ out.length) (hdvd : d ∣ e) (he : 0 < e) (hm : e ≤ m + d) :
    copyBack e n (copyBack d m out) = copyBack d n (copyBack d m out) := by
  obtain ⟨k, rfl⟩ : ∃ k, e = (k + 1) * d := by
    obtain ⟨q, rfl⟩ := hdvd
    cases q with
    | zero => simp at he
    | succ k => exact ⟨k, Nat.mul_comm _ _⟩
  have hk : (k + 1) * d = k * d + d := Nat.succ_mul k d
  induction n with
  | zero => simp
  | succ n ih =>
      rw [copyBack_succ_last, copyBack_succ_last, ih, ← copyBack_add]
      -- the next element, as the one `d` and as the one `(k + 1) * d` places before it
      have hone := @getD_copyBack_mul _ _ d (m + n + 1) (out.length + (m + n)) out hd₀ hd 0
        (by omega) (by omega)
      have hmany := @getD_copyBack_mul _ _ d (m + n + 1) (out.length + (m + n)) out hd₀ hd k
        (by omega) (by omega)
      have hlen : (copyBack d (m + n) out).length = out.length + (m + n) := length_copyBack _ _ _
      have hlt : out.length + (m + n) - d < (copyBack d (m + n) out).length := by omega
      have hlt' : out.length + (m + n) - (k + 1) * d < (copyBack d (m + n) out).length := by omega
      rw [hone, copyBack_succ_last, Nat.zero_add, Nat.one_mul] at hmany
      simp only [List.getD_eq_getElem?_getD, List.getElem?_append_left hlt,
        List.getElem?_append_left hlt'] at hmany
      simp only [List.getD_eq_getElem?_getD, hlen, hmany]

/-- A copy of whole distances repeats the last elements. -/
theorem copyBack_periods {d : Nat} (j : Nat) {out : List α} (hd : d ≤ out.length) :
    copyBack d (j * d) out = out ++ (List.replicate j (out.drop (out.length - d))).flatten := by
  induction j generalizing out with
  | zero => simp
  | succ j ih =>
      have hblock : copyBack d d out = out ++ out.drop (out.length - d) := by
        rw [copyBack_of_le (Nat.le_refl d) hd, List.take_of_length_le (by simp; omega)]
      have hback : (out ++ out.drop (out.length - d)).drop
          ((out ++ out.drop (out.length - d)).length - d) = out.drop (out.length - d) := by
        have hlen : (out ++ out.drop (out.length - d)).length - d = out.length := by
          simp only [List.length_append, List.length_drop]
          omega
        rw [hlen, List.drop_left]
      rw [Nat.succ_mul, Nat.add_comm, copyBack_add, hblock, ih (by simp; omega), hback,
        List.replicate_succ, List.flatten_cons, List.append_assoc]

/-- Default elements are copied as default elements, at any distance that they cover. -/
theorem copyBack_default {d m : Nat} (n : Nat) (hd : d ≤ m) (out : List α) :
    copyBack d n (out ++ List.replicate m default) = out ++ List.replicate (m + n) default := by
  induction n generalizing m with
  | zero => simp
  | succ n ih =>
      have hlast : (out ++ List.replicate m default).getD
          ((out ++ List.replicate m default).length - d) default = default := by
        have hidx : out.length ≤ (out ++ List.replicate m (default : α)).length - d := by
          simp only [List.length_append, List.length_replicate]
          omega
        rw [List.getD_eq_getElem?_getD, List.getElem?_append_right hidx]
        simp [List.getElem?_replicate]
        split <;> rfl
      have hsnoc : List.replicate m (default : α) ++ [default] = List.replicate (m + 1) default :=
        List.replicate_succ'.symm
      rw [copyBack_succ, hlast, List.append_assoc, hsnoc, ih (by omega)]
      congr 2
      omega

end CopyBack

/-! ## Matches -/

section Matches

variable {α : Type*} [Inhabited α] {s : List α} {p q limit m n c : Nat}

/-- The `n` elements at two positions are equal. -/
def SameAt (s : List α) (p q n : Nat) : Prop :=
  ∀ k < n, s.getD (p + k) default = s.getD (q + k) default

theorem SameAt.mono (h : SameAt s p q n) (hm : m ≤ n) : SameAt s p q m :=
  fun k hk => h k (Nat.lt_of_lt_of_le hk hm)

theorem SameAt.add (h : SameAt s p q m) (h' : SameAt s (p + m) (q + m) n) :
    SameAt s p q (m + n) := by
  intro k hk
  by_cases hkm : k < m
  · exact h k hkm
  · have hback := h' (k - m) (by omega)
    rwa [show p + m + (k - m) = p + k by omega, show q + m + (k - m) = q + k by omega] at hback

theorem SameAt.drop (h : SameAt s p q (m + n)) : SameAt s (p + m) (q + m) n := by
  intro k hk
  rw [Nat.add_assoc, Nat.add_assoc]
  exact h (m + k) (by omega)

/-- Blocks are equal where their elements are. -/
theorem take_drop_eq_iff (hp : p + n ≤ s.length) (hq : q + n ≤ s.length) :
    (s.drop p).take n = (s.drop q).take n ↔ SameAt s p q n := by
  have hget : ∀ r k, k < n → ((s.drop r).take n)[k]? = s[r + k]? := by
    intro r k hk
    rw [List.getElem?_take_of_lt hk, List.getElem?_drop]
  constructor
  · intro h k hk
    rw [List.getD_eq_getElem?_getD, List.getD_eq_getElem?_getD, ← hget p k hk, h, hget q k hk]
  · intro h
    refine List.ext_getElem? fun k => ?_
    by_cases hk : k < n
    · have hsame := h k hk
      have hpk : p + k < s.length := by omega
      have hqk : q + k < s.length := by omega
      rw [hget p k hk, hget q k hk]
      simpa [List.getD_eq_getElem?_getD, List.getElem?_eq_getElem hpk,
        List.getElem?_eq_getElem hqk] using hsame
    · rw [List.getElem?_eq_none (by simp; omega), List.getElem?_eq_none (by simp; omega)]

/-- A copy over a match. -/
theorem copyBack_sameAt (h : SameAt s p q n) (hp : p < q) (hn : q + n ≤ s.length) :
    copyBack (q - p) n (s.take q) = s.take (q + n) := by
  refine copyBack_take (by omega) (by omega) hn fun k hk => ?_
  rw [show q - (q - p) = p by omega]
  exact h k hk

/-- The elements at two positions are equal up to a limit or to the first that differs. -/
structure LongestAt (s : List α) (p q limit n : Nat) : Prop where
  same : SameAt s p q n
  le : q + n ≤ limit
  stop : q + n < limit → s.getD (p + n) default ≠ s.getD (q + n) default

theorem exists_longestAt (s : List α) (p : Nat) (h : q ≤ limit) : ∃ n, LongestAt s p q limit n := by
  obtain ⟨room, rfl⟩ : ∃ room, limit = q + room := ⟨limit - q, by omega⟩
  induction room with
  | zero => exact ⟨0, fun k hk => by omega, Nat.le_refl q, by omega⟩
  | succ room ih =>
      obtain ⟨n, hsame, hle, hstop⟩ := ih (by omega)
      by_cases hfull : n = room
      · by_cases hlast : s.getD (p + n) default = s.getD (q + n) default
        · refine ⟨n + 1, hsame.add fun k hk => ?_, by omega, by omega⟩
          rwa [show k = 0 by omega]
        · exact ⟨n, hsame, by omega, fun _ => hlast⟩
      · exact ⟨n, hsame, by omega, fun _ => hstop (by omega)⟩

/-- No match up to the limit is longer. -/
theorem LongestAt.sameAt_iff (h : LongestAt s p q limit c) (hn : q + n ≤ limit) :
    SameAt s p q n ↔ n ≤ c := by
  refine ⟨fun hsame => ?_, h.same.mono⟩
  by_contra hlt
  exact h.stop (by omega) (hsame c (by omega))

/-- The rest of the longest match. -/
theorem LongestAt.drop (h : LongestAt s p q limit c) (hm : m ≤ c) :
    LongestAt s (p + m) (q + m) limit (c - m) := by
  obtain ⟨hsame, hle, hstop⟩ := h
  rw [show c = m + (c - m) by omega] at hsame
  refine ⟨hsame.drop, by omega, fun hlt => ?_⟩
  rw [Nat.add_assoc, Nat.add_assoc, show m + (c - m) = c by omega]
  exact hstop (by omega)

end Matches

end MiniMem
