import Mathlib.Order.Basic
import MiniMem.Bytes

/-!
# MiniMem.Sprintf

Text that calls of `sprintf` write into a buffer whose size they do not
know.  A call puts its text and a NUL where the text so far ends, so the next
call overwrites the NUL:

```
text₀ ++ text₁ ++ … ++ textₙ ++ [0]
```

The calls keep to the buffer exactly when this fits.  The sizes of texts
come down to those of the numerals in them.
-/

namespace MiniMem

/-! ## Sizes -/

/-- The text has at most `k` bytes. -/
def SizeLe (text : String) (k : Nat) : Prop := text.utf8ByteSize ≤ k

instance (text : String) (k : Nat) : Decidable (SizeLe text k) :=
  inferInstanceAs (Decidable (text.utf8ByteSize ≤ k))

theorem SizeLe.mono {text : String} {k k' : Nat} (h : SizeLe text k) (hk : k ≤ k') :
    SizeLe text k' :=
  Nat.le_trans h hk

theorem SizeLe.append {text text' : String} {k k' : Nat} (h : SizeLe text k)
    (h' : SizeLe text' k') : SizeLe (text ++ text') (k + k') := by
  unfold SizeLe
  rw [String.utf8ByteSize_append]
  exact Nat.add_le_add h h'

theorem sizeLe_join {texts : List String} {k : Nat} (h : ∀ text ∈ texts, SizeLe text k) :
    SizeLe (String.join texts) (texts.length * k) := by
  induction texts with
  | nil => exact Nat.zero_le _
  | cons text texts ih =>
      rw [String.join_cons, List.length_cons, Nat.succ_mul, Nat.add_comm]
      exact (h text List.mem_cons_self).append (ih fun t ht => h t (List.mem_cons_of_mem text ht))

/-! ## Numerals -/

/-- A digit is one byte. -/
theorem utf8Size_digitChar : ∀ d < 10, (Nat.digitChar d).utf8Size = 1 := by decide

/-- A numeral has as many bytes as digits. -/
theorem utf8ByteSize_repr (n : Nat) : n.repr.utf8ByteSize = n.repr.length := by
  induction n using Nat.strongRecOn with
  | ind n ih =>
      by_cases hn : n < 10
      · rw [Nat.repr_of_lt hn, String.utf8ByteSize_singleton, utf8Size_digitChar n hn,
          String.length_singleton]
      · have hdigit : n % 10 < 10 := Nat.mod_lt n (by decide)
        rw [Nat.repr_of_ge (Nat.le_of_not_lt hn), String.utf8ByteSize_append, String.length_append,
          String.utf8ByteSize_singleton, utf8Size_digitChar _ hdigit, String.length_singleton,
          ih (n / 10) (by omega)]

theorem sizeLe_toString_nat {n k : Nat} (hk : 0 < k) (h : n < 10 ^ k) :
    SizeLe (toString n) k := by
  unfold SizeLe
  rw [Nat.toString_eq_repr, utf8ByteSize_repr]
  exact (Nat.length_repr_le_iff hk).2 h

/-- The numeral of an integer that is not negative. -/
theorem sizeLe_toString_nonneg {i : Int} {k : Nat} (hk : 0 < k) (h0 : 0 ≤ i) (h : i < 10 ^ k) :
    SizeLe (toString i) k := by
  obtain ⟨n, rfl⟩ := Int.eq_ofNat_of_zero_le h0
  exact sizeLe_toString_nat hk (by exact_mod_cast h)

/-- The numeral of an integer, with room for a sign. -/
theorem sizeLe_toString {i : Int} {k : Nat} (hk : 0 < k) (h : -10 ^ k < i) (h' : i < 10 ^ k) :
    SizeLe (toString i) (1 + k) := by
  cases i with
  | ofNat n =>
      exact (sizeLe_toString_nonneg hk (Int.natCast_nonneg n) h').mono (Nat.le_add_left k 1)
  | negSucc n =>
      rw [Int.negSucc_eq, Int.neg_lt_neg_iff] at h
      have hsign : SizeLe "-" 1 := by decide
      exact hsign.append (sizeLe_toString_nat hk (by exact_mod_cast h : n + 1 < 10 ^ k))

/-! ## Bytes -/

/-- The bytes of a text. -/
def textBytes (text : String) : List UInt8 := text.toUTF8.data.toList

@[simp] theorem length_textBytes (text : String) :
    (textBytes text).length = text.utf8ByteSize := by
  simp [textBytes]

theorem textBytes_append (text text' : String) :
    textBytes (text ++ text') = textBytes text ++ textBytes text' := by
  simp [textBytes]

/-! ## Calls -/

/-- `len += sprintf(buf + len, ..)`. -/
def sprintfAt (buf : List UInt8) (len : Nat) (text : String) : Except Stop (List UInt8 × Nat) := do
  let buf ← writeAt buf len (textBytes text ++ [0])
  .ok (buf, len + text.utf8ByteSize)

/-- One call after another. -/
def sprintfAll (buf : List UInt8) (len : Nat) : List String → Except Stop (List UInt8 × Nat)
  | [] => .ok (buf, len)
  | text :: texts => do
      let (buf, len) ← sprintfAt buf len text
      sprintfAll buf len texts

/-- The buffer with a text and a NUL at `len`. -/
def withText (buf : List UInt8) (len : Nat) (text : String) : List UInt8 :=
  buf.take len ++ (textBytes text ++ 0 :: buf.drop (len + text.utf8ByteSize + 1))

theorem sprintfAt_eq (buf : List UInt8) (len : Nat) (text : String) :
    sprintfAt buf len text =
      if len + text.utf8ByteSize + 1 ≤ buf.length then
        .ok (withText buf len text, len + text.utf8ByteSize)
      else .error .oob := by
  rw [sprintfAt, writeAt, List.length_append, length_textBytes, List.length_singleton,
    ← Nat.add_assoc]
  split
  · simp [withText, bind, Except.bind]
  · rfl

theorem length_withText {buf : List UInt8} {len : Nat} {text : String}
    (h : len + text.utf8ByteSize + 1 ≤ buf.length) :
    (withText buf len text).length = buf.length := by
  simp only [withText, List.length_append, List.length_take, length_textBytes, List.length_cons,
    List.length_drop]
  omega

/-- A second text overwrites the NUL of the first. -/
theorem withText_withText {buf : List UInt8} {len : Nat} {text text' : String}
    (h : len + (text ++ text').utf8ByteSize + 1 ≤ buf.length) :
    withText (withText buf len text) (len + text.utf8ByteSize) text' =
      withText buf len (text ++ text') := by
  rw [String.utf8ByteSize_append] at h
  have hlen : (buf.take len ++ textBytes text).length = len + text.utf8ByteSize := by
    rw [List.length_append, List.length_take_of_le (by omega), length_textBytes]
  have hsplit : withText buf len text =
      (buf.take len ++ textBytes text) ++ 0 :: buf.drop (len + text.utf8ByteSize + 1) := by
    rw [withText, List.append_assoc]
  have htake : (withText buf len text).take (len + text.utf8ByteSize) =
      buf.take len ++ textBytes text := by
    rw [hsplit]
    exact take_append_of_length hlen
  have hdrop : (withText buf len text).drop (len + text.utf8ByteSize + text'.utf8ByteSize + 1) =
      buf.drop (len + (text ++ text').utf8ByteSize + 1) := by
    rw [hsplit, Nat.add_assoc (len + text.utf8ByteSize), ← List.drop_drop,
      drop_append_of_length hlen, List.drop_succ_cons, List.drop_drop,
      String.utf8ByteSize_append]
    congr 1
    omega
  rw [withText, htake, hdrop, withText, textBytes_append, List.append_assoc, List.append_assoc]

/-- **Calls without a bound**: they keep to the buffer exactly when the whole text and one NUL
fit, and then these are there. -/
theorem sprintfAll_eq (buf : List UInt8) (len : Nat) (text : String) (texts : List String) :
    sprintfAll buf len (text :: texts) =
      if len + (String.join (text :: texts)).utf8ByteSize + 1 ≤ buf.length then
        .ok (withText buf len (String.join (text :: texts)),
          len + (String.join (text :: texts)).utf8ByteSize)
      else .error .oob := by
  induction texts generalizing buf len text with
  | nil =>
      rw [sprintfAll, sprintfAt_eq, String.join_cons, String.join_nil, String.append_empty]
      split <;> rfl
  | cons text' texts ih =>
      rw [sprintfAll, sprintfAt_eq, String.join_cons (s := text)]
      by_cases hfit : len + text.utf8ByteSize + 1 ≤ buf.length
      · rw [if_pos hfit]
        simp only [bind, Except.bind]
        rw [ih, length_withText hfit, Nat.add_assoc len, ← String.utf8ByteSize_append]
        split
        next hall => rw [withText_withText hall]
        · rfl
      · rw [if_neg hfit, if_neg (by rw [String.utf8ByteSize_append]; omega)]
        rfl

end MiniMem
