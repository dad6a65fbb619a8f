import MiniMem.Bytes
import MiniMem.Lz77
import Mathlib.Algebra.BigOperators.Group.List.Basic

/-!
# MiniMem.Lz4Block

The LZ4 block format.  A block is a list of sequences and a last run of
literals:

```
sequence = token  [length]  literals  offset  [length]
last     = token  [length]  literals
```

The token holds the number of literals and the length of the match, less 4,
in four bits each; 15 there means that bytes follow which add to it, the last
of which is the first that is not 255.  A match of offset 0 is not of the
format proper, but is accepted and stands for zeros (`expand_of_offset_zero`).

`Lz4Block.bytes` writes a block and `Lz4Block.expand` says what it stands
for.  `plainStep` is a decoder's step on the bytes that are left, without
strides and shortcuts: it reads one sequence, or the last literals, and checks
the restrictions at the end of a block.  A decoder may look at fewer of them
on some steps (`Checks`): `block_of_plainDecode` and `plainDecode_block` say
that it reads blocks only, and every block that meets the restrictions.
-/

namespace MiniMem

/-! ## Lengths -/

/-- The bytes that add `n` to a length. -/
def lengthBytes (n : Nat) : List UInt8 :=
  if n < 255 then [UInt8.ofNat n] else 255 :: lengthBytes (n - 255)

/-- A length below 255 is one byte. -/
theorem lengthBytes_of_lt {n : Nat} (h : n < 255) : lengthBytes n = [UInt8.ofNat n] := by
  rw [lengthBytes, if_pos h]

/-- Every 255 is a byte of its own. -/
theorem lengthBytes_add (n : Nat) : lengthBytes (n + 255) = 255 :: lengthBytes n := by
  rw [lengthBytes, if_neg (by omega), Nat.add_sub_cancel]

/-- The bytes of a length. -/
theorem length_lengthBytes (n : Nat) : (lengthBytes n).length = n / 255 + 1 := by
  induction n using Nat.strong_induction_on with
  | _ n ih =>
      by_cases h : n < 255
      · rw [lengthBytes_of_lt h, List.length_singleton, Nat.div_eq_of_lt h]
      · obtain ⟨m, rfl⟩ : ∃ m, n = m + 255 := ⟨n - 255, by omega⟩
        rw [lengthBytes_add, List.length_cons, ih m (by omega)]
        omega

/-- What follows the token for a length that does not fit its four bits. -/
def lengthTail (n : Nat) : List UInt8 := if n < 15 then [] else lengthBytes (n - 15)

/-- A token. -/
def lz4Token (literals matchCode : Nat) : UInt8 :=
  UInt8.ofNat (16 * min literals 15 + min matchCode 15)

/-- The token as a number. -/
theorem toNat_lz4Token (literals matchCode : Nat) :
    (lz4Token literals matchCode).toNat = 16 * min literals 15 + min matchCode 15 := by
  rw [lz4Token, UInt8.toNat_ofNat', Nat.mod_eq_of_lt]
  omega

/-- Its upper half is the length of the literals. -/
@[simp] theorem lz4Token_div (literals matchCode : Nat) :
    (lz4Token literals matchCode).toNat / 16 = min literals 15 := by
  rw [toNat_lz4Token]
  omega

/-- Its lower half is the length of the match. -/
@[simp] theorem lz4Token_mod (literals matchCode : Nat) :
    (lz4Token literals matchCode).toNat % 16 = min matchCode 15 := by
  rw [toNat_lz4Token]
  omega

/-- A byte with these halves is the token. -/
theorem lz4Token_eq {token : UInt8} {literals matchCode : Nat}
    (hliterals : min literals 15 = token.toNat / 16) (hcode : min matchCode 15 = token.toNat % 16) :
    lz4Token literals matchCode = token := by
  rw [lz4Token, hliterals, hcode, Nat.div_add_mod, UInt8.ofNat_toNat]

/-! ## Blocks -/

/-- A sequence: literals, and a match of `matchCode + 4` bytes. -/
structure Lz4Sequence where
  literals : List UInt8
  offset : Nat
  matchCode : Nat
  deriving DecidableEq, Repr

namespace Lz4Sequence

/-- How many bytes a sequence stands for. -/
def size (s : Lz4Sequence) : Nat := s.literals.length + (s.matchCode + 4)

/-- The bytes of a sequence. -/
def bytes (s : Lz4Sequence) : List UInt8 :=
  lz4Token s.literals.length s.matchCode :: (lengthTail s.literals.length ++ (s.literals ++
    (leBytes 2 s.offset ++ lengthTail s.matchCode)))

/-- What has been expanded after a sequence. -/
def expand (s : Lz4Sequence) (out : List UInt8) : List UInt8 :=
  copyBack s.offset (s.matchCode + 4) (out ++ s.literals)

/-- A sequence adds its size. -/
@[simp] theorem length_expand (s : Lz4Sequence) (out : List UInt8) :
    (s.expand out).length = out.length + s.size := by
  simp [expand, size, Nat.add_assoc]

/-- A match of offset 0, which begins at the end of what has been expanded, stands for zeros. -/
theorem expand_of_offset_zero {s : Lz4Sequence} (h : s.offset = 0) (out : List UInt8) :
    s.expand out = out ++ s.literals ++ List.replicate (s.matchCode + 4) 0 := by
  rw [expand, h, copyBack_distance_zero]
  rfl

/-- The match begins in what has been expanded, or at its end: the offset 0, which is not of the
format, is accepted and stands for zeros. -/
def Reaches (pos : Nat) (s : Lz4Sequence) : Prop :=
  s.offset ≤ pos + s.literals.length ∧ s.offset < 2 ^ 16

/-- The match begins 12 and ends 5 bytes before the end `n` of what the block expands to. -/
def Fits (n pos : Nat) (s : Lz4Sequence) : Prop :=
  pos + s.literals.length + 12 ≤ n ∧ pos + s.size + 5 ≤ n

end Lz4Sequence

/-- The bytes of a last run of literals; the low bits of its token mean nothing. -/
def lastBytes (spare : Nat) (literals : List UInt8) : List UInt8 :=
  lz4Token literals.length spare :: (lengthTail literals.length ++ literals)

/-- A property of each sequence at the position it is expanded at. -/
def SequencesAt (P : Nat → Lz4Sequence → Prop) : Nat → List Lz4Sequence → Prop
  | _, [] => True
  | pos, s :: ss => P pos s ∧ SequencesAt P (pos + s.size) ss

/-- How many bytes sequences stand for. -/
def sizes (ss : List Lz4Sequence) : Nat := (ss.map Lz4Sequence.size).sum

/-- A block. -/
structure Lz4Block where
  sequences : List Lz4Sequence
  last : List UInt8
  spare : Nat
  deriving DecidableEq, Repr

/-- What sequences expand to, behind `out`. -/
def expandAll (ss : List Lz4Sequence) (out : List UInt8) : List UInt8 :=
  ss.foldl (fun out s => s.expand out) out

/-- The sequences add their sizes. -/
@[simp] theorem length_expandAll (ss : List Lz4Sequence) (out : List UInt8) :
    (expandAll ss out).length = out.length + sizes ss := by
  induction ss generalizing out with
  | nil => simp [expandAll, sizes]
  | cons s ss ih =>
      have hstep : expandAll (s :: ss) out = expandAll ss (s.expand out) := rfl
      simp [hstep, ih, sizes, Nat.add_assoc]

/-- The bytes of sequences. -/
def sequenceBytes (ss : List Lz4Sequence) : List UInt8 := (ss.map Lz4Sequence.bytes).flatten

@[simp] theorem sequenceBytes_append (ss ts : List Lz4Sequence) :
    sequenceBytes (ss ++ ts) = sequenceBytes ss ++ sequenceBytes ts := by
  simp [sequenceBytes]

namespace Lz4Block

/-- The bytes of a block. -/
def bytes (b : Lz4Block) : List UInt8 := sequenceBytes b.sequences ++ lastBytes b.spare b.last

/-- What a block expands to. -/
def expand (b : Lz4Block) : List UInt8 := expandAll b.sequences [] ++ b.last

/-- Every match begins in what has been expanded, or has the offset 0 and stands for zeros. -/
def Reaches (b : Lz4Block) : Prop := SequencesAt Lz4Sequence.Reaches 0 b.sequences

/-- The restrictions at the end of a block. -/
def Fits (b : Lz4Block) : Prop := SequencesAt (Lz4Sequence.Fits b.expand.length) 0 b.sequences

end Lz4Block

/-- A block that fits and has sequences ends in five literals. -/
theorem five_le_of_fits {ss : List Lz4Sequence} {pos n last : Nat}
    (h : SequencesAt (Lz4Sequence.Fits n) pos ss) (hne : ss ≠ []) (hn : n = pos + sizes ss + last) :
    5 ≤ last := by
  induction ss generalizing pos with
  | nil => exact absurd rfl hne
  | cons s ss ih =>
      obtain ⟨⟨-, hend⟩, hrest⟩ := h
      have hsizes : sizes (s :: ss) = s.size + sizes ss := by simp [sizes]
      cases ss with
      | nil =>
          have hnil : sizes ([] : List Lz4Sequence) = 0 := rfl
          omega
      | cons t ss => exact ih hrest (by simp) (by omega)

/-! ## How long a block gets -/

/-- The bytes behind the token for a length. -/
theorem length_lengthTail (n : Nat) : (lengthTail n).length = (n + 240) / 255 := by
  rw [lengthTail]
  split
  · simp only [List.length_nil]
    omega
  · rw [length_lengthBytes]
    omega

/-- A sequence is longer than what it stands for by its literals only. -/
theorem Lz4Sequence.length_bytes_le (s : Lz4Sequence) :
    s.bytes.length ≤ s.size + s.literals.length / 255 := by
  simp only [bytes, size, List.length_cons, List.length_append, length_lengthTail, length_leBytes]
  omega

/-- **The bound**: sequences take at most one byte more for every 255 that they stand for. -/
theorem length_sequenceBytes_le (ss : List Lz4Sequence) :
    (sequenceBytes ss).length ≤ sizes ss + sizes ss / 255 := by
  induction ss with
  | nil => simp [sequenceBytes]
  | cons s ss ih =>
      have hs := s.length_bytes_le
      have hsize : s.literals.length ≤ s.size := Nat.le_add_right _ _
      have hbytes : sequenceBytes (s :: ss) = s.bytes ++ sequenceBytes ss := by simp [sequenceBytes]
      have hsizes : sizes (s :: ss) = s.size + sizes ss := by simp [sizes]
      rw [hbytes, hsizes, List.length_append]
      omega

/-- The last literals with their token and length. -/
theorem length_lastBytes (spare : Nat) (literals : List UInt8) :
    (lastBytes spare literals).length = 1 + (literals.length + 240) / 255 + literals.length := by
  simp only [lastBytes, List.length_cons, List.length_append, length_lengthTail]
  omega

/-- **The bound**: a block is longer than what it expands to by one byte in 255, and two. -/
theorem Lz4Block.length_bytes_le (b : Lz4Block) :
    b.bytes.length ≤ b.expand.length + b.expand.length / 255 + 2 := by
  have hss := length_sequenceBytes_le b.sequences
  simp only [bytes, expand, List.length_append, length_lastBytes, length_expandAll, List.length_nil]
  omega

/-! ## The plain decoder -/

/-- Which of the restrictions at the end of a block a step checks; for a match, by the four
bits of its length and by its offset. -/
structure Checks where
  literals : Bool
  match_ : Nat → Nat → Bool

/-- What a step of a decoder does: it fails with some bytes left, it reads the last literals,
or it goes on with the bytes left. -/
inductive PlainStep where
  | fail (left : List UInt8)
  | done (out : List UInt8)
  | next (left out : List UInt8)

/-- Read the bytes that add to a length; at least `margin` bytes must be left. -/
def plainLength (margin : Nat) : List UInt8 → Nat → Except (List UInt8) (Nat × List UInt8)
  | [], _ => .error []
  | b :: left, length =>
      if left.length < margin then .error left
      else if b = 255 then plainLength margin left (length + 255)
      else .ok (length + b.toNat, left)

/-- Read the number of literals. -/
def plainLiterals (nibble : Nat) (left : List UInt8) : Except (List UInt8) (Nat × List UInt8) :=
  if nibble = 15 then if left.length ≤ 15 then .error left else plainLength 15 left 15
  else .ok (nibble, left)

/-- Read the length of a match. -/
def plainMatch (nibble : Nat) (left : List UInt8) : Except (List UInt8) (Nat × List UInt8) :=
  if nibble = 15 then plainLength 4 left 15 else .ok (nibble, left)

/-- Copy a match. -/
def plainCopy (checked : Bool) (cap offset code : Nat) (left out : List UInt8) : PlainStep :=
  if out.length < offset then .fail left
  else if checked = true ∧ cap < out.length + (code + 4) + 5 then .fail left
  else .next left (copyBack offset (code + 4) out)

/-- The rest of a sequence, behind its offset. -/
def plainMatched (checks : Checks) (cap offset nibble : Nat) (left out : List UInt8) :
    PlainStep :=
  match plainMatch nibble left with
  | .error left => .fail left
  | .ok (code, left) => plainCopy (checks.match_ nibble offset) cap offset code left out

/-- The rest of a sequence, behind the number of its literals. -/
def plainBehind (checks : Checks) (cap nibble length : Nat) (left out : List UInt8) : PlainStep :=
  if left.length < length + 2 ∨ checks.literals = true ∧
      (cap < out.length + length + 12 ∨ left.length < length + 8) then
    if length = left.length ∧ out.length + length ≤ cap then .done (out ++ left) else .fail left
  else
    plainMatched checks cap (leNat ((left.drop length).take 2)) nibble (left.drop (length + 2))
      (out ++ left.take length)

/-- A step of a decoder with room for `cap` bytes. -/
def plainStep (checks : Checks) (cap : Nat) (left out : List UInt8) : PlainStep :=
  match left with
  | [] => .fail []
  | token :: left =>
      match plainLiterals (token.toNat / 16) left with
      | .error left => .fail left
      | .ok (length, left) => plainBehind checks cap (token.toNat % 16) length left out

/-- The steps of a decoder, which checks what its rule says: the bytes left where it fails, or
what it has read. -/
def plainDecode (rule : List UInt8 → List UInt8 → Checks) (cap : Nat) :
    Nat → List UInt8 → List UInt8 → Except (List UInt8) (List UInt8)
  | 0, left, _ => .error left
  | fuel + 1, left, out =>
      match plainStep (rule left out) cap left out with
      | .fail left => .error left
      | .done out => .ok out
      | .next left out => plainDecode rule cap fuel left out

/-! ## What it reads -/

/-- A length is read back. -/
theorem plainLength_lengthBytes {margin n : Nat} {left : List UInt8} (h : margin ≤ left.length)
    (length : Nat) : plainLength margin (lengthBytes n ++ left) length = .ok (length + n, left) := by
  induction n using Nat.strong_induction_on generalizing length with
  | _ n ih =>
      by_cases hn : n < 255
      · have hne : UInt8.ofNat n ≠ 255 := by
          intro heq
          have hnat := congrArg UInt8.toNat heq
          rw [UInt8.toNat_ofNat', Nat.mod_eq_of_lt (by omega)] at hnat
          simp at hnat
          omega
        rw [lengthBytes_of_lt hn, List.singleton_append, plainLength, if_neg (by omega),
          if_neg hne, UInt8.toNat_ofNat', Nat.mod_eq_of_lt (by omega)]
      · obtain ⟨m, rfl⟩ : ∃ m, n = m + 255 := ⟨n - 255, by omega⟩
        rw [lengthBytes_add, List.cons_append, plainLength,
          if_neg (by simp only [List.length_append]; omega), if_pos rfl, ih m (by omega)]
        congr 2
        omega

/-- What is read as a length was written as one. -/
theorem lengthBytes_of_plainLength {margin n length : Nat} {left rest : List UInt8}
    (h : plainLength margin left length = .ok (n, rest)) :
    ∃ k, n = length + k ∧ left = lengthBytes k ++ rest := by
  induction left generalizing length with
  | nil => cases h
  | cons b left ih =>
      rw [plainLength] at h
      split at h
      · cases h
      split at h
      next hb =>
        obtain ⟨k, rfl, rfl⟩ := ih h
        exact ⟨k + 255, by omega, by rw [lengthBytes_add, hb]; rfl⟩
      next hroom hb =>
        simp only [Except.ok.injEq, Prod.mk.injEq] at h
        obtain ⟨rfl, rfl⟩ := h
        have hlt : b.toNat < 255 := by
          have hle : b.toNat < 256 := b.toNat_lt
          have hne : b.toNat ≠ 255 := fun heq => hb (UInt8.toNat_inj.1 heq)
          omega
        refine ⟨b.toNat, rfl, ?_⟩
        rw [lengthBytes_of_lt hlt, UInt8.ofNat_toNat]
        rfl

/-- The number of literals is read back. -/
theorem plainLiterals_tail (n : Nat) (left : List UInt8) (h : 15 ≤ n → 15 ≤ left.length) :
    plainLiterals (min n 15) (lengthTail n ++ left) = .ok (n, left) := by
  rw [plainLiterals, lengthTail]
  by_cases hn : n < 15
  · simp [hn, show min n 15 = n by omega, show n ≠ 15 by omega]
  · have hleft := h (by omega)
    have hlong : ¬ (lengthBytes (n - 15) ++ left).length ≤ 15 := by
      rw [List.length_append, length_lengthBytes]
      omega
    rw [if_neg hn, show min n 15 = 15 by omega, if_pos rfl, if_neg hlong,
      plainLength_lengthBytes hleft, show 15 + (n - 15) = n by omega]

/-- The length of a match is read back. -/
theorem plainMatch_tail (n : Nat) (left : List UInt8) (h : 15 ≤ n → 4 ≤ left.length) :
    plainMatch (min n 15) (lengthTail n ++ left) = .ok (n, left) := by
  rw [plainMatch, lengthTail]
  by_cases hn : n < 15
  · simp [hn, show min n 15 = n by omega, show n ≠ 15 by omega]
  · rw [if_neg hn, show min n 15 = 15 by omega, if_pos rfl, plainLength_lengthBytes (h (by omega)),
      show 15 + (n - 15) = n by omega]

/-- A length whose four bits are 15 has a tail. -/
theorem lengthTail_of_plainLength {margin n : Nat} {left rest : List UInt8}
    (h : plainLength margin left 15 = .ok (n, rest)) :
    min n 15 = 15 ∧ left = lengthTail n ++ rest := by
  obtain ⟨k, rfl, rfl⟩ := lengthBytes_of_plainLength h
  rw [lengthTail, if_neg (by omega), Nat.add_sub_cancel_left]
  exact ⟨by omega, rfl⟩

/-- A length below 15 has none. -/
theorem lengthTail_of_ok {nibble n : Nat} {left rest : List UInt8} (hnibble : nibble < 15)
    (h : (Except.ok (nibble, left) : Except (List UInt8) (Nat × List UInt8)) = .ok (n, rest)) :
    min n 15 = nibble ∧ left = lengthTail n ++ rest := by
  simp only [Except.ok.injEq, Prod.mk.injEq] at h
  obtain ⟨rfl, rfl⟩ := h
  rw [lengthTail, if_pos hnibble]
  exact ⟨by omega, rfl⟩

/-- The nibble and the bytes behind it are those of the length that is read. -/
theorem tail_of_plainLiterals {nibble n : Nat} {left rest : List UInt8} (hnibble : nibble ≤ 15)
    (h : plainLiterals nibble left = .ok (n, rest)) :
    min n 15 = nibble ∧ left = lengthTail n ++ rest := by
  rw [plainLiterals] at h
  split at h
  next h15 =>
    split at h
    · cases h
    · exact h15 ▸ lengthTail_of_plainLength h
  next h15 => exact lengthTail_of_ok (by omega) h

/-- The same for the length of a match. -/
theorem tail_of_plainMatch {nibble n : Nat} {left rest : List UInt8} (hnibble : nibble ≤ 15)
    (h : plainMatch nibble left = .ok (n, rest)) :
    min n 15 = nibble ∧ left = lengthTail n ++ rest := by
  rw [plainMatch] at h
  split at h
  next h15 => exact h15 ▸ lengthTail_of_plainLength h
  next h15 => exact lengthTail_of_ok (by omega) h

/-- What is read behind the offset of a match. -/
theorem plainMatched_next {checks : Checks} {cap offset nibble : Nat} {left out left' out' : List UInt8}
    (hnibble : nibble ≤ 15) (h : plainMatched checks cap offset nibble left out = .next left' out') :
    ∃ code, min code 15 = nibble ∧ left = lengthTail code ++ left' ∧ offset ≤ out.length ∧
      out' = copyBack offset (code + 4) out := by
  rw [plainMatched] at h
  split at h
  · cases h
  next code rest hmatch =>
    obtain ⟨hcode, hleft⟩ := tail_of_plainMatch hnibble hmatch
    rw [plainCopy] at h
    split at h
    · cases h
    next hoffset =>
      split at h
      · cases h
      · simp only [PlainStep.next.injEq] at h
        obtain ⟨rfl, rfl⟩ := h
        exact ⟨code, hcode, hleft, by omega, rfl⟩

/-- A block does not end with a match. -/
theorem plainMatched_not_done {checks : Checks} {cap offset nibble : Nat} {left out out' : List UInt8} :
    plainMatched checks cap offset nibble left out ≠ .done out' := by
  rw [plainMatched]
  split
  · simp
  · rw [plainCopy]
    split
    · simp
    · split <;> simp

/-- **Soundness of a step**: what a step goes on behind is a sequence. -/
theorem sequence_of_next {checks : Checks} {cap : Nat} {left out left' out' : List UInt8}
    (h : plainStep checks cap left out = .next left' out') :
    ∃ s : Lz4Sequence, left = s.bytes ++ left' ∧ out' = s.expand out ∧ s.Reaches out.length := by
  cases left with
  | nil => cases h
  | cons token left =>
      have htoken : token.toNat < 256 := token.toNat_lt
      rw [plainStep] at h
      split at h
      · cases h
      next n rest hliterals =>
        obtain ⟨hn, rfl⟩ := tail_of_plainLiterals (by omega) hliterals
        rw [plainBehind] at h
        split at h
        · split at h <;> cases h
        next hgo =>
          have hroom : n + 2 ≤ rest.length := by
            by_contra hlt
            exact hgo (.inl (by omega))
          obtain ⟨code, hcode, hdrop, hoffset, rfl⟩ := plainMatched_next (by omega) h
          have htake : (rest.take n).length = n := List.length_take_of_le (by omega)
          have htwo : ((rest.drop n).take 2).length = 2 := by simp; omega
          have hrest : rest = rest.take n ++ ((rest.drop n).take 2 ++
              (lengthTail code ++ left')) := by
            rw [← hdrop, ← List.drop_drop, List.take_append_drop, List.take_append_drop]
          refine ⟨⟨rest.take n, leNat ((rest.drop n).take 2), code⟩, ?_, rfl, ?_, ?_⟩
          · simp only [Lz4Sequence.bytes, htake, leBytes_leNat _ htwo, lz4Token_eq hn hcode,
              List.cons_append, List.append_assoc, ← hrest]
          · simpa using hoffset
          · simpa [htwo] using leNat_lt ((rest.drop n).take 2)

/-- What a step ends with is a last run of literals. -/
theorem last_of_done {checks : Checks} {cap : Nat} {left out out' : List UInt8}
    (h : plainStep checks cap left out = .done out') :
    ∃ spare literals, left = lastBytes spare literals ∧ out' = out ++ literals ∧
      out'.length ≤ cap := by
  cases left with
  | nil => cases h
  | cons token left =>
      have htoken : token.toNat < 256 := token.toNat_lt
      rw [plainStep] at h
      split at h
      · cases h
      next n rest hliterals =>
        obtain ⟨hn, rfl⟩ := tail_of_plainLiterals (by omega) hliterals
        rw [plainBehind] at h
        split at h
        · split at h
          next hlast =>
            obtain ⟨rfl, hcap⟩ := hlast
            simp only [PlainStep.done.injEq] at h
            subst h
            refine ⟨token.toNat % 16, rest, ?_, rfl, by simpa using hcap⟩
            rw [lastBytes, lz4Token_eq hn (by omega)]
          · cases h
        · exact absurd h plainMatched_not_done

/-- **Completeness of a step**: a sequence that fits is read, whatever is checked. -/
theorem plainStep_sequence {cap n : Nat} {s : Lz4Sequence} (left : List UInt8) {out : List UInt8}
    (checks : Checks) (hreach : s.Reaches out.length) (hfits : s.Fits n out.length) (hcap : n ≤ cap)
    (hleft : 6 ≤ left.length) :
    plainStep checks cap (s.bytes ++ left) out = .next left (s.expand out) := by
  obtain ⟨hoffset, h16⟩ := hreach
  obtain ⟨hstart, hend⟩ := hfits
  have htwo : (leBytes 2 s.offset).length = 2 := length_leBytes 2 _
  have hliterals := plainLiterals_tail s.literals.length
    (s.literals ++ (leBytes 2 s.offset ++ (lengthTail s.matchCode ++ left)))
    (by intro h; simp; omega)
  have hmatch := plainMatch_tail s.matchCode left (by omega)
  have hnat : leNat (leBytes 2 s.offset) = s.offset := by
    rw [leNat_leBytes, Nat.mod_eq_of_lt (by simpa using h16)]
  rw [Lz4Sequence.bytes, List.cons_append, plainStep, lz4Token_div, lz4Token_mod]
  simp only [List.append_assoc, hliterals]
  have hgo : ¬ ((s.literals ++ (leBytes 2 s.offset ++ (lengthTail s.matchCode ++ left))).length <
      s.literals.length + 2 ∨ checks.literals = true ∧ (cap < out.length + s.literals.length + 12 ∨
        (s.literals ++ (leBytes 2 s.offset ++ (lengthTail s.matchCode ++ left))).length <
          s.literals.length + 8)) := by
    simp only [List.length_append, htwo]
    omega
  rw [plainBehind, if_neg hgo, ← List.drop_drop, drop_append_of_length rfl,
    take_append_of_length rfl, take_append_of_length htwo, drop_append_of_length htwo, hnat,
    plainMatched]
  simp only [hmatch]
  rw [Lz4Sequence.size] at hend
  rw [plainCopy, if_neg (by simp only [List.length_append]; omega),
    if_neg (by simp only [List.length_append]; omega)]
  rfl

/-- The last literals are read, whatever is checked. -/
theorem plainStep_last (spare : Nat) {cap : Nat} {literals out : List UInt8} (checks : Checks)
    (hcap : out.length + literals.length ≤ cap) :
    plainStep checks cap (lastBytes spare literals) out = .done (out ++ literals) := by
  have hliterals := plainLiterals_tail literals.length literals (by omega)
  rw [lastBytes, plainStep, lz4Token_div]
  simp only [hliterals]
  rw [plainBehind, if_pos (.inl (by omega)), if_pos ⟨rfl, hcap⟩]

/-! ## Whole blocks -/

theorem Lz4Sequence.length_bytes_pos (s : Lz4Sequence) : 0 < s.bytes.length := by
  simp [Lz4Sequence.bytes]

/-- A step that goes on leaves less. -/
theorem length_of_next {checks : Checks} {cap : Nat} {left out left' out' : List UInt8}
    (h : plainStep checks cap left out = .next left' out') : left'.length < left.length := by
  obtain ⟨s, rfl, -, -⟩ := sequence_of_next h
  have hpos := s.length_bytes_pos
  rw [List.length_append]
  omega

/-- More steps than there are bytes make no difference. -/
theorem plainDecode_fuel {rule : List UInt8 → List UInt8 → Checks} {cap fuel : Nat} (fuel' : Nat)
    {left out : List UInt8} (h : left.length < fuel) (h' : left.length < fuel') :
    plainDecode rule cap fuel left out = plainDecode rule cap fuel' left out := by
  induction fuel generalizing fuel' left out with
  | zero => omega
  | succ fuel ih =>
      cases fuel' with
      | zero => omega
      | succ fuel' =>
          rw [plainDecode, plainDecode]
          cases hstep : plainStep (rule left out) cap left out with
          | fail left' => rfl
          | done out' => rfl
          | next left' out' =>
              have hlt := length_of_next hstep
              exact ih fuel' (by omega) (by omega)

/-- **Soundness**: what a decoder reads is a block, and it returns what the block expands to. -/
theorem block_of_plainDecode {rule : List UInt8 → List UInt8 → Checks} {cap fuel : Nat}
    {left out out' : List UInt8} (h : plainDecode rule cap fuel left out = .ok out') :
    ∃ b : Lz4Block, left = b.bytes ∧ out' = expandAll b.sequences out ++ b.last ∧
      SequencesAt Lz4Sequence.Reaches out.length b.sequences ∧ out'.length ≤ cap := by
  induction fuel generalizing left out with
  | zero => cases h
  | succ fuel ih =>
      rw [plainDecode] at h
      split at h
      · cases h
      next hdone =>
        simp only [Except.ok.injEq] at h
        subst h
        obtain ⟨spare, literals, rfl, rfl, hcap⟩ := last_of_done hdone
        exact ⟨⟨[], literals, spare⟩, rfl, rfl, trivial, hcap⟩
      next left' out₁ hnext =>
        obtain ⟨s, rfl, rfl, hreach⟩ := sequence_of_next hnext
        obtain ⟨b, rfl, rfl, hreaches, hcap⟩ := ih h
        refine ⟨⟨s :: b.sequences, b.last, b.spare⟩, ?_, rfl, ⟨hreach, ?_⟩, hcap⟩
        · simp [Lz4Block.bytes, sequenceBytes]
        · rwa [Lz4Sequence.length_expand] at hreaches

/-- **Completeness**: a block that fits is read by every decoder. -/
theorem plainDecode_block {rule : List UInt8 → List UInt8 → Checks} {cap spare n : Nat}
    {ss : List Lz4Sequence} {last : List UInt8} (out : List UInt8) {fuel : Nat}
    (hreach : SequencesAt Lz4Sequence.Reaches out.length ss)
    (hfits : SequencesAt (Lz4Sequence.Fits n) out.length ss)
    (hn : n = out.length + sizes ss + last.length) (hcap : n ≤ cap)
    (hfuel : (sequenceBytes ss ++ lastBytes spare last).length ≤ fuel) :
    plainDecode rule cap fuel (sequenceBytes ss ++ lastBytes spare last) out =
      .ok (expandAll ss out ++ last) := by
  induction ss generalizing out fuel with
  | nil =>
      have hsizes : sizes ([] : List Lz4Sequence) = 0 := rfl
      cases fuel with
      | zero => simp [sequenceBytes, lastBytes] at hfuel
      | succ fuel =>
          have hlast := plainStep_last spare
            (rule (sequenceBytes [] ++ lastBytes spare last) out)
            (show out.length + last.length ≤ cap by omega)
          rw [plainDecode]
          simp only [sequenceBytes, List.map_nil, List.flatten_nil, List.nil_append] at hlast ⊢
          rw [hlast]
          rfl
  | cons s ss ih =>
      have hsizes : sizes (s :: ss) = s.size + sizes ss := by simp [sizes]
      have hbytes : sequenceBytes (s :: ss) ++ lastBytes spare last =
          s.bytes ++ (sequenceBytes ss ++ lastBytes spare last) := by simp [sequenceBytes]
      have hpos := s.length_bytes_pos
      have hfive := five_le_of_fits hfits (by simp) hn
      rw [hbytes] at hfuel ⊢
      rw [List.length_append] at hfuel
      cases fuel with
      | zero => omega
      | succ fuel =>
          have hstep := plainStep_sequence (sequenceBytes ss ++ lastBytes spare last)
            (rule (s.bytes ++ (sequenceBytes ss ++ lastBytes spare last)) out) hreach.1 hfits.1
            hcap (by simp [lastBytes]; omega)
          rw [plainDecode, hstep]
          refine ih _ ?_ ?_ ?_ (by omega)
          · rw [Lz4Sequence.length_expand]
            exact hreach.2
          · rw [Lz4Sequence.length_expand]
            exact hfits.2
          · rw [Lz4Sequence.length_expand]
            omega

end MiniMem
