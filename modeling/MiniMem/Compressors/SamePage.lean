import MiniMem.Compressors.Blocks

/-!
# MiniMem.Compressors.SamePage

The same-page compressor of the library, `same_page.c`: a source of one
repeated byte is stored as that byte and the 32-bit length of the source,

```
enc(b, b, …, b)  =  b ++ le32(len)
```

in five bytes whatever the length, which for the shortest sources is not
less than the source.
-/

namespace MiniMem

/-- `minimem_same_page_can_compress`. -/
def minimemSamePageCanCompress : List UInt8 → Bool
  | [] => false
  | first :: rest => rest.all (· == first)

/-- `minimem_same_page_compress`. -/
def minimemSamePageCompress (src dst : List UInt8) (dstCap : Nat) : Except Stop OutCursor :=
  match src with
  | [] => .error .zero
  | first :: rest =>
      if rest.any (· != first) then .error .zero
      else if dstCap < 4 + 1 then .error .zero
      else do
        let c ← OutCursor.put ⟨dst, 0⟩ [first]
        c.put (leBytes 4 src.length)

/-- `minimem_same_page_decompress`. -/
def minimemSamePageDecompress (src : List UInt8) (dstCap : Nat) : Except Stop (List UInt8) :=
  if src.length < 1 + 4 then .error .zero
  else do
    let len := leNat (← readAt src 1 4)
    if dstCap < len then .error .zero
    else do
      let first ← readByte src 0
      emit dstCap [] (List.replicate len first)

/-- `minimem_same_page_compress_bound`. -/
def minimemSamePageCompressBound (_srcLen : Nat) : Nat := 1 + 4

/-- A source that the compressor admits is one repeated byte. -/
theorem minimemSamePageCanCompress_iff {src : List UInt8} :
    minimemSamePageCanCompress src = true ↔
      ∃ b, src = List.replicate src.length b ∧ src.length ≠ 0 := by
  cases src with
  | nil => simp [minimemSamePageCanCompress]
  | cons b bs =>
      rw [minimemSamePageCanCompress, List.all_eq_true]
      constructor
      · intro h
        refine ⟨b, ?_, by simp⟩
        have hbs : bs = List.replicate bs.length b :=
          List.eq_replicate_iff.2 ⟨rfl, fun d hd => by simpa using h d hd⟩
        rw [List.length_cons, List.replicate_succ, ← hbs]
      · rintro ⟨c, hc, -⟩ d hd
        rw [List.length_cons, List.replicate_succ, List.cons.injEq] at hc
        rw [hc.2] at hd
        rw [List.eq_of_mem_replicate hd, hc.1]
        simp

/-- What the compressor stores for a source. -/
def samePageBytes (src : List UInt8) : List UInt8 := src.headD 0 :: leBytes 4 src.length

@[simp] theorem length_samePageBytes (src : List UInt8) : (samePageBytes src).length = 5 := by
  simp [samePageBytes]

/-- Everything `minimem_same_page_compress` can do on a destination that has the capacity
passed. -/
theorem minimemSamePageCompress_eq (src : List UInt8) {dst : List UInt8} {dstCap : Nat}
    (hcap : dstCap ≤ dst.length) :
    minimemSamePageCompress src dst dstCap =
      if minimemSamePageCanCompress src = true ∧ 5 ≤ dstCap then
        .ok ⟨samePageBytes src ++ dst.drop 5, 5⟩
      else .error .zero := by
  cases src with
  | nil => rfl
  | cons b bs =>
      rw [minimemSamePageCompress, minimemSamePageCanCompress]
      by_cases hsame : bs.all (· == b) = true
      · have hany : ¬ bs.any (· != b) = true := by
          simpa using hsame
        rw [if_neg hany]
        by_cases hroom : 5 ≤ dstCap
        · have hput := OutCursor.put_append ⟨dst, 0⟩ [b] (leBytes 4 (b :: bs).length)
          rw [if_neg (by omega), if_pos ⟨hsame, hroom⟩, ← hput,
            OutCursor.put_ok (by simp; omega)]
          simp [samePageBytes]
        · rw [if_pos (by omega), if_neg (by omega)]
      · have hany : bs.any (· != b) = true := by
          simpa using hsame
        rw [if_pos hany, if_neg (by simp [hsame])]

end MiniMem
