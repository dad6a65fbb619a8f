import MiniMem.Compressors.Bdi
import MiniMem.Compressors.Wkdm.Roundtrip
import MiniMem.Compressors.SamePage
import MiniMem.Compressors.AiWeights

/-!
# MiniMem.Compressors.Registry

The compressors behind their common interface, `struct minimem_compressor`,
and the table of `registry.c`.  A `compress` function gets the memory of its
destination as it is, and the capacity it is told:

```
compress : src → dst → dst_cap → 0 | outside a buffer | (dst', r)
```

`OwnAlgo` lists the compressors that the library implements itself, and
`OwnAlgo.compress_eq` says everything that they do with a source of up to a
page: what they admit, how far they write before they look at the capacity,
and what they store.
-/

namespace MiniMem

/-! ## The interface -/

/-- `struct minimem_compressor`, without the name. -/
structure Compressor where
  id : Nat
  compress : List UInt8 → List UInt8 → Nat → Except Stop OutCursor
  compressBound : Nat → Nat
  canCompress : List UInt8 → Bool

/-- The scratch areas in the stack frames of `minimem_wkdm_compress` and
`minimem_wkdm64_compress`, with whatever they hold. -/
structure StackScratch where
  wkdm : WkdmScratch wkdm32
  wkdm64 : WkdmScratch wkdm64

/-- A stack that holds zeros. -/
def StackScratch.zeroed : StackScratch := ⟨.zeroed wkdm32, .zeroed MiniMem.wkdm64⟩

/-- A destination over the front of which `bs` has been written. -/
def OutCursor.ofBytes (dst bs : List UInt8) : OutCursor := ⟨bs ++ dst.drop bs.length, bs.length⟩

/-- The admission check of the encoders that only look at the length. -/
def canCompressUnits (unit : Nat) (src : List UInt8) : Bool :=
  !(src.length == 0 || src.length % unit != 0)

theorem canCompressUnits_iff {unit : Nat} {src : List UInt8} :
    canCompressUnits unit src = true ↔ src.length ≠ 0 ∧ src.length % unit = 0 := by
  simp [canCompressUnits]

/-- `minimem_bdi_can_compress`. -/
def minimemBdiCanCompress (src : List UInt8) : Bool :=
  if src.length = 0 ∨ src.length % bdiLineSize ≠ 0 then false
  else
    let compressible := (chunks bdiLineSize (src.length / bdiLineSize) src).countP fun line =>
      (bdiClassifyLine line).type != .uncompressed
    decide (compressible > 0)

/-- `minimem_bdi_compress_bound`. -/
def minimemBdiCompressBound (srcLen : Nat) : Nat :=
  if srcLen = 0 ∨ srcLen % bdiLineSize ≠ 0 then srcLen + 256
  else
    let nLines := srcLen / bdiLineSize
    let worstPerLine := 1 + 8 + (8 * bdiLineWords + 7) / 8
    4 + nLines * worstPerLine

/-- `minimem_wkdm_can_compress`. -/
def minimemWkdmCanCompress (src : List UInt8) : Bool := canCompressUnits 4 src

/-- `minimem_wkdm_compress_bound`. -/
def minimemWkdmCompressBound (srcLen : Nat) : Nat := srcLen + 256

/-- `minimem_wkdm64_can_compress`. -/
def minimemWkdm64CanCompress (src : List UInt8) : Bool := canCompressUnits 8 src

/-- `minimem_wkdm64_compress_bound`. -/
def minimemWkdm64CompressBound (srcLen : Nat) : Nat := srcLen + 512

/-- `minimem_block_class_can_compress`. -/
def minimemBlockClassCanCompress (src : List UInt8) : Bool := canCompressUnits streamBlockSize src

/-- `minimem_block_class_compress_bound`. -/
def minimemBlockClassCompressBound (srcLen : Nat) : Nat := srcLen + 256

/-- `minimem_ai_weights_can_compress`. -/
def minimemAiWeightsCanCompress (src : List UInt8) : Bool := canCompressUnits streamBlockSize src

/-! ## The table -/

/-- The compressors that are implemented in the repository. -/
inductive OwnAlgo where
  | samePage
  | bdi
  | wkdm
  | wkdm64
  | blockClass
  | aiFp16
  | aiBf16
  | aiInt8
  deriving DecidableEq, Repr

/-- `MINIMEM_ALGO_SAME_PAGE` and its siblings. -/
def OwnAlgo.id : OwnAlgo → Nat
  | .samePage => 0
  | .bdi => 1
  | .wkdm => 2
  | .wkdm64 => 7
  | .blockClass => 8
  | .aiFp16 => 9
  | .aiBf16 => 10
  | .aiInt8 => 11

/-- `minimem_same_page_compressor` and its siblings. -/
def OwnAlgo.compressor (stack : StackScratch) : OwnAlgo → Compressor
  | .samePage =>
      ⟨0, minimemSamePageCompress, minimemSamePageCompressBound, minimemSamePageCanCompress⟩
  | .bdi =>
      ⟨1, fun src dst dstCap => (bdiCompress src dstCap).map (OutCursor.ofBytes dst),
        minimemBdiCompressBound, minimemBdiCanCompress⟩
  | .wkdm =>
      ⟨2, fun src dst dstCap =>
          (wkdmCompressScratch src dstCap stack.wkdm).map (OutCursor.ofBytes dst),
        minimemWkdmCompressBound, minimemWkdmCanCompress⟩
  | .wkdm64 =>
      ⟨7, fun src dst dstCap =>
          (wkdm64CompressScratch src dstCap stack.wkdm64).map (OutCursor.ofBytes dst),
        minimemWkdm64CompressBound, minimemWkdm64CanCompress⟩
  | .blockClass =>
      ⟨8, blockClassCompress, minimemBlockClassCompressBound, minimemBlockClassCanCompress⟩
  | .aiFp16 => ⟨9, compressSplit16, aiWeightsCompressBound, minimemAiWeightsCanCompress⟩
  | .aiBf16 => ⟨10, compressSplit16, aiWeightsCompressBound, minimemAiWeightsCanCompress⟩
  | .aiInt8 => ⟨11, compressInt8, aiWeightsCompressBound, minimemAiWeightsCanCompress⟩

/-- `minimem_get_compressor`; `others` are the LZ4, LZSSE8, Zstandard and delta compressors,
which have the identifiers from 3 to 6. -/
def minimemGetCompressor (others : Nat → Compressor) (stack : StackScratch) (algoId : Int) :
    Option Compressor :=
  if algoId < 0 ∨ algoId ≥ 12 then none
  else
    match algoId.toNat with
    | 0 => some (OwnAlgo.samePage.compressor stack)
    | 1 => some (OwnAlgo.bdi.compressor stack)
    | 2 => some (OwnAlgo.wkdm.compressor stack)
    | 7 => some (OwnAlgo.wkdm64.compressor stack)
    | 8 => some (OwnAlgo.blockClass.compressor stack)
    | 9 => some (OwnAlgo.aiFp16.compressor stack)
    | 10 => some (OwnAlgo.aiBf16.compressor stack)
    | 11 => some (OwnAlgo.aiInt8.compressor stack)
    | id => some (others id)

/-- Each compressor has the identifier it is registered under. -/
theorem OwnAlgo.compressor_id (a : OwnAlgo) (stack : StackScratch) :
    (a.compressor stack).id = a.id := by
  cases a <;> rfl

theorem minimemGetCompressor_id (others : Nat → Compressor) (stack : StackScratch) (a : OwnAlgo) :
    minimemGetCompressor others stack a.id = some (a.compressor stack) := by
  cases a <;> rfl

/-! ## What a compressor does -/

/-- The sources that a compressor does not return 0 for at once. -/
def OwnAlgo.Admits : OwnAlgo → List UInt8 → Prop
  | .samePage, src => minimemSamePageCanCompress src = true
  | .bdi, src => src.length ≠ 0 ∧ src.length % bdiLineSize = 0
  | .wkdm, src => src.length ≠ 0 ∧ src.length % 4 = 0
  | .wkdm64, src => src.length ≠ 0 ∧ src.length % 8 = 0
  | .blockClass, src | .aiFp16, src | .aiBf16, src | .aiInt8, src => StreamSource src

instance (a : OwnAlgo) (src : List UInt8) : Decidable (a.Admits src) :=
  match a with
  | .samePage => inferInstanceAs (Decidable (minimemSamePageCanCompress src = true))
  | .bdi => inferInstanceAs (Decidable (src.length ≠ 0 ∧ src.length % bdiLineSize = 0))
  | .wkdm => inferInstanceAs (Decidable (src.length ≠ 0 ∧ src.length % 4 = 0))
  | .wkdm64 => inferInstanceAs (Decidable (src.length ≠ 0 ∧ src.length % 8 = 0))
  | .blockClass | .aiFp16 | .aiBf16 | .aiInt8 => inferInstanceAs (Decidable (StreamSource src))

/-- The size of what a compressor stores for a source. -/
def OwnAlgo.storedSize : OwnAlgo → List UInt8 → Nat
  | .samePage, _ => 5
  | .bdi, src => bdiEncodedSize src
  | .wkdm, src => (wkdmEncode wkdm32 (wkdmSourceTokens wkdm32 src)).length
  | .wkdm64, src => (wkdmEncode MiniMem.wkdm64 (wkdmSourceTokens MiniMem.wkdm64 src)).length
  | .blockClass, src => blockClassSize src
  | .aiFp16, src | .aiBf16, src => split16Size src
  | .aiInt8, src => int8Size src

/-- How far a compressor writes before it looks at the capacity. -/
def OwnAlgo.extent : OwnAlgo → List UInt8 → Nat
  | .samePage, _ | .bdi, _ | .wkdm, _ | .wkdm64, _ => 0
  | .blockClass, src => blockClassSize src
  | .aiFp16, src | .aiBf16, src => split16Extent src
  | .aiInt8, src => int8Size src

/-- What a compressor stores for a source, over a destination. -/
def OwnAlgo.stored : OwnAlgo → List UInt8 → List UInt8 → List UInt8
  | .samePage, src, _ => samePageBytes src
  | .bdi, src, _ =>
      leBytes 4 (src.length / bdiLineSize) ++ ((bdiLines src).map bdiLineBytes).flatten
  | .wkdm, src, _ => wkdmEncode wkdm32 (wkdmSourceTokens wkdm32 src)
  | .wkdm64, src, _ => wkdmEncode MiniMem.wkdm64 (wkdmSourceTokens MiniMem.wkdm64 src)
  | .blockClass, src, _ => streamBytes blockClassBits (streamBlocks src)
  | .aiFp16, src, dst | .aiBf16, src, dst => split16Bytes src dst
  | .aiInt8, src, _ => streamBytes aiBits (int8Rows src)

/-- Only the same-page compressor stores a source in no less space. -/
def OwnAlgo.Shrinks (a : OwnAlgo) (src : List UInt8) : Prop :=
  a = .samePage ∨ a.storedSize src < src.length

instance (a : OwnAlgo) (src : List UInt8) : Decidable (a.Shrinks src) :=
  inferInstanceAs (Decidable (_ ∨ _))

theorem OwnAlgo.storedSize_pos (a : OwnAlgo) (src : List UInt8) : 0 < a.storedSize src := by
  cases a with
  | samePage => exact Nat.succ_pos 4
  | bdi => exact Nat.lt_of_lt_of_le (Nat.succ_pos 3) (Nat.le_add_right _ _)
  | wkdm | wkdm64 =>
      simp only [storedSize, length_wkdmEncode]
      omega
  | blockClass => exact blockClassSize_pos src
  | aiFp16 | aiBf16 => exact split16Size_pos src
  | aiInt8 => exact int8Size_pos src

/-- The two encoders of words, behind the interface. -/
theorem wkdm_map_ofBytes {p : WkdmParams} {src dst : List UInt8} {w : Nat} (hw : p.wordBytes = w)
    (dstCap : Nat) (scratch : WkdmScratch p) (hsrc : src.length ≤ 4096) :
    (wkdmCompressImpl p src dstCap scratch).map (OutCursor.ofBytes dst) =
      if ¬ (src.length ≠ 0 ∧ src.length % w = 0) then .error .zero
      else if ¬ (wkdmEncode p (wkdmSourceTokens p src)).length < src.length ∨
          (wkdmEncode p (wkdmSourceTokens p src)).length > dstCap then .error .zero
      else .ok (OutCursor.ofBytes dst (wkdmEncode p (wkdmSourceTokens p src))) := by
  subst hw
  by_cases h : src.length ≠ 0 ∧ src.length % p.wordBytes = 0
  · rw [if_neg (not_not_intro h), wkdmCompressImpl_eq dstCap scratch h.1 h.2 hsrc]
    simp only [Nat.not_lt, ge_iff_le]
    split <;> rfl
  · rw [if_pos h, wkdmCompressImpl, if_pos (by omega)]
    rfl

/-- The encoder of lines, behind the interface. -/
theorem bdi_map_ofBytes (src dst : List UInt8) (dstCap : Nat) :
    (bdiCompress src dstCap).map (OutCursor.ofBytes dst) =
      if ¬ (src.length ≠ 0 ∧ src.length % bdiLineSize = 0) then .error .zero
      else if ¬ bdiEncodedSize src < src.length ∨ bdiEncodedSize src > dstCap then .error .zero
      else .ok ⟨OwnAlgo.bdi.stored src dst ++ dst.drop (bdiEncodedSize src),
        bdiEncodedSize src⟩ := by
  have hlen : (leBytes 4 (src.length / bdiLineSize) ++
      ((bdiLines src).map bdiLineBytes).flatten).length = bdiEncodedSize src := by
    simp [bdiEncodedSize, List.length_flatten, Function.comp_def]
  rw [bdiCompress_eq]
  by_cases hadmits : src.length ≠ 0 ∧ src.length % bdiLineSize = 0
  · rw [if_neg (not_not_intro hadmits)]
    by_cases hfit : bdiEncodedSize src ≤ dstCap ∧ bdiEncodedSize src < src.length
    · rw [if_pos ⟨hadmits.1, hadmits.2, hfit⟩, if_neg (by omega)]
      simp only [Except.map, OutCursor.ofBytes, hlen, OwnAlgo.stored]
    · rw [if_neg (fun h => hfit h.2.2), if_pos (by omega)]
      rfl
  · rw [if_pos hadmits, if_neg (fun h => hadmits ⟨h.1, h.2.1⟩)]
    rfl

/-- **Compressors**: everything that the repository's own compressors do with a source of up
to a page, on a destination that has the capacity passed. -/
theorem OwnAlgo.compress_eq (a : OwnAlgo) (stack : StackScratch) {src dst : List UInt8}
    {dstCap : Nat} (hsrc : src.length ≤ 4096) (hcap : dstCap ≤ dst.length) :
    (a.compressor stack).compress src dst dstCap =
      if ¬ a.Admits src then .error .zero
      else if dst.length < a.extent src then .error .oob
      else if ¬ a.Shrinks src ∨ a.storedSize src > dstCap then .error .zero
      else .ok ⟨a.stored src dst ++ dst.drop (a.storedSize src), a.storedSize src⟩ := by
  have hblocks : ¬ blocksPerPage < src.length / streamBlockSize :=
    Nat.not_lt.2 (Nat.div_le_div_right hsrc)
  cases a with
  | samePage =>
      have h := minimemSamePageCompress_eq src hcap
      simp only [compressor, Admits, extent, Shrinks, storedSize, stored, h, Nat.not_lt_zero,
        if_false, true_or, not_true_eq_false, false_or, gt_iff_lt, ite_not]
      grind
  | bdi =>
      simpa [compressor, Admits, extent, Shrinks, storedSize] using bdi_map_ofBytes src dst dstCap
  | wkdm =>
      have h := @wkdm_map_ofBytes wkdm32 src dst 4 rfl dstCap stack.wkdm hsrc
      simpa [compressor, Admits, extent, Shrinks, storedSize, stored, wkdmCompressScratch,
        OutCursor.ofBytes] using h
  | wkdm64 =>
      have h := @wkdm_map_ofBytes MiniMem.wkdm64 src dst 8 rfl dstCap stack.wkdm64 hsrc
      simpa [compressor, Admits, extent, Shrinks, storedSize, stored, wkdm64CompressScratch,
        OutCursor.ofBytes] using h
  | blockClass =>
      have h := blockClassCompress_eq src dst dstCap
      rw [if_neg hblocks] at h
      simpa [compressor, Admits, extent, Shrinks, storedSize, stored] using h
  | aiFp16 =>
      have h := compressSplit16_eq src hcap
      rw [if_neg hblocks] at h
      simpa [compressor, Admits, extent, Shrinks, storedSize, stored] using h
  | aiBf16 =>
      have h := compressSplit16_eq src hcap
      rw [if_neg hblocks] at h
      simpa [compressor, Admits, extent, Shrinks, storedSize, stored] using h
  | aiInt8 =>
      have h := compressInt8_eq src dst dstCap
      rw [if_neg hblocks] at h
      simpa [compressor, Admits, extent, Shrinks, storedSize, stored] using h

end MiniMem
