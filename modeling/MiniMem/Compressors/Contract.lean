import MiniMem.Compressors.Registry
import MiniMem.Compressors.Wkdm.Overflow

/-!
# MiniMem.Compressors.Contract

What the callers of a compressor rely on, for each compressor of the
repository: that it returns 0 or a size below that of the source and within
the capacity it was told, that it writes nothing behind that capacity, that
its fixed tables are large enough for the sources it admits, and that what
it stores depends on the source alone.

A write behind the capacity is a run that stops with `Stop.oob` on a
destination of exactly `dst_cap` bytes.
-/

namespace MiniMem

/-! ## Results and capacities -/

/-- A run that returns 0, or a size below that of the source and within the capacity. -/
def KeepsContract (srcLen dstCap : Nat) (run : Except Stop OutCursor) : Prop :=
  run = .error .zero ∨ ∃ c, run = .ok c ∧ 0 < c.out ∧ c.out < srcLen ∧ c.out ≤ dstCap

/-- **Contract**: a compressor breaks it by storing a short source in five bytes, or by writing
the tables and blocks of a source that do not fit the capacity. -/
theorem OwnAlgo.keepsContract_iff (a : OwnAlgo) (stack : StackScratch) (dst : List UInt8)
    {src : List UInt8} (hsrc : src.length ≤ 4096) :
    KeepsContract src.length dst.length ((a.compressor stack).compress src dst dst.length) ↔
      ¬ (a = .samePage ∧ minimemSamePageCanCompress src = true ∧ src.length ≤ 5 ∧
          5 ≤ dst.length) ∧
      (a.Admits src → a.extent src ≤ dst.length) := by
  rw [a.compress_eq stack hsrc (Nat.le_refl dst.length)]
  have hpos := a.storedSize_pos src
  by_cases hadmits : a.Admits src
  swap
  · have hsame : ¬ (a = .samePage ∧ minimemSamePageCanCompress src = true ∧ src.length ≤ 5 ∧
        5 ≤ dst.length) := by
      rintro ⟨rfl, h, -⟩
      exact hadmits h
    rw [if_pos hadmits]
    exact iff_of_true (.inl rfl) ⟨hsame, fun h => absurd h hadmits⟩
  rw [if_neg (not_not_intro hadmits)]
  by_cases hextent : dst.length < a.extent src
  · rw [if_pos hextent]
    refine iff_of_false ?_ fun h => Nat.not_le.2 hextent (h.2 hadmits)
    rintro (h | ⟨c, h, -⟩) <;> cases h
  rw [if_neg hextent]
  have hfits : a.Admits src → a.extent src ≤ dst.length := fun _ => Nat.le_of_not_lt hextent
  by_cases hstop : ¬ a.Shrinks src ∨ a.storedSize src > dst.length
  · rw [if_pos hstop]
    refine iff_of_true (.inl rfl) ⟨?_, hfits⟩
    rintro ⟨rfl, -, -, hroom⟩
    obtain h | h := hstop
    · exact h (.inl rfl)
    · exact Nat.not_lt.2 hroom h
  rw [if_neg hstop]
  simp only [not_or, not_not, gt_iff_lt, Nat.not_lt] at hstop
  constructor
  · rintro (h | ⟨c, h, -, hlt, -⟩)
    · cases h
    · injection h with h
      rw [← h] at hlt
      refine ⟨?_, hfits⟩
      rintro ⟨rfl, -, hshort, -⟩
      exact Nat.not_lt.2 hshort hlt
  · rintro ⟨hsame, -⟩
    refine .inr ⟨_, rfl, hpos, ?_, hstop.2⟩
    obtain rfl | hlt := hstop.1
    · have hfive : OwnAlgo.samePage.storedSize src = 5 := rfl
      have : ¬ src.length ≤ 5 := fun h => hsame ⟨rfl, hadmits, h, hstop.2⟩
      dsimp only
      omega
    · exact hlt

theorem keepsContract_replicate : KeepsContract 6 8
    ((OwnAlgo.samePage.compressor .zeroed).compress (List.replicate 6 1)
      (List.replicate 8 0) 8) :=
  (@OwnAlgo.keepsContract_iff .samePage .zeroed (List.replicate 8 0) (List.replicate 6 1)
    (by decide)).2 ⟨by decide, fun _ => Nat.zero_le _⟩

/-- With no room at all, the block classifier writes a block of zeros behind its destination. -/
theorem not_keepsContract_blockClass :
    ¬ ∀ (a : OwnAlgo) (stack : StackScratch) (src dst : List UInt8), src.length ≤ 4096 →
      KeepsContract src.length dst.length ((a.compressor stack).compress src dst dst.length) := by
  intro h
  have hrun : (OwnAlgo.blockClass.compressor .zeroed).compress (List.replicate 64 0) []
      ([] : List UInt8).length = .error .oob := rfl
  have hkeeps := h .blockClass .zeroed (List.replicate 64 0) [] (by simp)
  rw [hrun] at hkeeps
  obtain hzero | ⟨c, hok, -⟩ := hkeeps
  · cases hzero
  · cases hok

/-! ## Tables -/

/-- The tables and scratch areas of a compressor have room for the blocks or words of a
source. -/
def OwnAlgo.TablesFit : OwnAlgo → List UInt8 → Prop
  | .samePage, _ | .bdi, _ => True
  | .wkdm, src => WkdmFits wkdm32 (wkdmReadTokens wkdm32 src)
  | .wkdm64, src => WkdmFits MiniMem.wkdm64 (wkdmReadTokens MiniMem.wkdm64 src)
  | .blockClass, src | .aiFp16, src | .aiBf16, src | .aiInt8, src =>
      src.length / streamBlockSize ≤ blocksPerPage

theorem wkdm_ne_oob_iff {p : WkdmParams} {src : List UInt8} {w : Nat} (hw : p.wordBytes = w)
    (h : canCompressUnits w src = true) (dst : List UInt8) (dstCap : Nat)
    (scratch : WkdmScratch p) :
    (wkdmCompressImpl p src dstCap scratch).map (OutCursor.ofBytes dst) ≠ .error .oob ↔
      WkdmFits p (wkdmReadTokens p src) := by
  subst hw
  obtain ⟨hpos, hmod⟩ := canCompressUnits_iff.1 h
  have hmap : (wkdmCompressImpl p src dstCap scratch).map (OutCursor.ofBytes dst) = .error .oob ↔
      wkdmCompressImpl p src dstCap scratch = .error .oob := by
    cases wkdmCompressImpl p src dstCap scratch <;> simp [Except.map]
  rw [ne_eq, hmap, wkdmCompressImpl_eq_oob_iff dstCap scratch hpos hmod, not_not]

/-- An encoder of blocks that has room for what it may store goes outside a buffer exactly
when there are more blocks than entries in its tables. -/
theorem stream_ne_oob_iff {src dst : List UInt8} {dstCap extent size : Nat} {bytes : List UInt8}
    (hadmits : StreamSource src) {run : Except Stop OutCursor}
    (hrun : run =
      if ¬ StreamSource src then .error .zero
      else if blocksPerPage < src.length / streamBlockSize then .error .oob
      else if dst.length < extent then .error .oob
      else if size ≥ src.length ∨ size > dstCap then .error .zero
      else .ok ⟨bytes ++ dst.drop size, size⟩)
    (hextent : src.length / streamBlockSize ≤ blocksPerPage → extent ≤ dst.length) :
    run ≠ .error .oob ↔ src.length / streamBlockSize ≤ blocksPerPage := by
  rw [hrun, if_neg (not_not_intro hadmits)]
  by_cases hfit : blocksPerPage < src.length / streamBlockSize
  · rw [if_pos hfit]
    exact iff_of_false (fun h => h rfl) (Nat.not_le.2 hfit)
  · rw [if_neg hfit, if_neg (Nat.not_lt.2 (hextent (Nat.le_of_not_lt hfit)))]
    refine iff_of_true ?_ (Nat.le_of_not_lt hfit)
    split <;> simp

/-- **Tables**: on a source that a compressor admits, and a destination with room for what it
may store, it goes outside a buffer exactly when the source does not fit its tables. -/
theorem OwnAlgo.tablesFit_iff (a : OwnAlgo) (stack : StackScratch) {src dst : List UInt8}
    {dstCap : Nat} (hcan : (a.compressor stack).canCompress src = true)
    (hroom : (a.compressor stack).compressBound src.length ≤ dst.length)
    (hcap : dstCap ≤ dst.length) :
    (a.compressor stack).compress src dst dstCap ≠ .error .oob ↔ a.TablesFit src := by
  cases a with
  | samePage =>
      refine iff_of_true ?_ trivial
      simp only [compressor, minimemSamePageCompress_eq src hcap]
      split <;> simp
  | bdi =>
      refine iff_of_true ?_ trivial
      simp only [compressor, bdi_map_ofBytes]
      split
      · simp
      · split <;> simp
  | wkdm =>
      have hcan : canCompressUnits 4 src = true := hcan
      exact @wkdm_ne_oob_iff wkdm32 src 4 rfl hcan dst dstCap stack.wkdm
  | wkdm64 =>
      have hcan : canCompressUnits 8 src = true := hcan
      exact @wkdm_ne_oob_iff MiniMem.wkdm64 src 8 rfl hcan dst dstCap stack.wkdm64
  | blockClass =>
      have hadmits : StreamSource src := canCompressUnits_iff.1 hcan
      have hroom : src.length + 256 ≤ dst.length := hroom
      refine stream_ne_oob_iff hadmits (blockClassCompress_eq src dst dstCap) fun hfit => ?_
      have := hadmits.streamSize_le (p := blockClassBits) (length_streamBlocks src)
        (fun _ hb => hadmits.length_mem hb) hfit
      unfold blockClassSize
      omega
  | aiFp16 | aiBf16 =>
      have hadmits : StreamSource src := canCompressUnits_iff.1 hcan
      have hroom : src.length + 256 ≤ dst.length := hroom
      refine stream_ne_oob_iff hadmits (compressSplit16_eq src hcap) fun hfit => ?_
      have := split16Size_le hadmits hfit
      have := split16Extent_le src
      omega
  | aiInt8 =>
      have hadmits : StreamSource src := canCompressUnits_iff.1 hcan
      have hroom : src.length + 256 ≤ dst.length := hroom
      refine stream_ne_oob_iff hadmits (compressInt8_eq src dst dstCap) fun hfit => ?_
      have := int8Size_le hadmits hfit
      omega

theorem tablesFit_block :
    (OwnAlgo.blockClass.compressor .zeroed).compress (List.replicate 64 0)
      (List.replicate 320 0) 320 ≠ .error .oob :=
  (OwnAlgo.blockClass.tablesFit_iff .zeroed
    (canCompressUnits_iff.2 (by simp [streamBlockSize]))
    (by
      rw [List.length_replicate, List.length_replicate]
      exact Nat.le_refl _)
    (by rw [List.length_replicate])).2
    (by simp [OwnAlgo.TablesFit, streamBlockSize, blocksPerPage])

/-- The block classifier admits 65 blocks, and its tables have 64 entries. -/
theorem not_tables_blockClass :
    ¬ ∀ (a : OwnAlgo) (stack : StackScratch) (src dst : List UInt8) (dstCap : Nat),
      (a.compressor stack).canCompress src = true →
      (a.compressor stack).compressBound src.length ≤ dst.length → dstCap ≤ dst.length →
      (a.compressor stack).compress src dst dstCap ≠ .error .oob := by
  intro h
  obtain ⟨src, hsrc⟩ : ∃ src : List UInt8, src.length = 65 * 64 :=
    ⟨List.replicate (65 * 64) 0, List.length_replicate⟩
  obtain ⟨dst, hdst⟩ : ∃ dst : List UInt8, dst.length = 65 * 64 + 256 :=
    ⟨List.replicate (65 * 64 + 256) 0, List.length_replicate⟩
  have hadmits : StreamSource src := by
    rw [StreamSource, hsrc]
    decide
  have hmany : blocksPerPage < src.length / streamBlockSize := by
    rw [hsrc]
    decide
  refine h .blockClass .zeroed src dst 0 (canCompressUnits_iff.2 hadmits) ?_ (Nat.zero_le _) ?_
  · rw [hsrc, hdst]
    exact Nat.le_refl _
  · simp only [OwnAlgo.compressor]
    rw [blockClassCompress_eq, if_neg (not_not_intro hadmits), if_pos hmany]

/-! ## Stored bytes -/

/-- The value that a run returns, and what it leaves below it. -/
def resultBytes (run : Except Stop OutCursor) : Except Stop (Nat × List UInt8) :=
  run.map fun c => (c.out, c.bytes)

/-- Two runs that stay inside their buffers and store the same bytes. -/
def SameResult (run run' : Except Stop OutCursor) : Prop :=
  run ≠ .error .oob ∧ resultBytes run = resultBytes run'

theorem sameResult_zero : SameResult (.error .zero) (.error .zero) := ⟨by simp, rfl⟩

theorem resultBytes_ok {bytes dst : List UInt8} {size : Nat} (h : bytes.length = size) :
    resultBytes (.ok ⟨bytes ++ dst.drop size, size⟩) = .ok (size, bytes) := by
  simp only [resultBytes, Except.map, OutCursor.bytes]
  rw [take_append_of_length h]

/-- An encoder that writes every byte of what it stores. -/
theorem sameResult_stream {src dst dst' : List UInt8} {cap size : Nat} {bytes : List UInt8}
    {run : List UInt8 → Except Stop OutCursor}
    (hrun : ∀ dst, run dst =
      if ¬ StreamSource src then .error .zero
      else if blocksPerPage < src.length / streamBlockSize then .error .oob
      else if dst.length < size then .error .oob
      else if size ≥ src.length ∨ size > cap then .error .zero
      else .ok ⟨bytes ++ dst.drop size, size⟩)
    (hlen : bytes.length = size) (hsrc : src.length ≤ 4096)
    (hsize : StreamSource src → size ≤ cap) (hdst : dst.length = cap) (hdst' : dst'.length = cap) :
    SameResult (run dst) (run dst') := by
  by_cases hadmits : StreamSource src
  swap
  · rw [hrun, hrun, if_pos hadmits, if_pos hadmits]
    exact sameResult_zero
  have hfit : ¬ blocksPerPage < src.length / streamBlockSize :=
    Nat.not_lt.2 (Nat.div_le_div_right hsrc)
  have hroom := hsize hadmits
  rw [hrun, hrun, if_neg (not_not_intro hadmits), if_neg (not_not_intro hadmits), if_neg hfit,
    if_neg hfit, if_neg (show ¬ dst.length < size by omega),
    if_neg (show ¬ dst'.length < size by omega)]
  split
  · exact sameResult_zero
  · exact ⟨by simp, by rw [resultBytes_ok hlen, resultBytes_ok hlen]⟩

/-- Two runs into any two destinations of `bound` bytes store the same. -/
def OutputDetermined (compress : List UInt8 → List UInt8 → Nat → Except Stop OutCursor)
    (bound : Nat → Nat) (src : List UInt8) : Prop :=
  ∀ dst dst' : List UInt8, dst.length = bound src.length → dst'.length = bound src.length →
    SameResult (compress src dst (bound src.length)) (compress src dst' (bound src.length))

theorem outputDetermined_blockClass {src : List UInt8} (hsrc : src.length ≤ 4096) :
    OutputDetermined blockClassCompress minimemBlockClassCompressBound src := by
  intro dst dst' hdst hdst'
  refine sameResult_stream (fun dst => blockClassCompress_eq src dst _) (length_streamBytes _ _)
    hsrc (fun hadmits => ?_) hdst hdst'
  have := hadmits.streamSize_le (p := blockClassBits) (length_streamBlocks src)
    (fun _ hb => hadmits.length_mem hb) (Nat.div_le_div_right hsrc)
  unfold minimemBlockClassCompressBound blockClassSize
  omega

theorem outputDetermined_int8 {src : List UInt8} (hsrc : src.length ≤ 4096) :
    OutputDetermined compressInt8 aiWeightsCompressBound src := by
  intro dst dst' hdst hdst'
  refine sameResult_stream (fun dst => compressInt8_eq src dst _) (length_streamBytes _ _)
    hsrc (fun hadmits => ?_) hdst hdst'
  have := int8Size_le hadmits (Nat.div_le_div_right hsrc)
  unfold aiWeightsCompressBound
  omega

/-- From two blocks on, the tables of a split source leave a gap. -/
theorem split16Types_lt {src : List UInt8} (hadmits : StreamSource src) (h : 64 < src.length) :
    split16Types src < split16Header src := by
  have hmul := hadmits.mul_eq
  simp only [split16Types, split16Header, streamBlockSize] at hmul ⊢
  obtain htwo | hmore : src.length / 64 = 2 ∨ 3 ≤ src.length / 64 := by omega
  · rw [htwo]
    decide
  · omega

/-- What is stored for a split source depends on its gaps alone. -/
theorem split16Bytes_inj {src dst dst' : List UInt8}
    (h : split16Bytes src dst = split16Bytes src dst')
    (hdst : 4 + split16Header src ≤ dst.length) (hdst' : 4 + split16Header src ≤ dst'.length) :
    split16Gap src dst 4 = split16Gap src dst' 4 := by
  have hrest := List.append_cancel_left (List.append_cancel_left h)
  exact (List.append_inj hrest (by rw [length_split16Gap hdst, length_split16Gap hdst'])).1

theorem outputDetermined_split16_iff {src : List UInt8} (hsrc : src.length ≤ 4096) :
    OutputDetermined compressSplit16 aiWeightsCompressBound src ↔
      (StreamSource src → src.length ≤ 64 ∨ src.length ≤ split16Size src) := by
  have hfit : src.length / streamBlockSize ≤ blocksPerPage := Nat.div_le_div_right hsrc
  have hextent := split16Extent_le src
  have hbound : aiWeightsCompressBound src.length = src.length + 256 := rfl
  constructor
  · intro h hadmits
    by_contra hlong
    rw [not_or, Nat.not_le, Nat.not_le] at hlong
    have hgap := split16Types_lt hadmits hlong.1
    have hsize := split16Size_le hadmits hfit
    have hrun : ∀ v : UInt8, resultBytes (compressSplit16 src
        (List.replicate (aiWeightsCompressBound src.length) v)
        (aiWeightsCompressBound src.length)) =
          .ok (split16Size src,
            split16Bytes src (List.replicate (aiWeightsCompressBound src.length) v)) := by
      intro v
      rw [compressSplit16_eq src (by rw [List.length_replicate]), if_neg (not_not_intro hadmits),
        if_neg (Nat.not_lt.2 hfit), List.length_replicate, if_neg (by omega), if_neg (by omega)]
      exact resultBytes_ok (length_split16Bytes (by rw [List.length_replicate]; omega))
    have hsame := (h (List.replicate _ 0) (List.replicate _ 1) List.length_replicate
      List.length_replicate).2
    rw [hrun, hrun, Except.ok.injEq, Prod.mk.injEq] at hsame
    have hheader : 4 + split16Header src ≤ src.length + 256 := by
      unfold split16Size at hsize
      omega
    have hgaps := split16Bytes_inj hsame.2 (by rw [List.length_replicate, hbound]; exact hheader)
      (by rw [List.length_replicate, hbound]; exact hheader)
    simp only [split16Gap, List.drop_replicate, List.take_replicate] at hgaps
    have hpos : min (split16Header src - split16Types src)
        (aiWeightsCompressBound src.length - (4 + split16Types src)) ≠ 0 := by
      omega
    rw [List.replicate_right_inj hpos] at hgaps
    exact absurd hgaps (by decide)
  · intro h dst dst' hdst hdst'
    by_cases hadmits : StreamSource src
    swap
    · rw [compressSplit16_eq src (by omega), compressSplit16_eq src (by omega), if_pos hadmits,
        if_pos hadmits]
      exact sameResult_zero
    have hsize := split16Size_le hadmits hfit
    rw [compressSplit16_eq src (by omega), compressSplit16_eq src (by omega),
      if_neg (not_not_intro hadmits), if_neg (not_not_intro hadmits), if_neg (Nat.not_lt.2 hfit),
      if_neg (Nat.not_lt.2 hfit), if_neg (show ¬ dst.length < split16Extent src by omega),
      if_neg (show ¬ dst'.length < split16Extent src by omega)]
    obtain hshort | hbig := h hadmits
    · have hmul := hadmits.mul_eq
      have hnogap : split16Header src - split16Types src = 0 := by
        simp only [split16Types, split16Header, streamBlockSize] at hmul ⊢
        obtain hzero | hone : src.length / 64 = 0 ∨ src.length / 64 = 1 := by omega
        · rw [hzero]
        · rw [hone]
      have hbytes : split16Bytes src dst = split16Bytes src dst' := by
        simp only [split16Bytes, split16Gap, hnogap, List.take_zero]
      split
      · exact sameResult_zero
      · refine ⟨by simp, ?_⟩
        rw [resultBytes_ok (length_split16Bytes (by omega)),
          resultBytes_ok (length_split16Bytes (by omega)), hbytes]
    · rw [if_pos (.inl hbig), if_pos (.inl hbig)]
      exact sameResult_zero

/-- **Determined output**: only the split encoder stores bytes that it has not written, between
the tables of a source of two blocks or more that it shrinks. -/
theorem outputDetermined_iff {src : List UInt8} (hsrc : src.length ≤ 4096) :
    (OutputDetermined blockClassCompress minimemBlockClassCompressBound src ∧
      OutputDetermined compressSplit16 aiWeightsCompressBound src ∧
      OutputDetermined compressInt8 aiWeightsCompressBound src) ↔
      (StreamSource src → src.length ≤ 64 ∨ src.length ≤ split16Size src) :=
  ⟨fun h => (outputDetermined_split16_iff hsrc).1 h.2.1, fun h =>
    ⟨outputDetermined_blockClass hsrc, (outputDetermined_split16_iff hsrc).2 h,
      outputDetermined_int8 hsrc⟩⟩

theorem outputDetermined_block :
    OutputDetermined blockClassCompress minimemBlockClassCompressBound (List.replicate 64 0) ∧
      OutputDetermined compressSplit16 aiWeightsCompressBound (List.replicate 64 0) ∧
      OutputDetermined compressInt8 aiWeightsCompressBound (List.replicate 64 0) :=
  (outputDetermined_iff (by simp)).2 fun _ => .inl (by simp)

/-- Two blocks of zeros come out of the split encoder with bytes that their destination held. -/
theorem not_outputDetermined :
    ¬ ∀ src : List UInt8, src.length ≤ 4096 →
      OutputDetermined blockClassCompress minimemBlockClassCompressBound src ∧
      OutputDetermined compressSplit16 aiWeightsCompressBound src ∧
      OutputDetermined compressInt8 aiWeightsCompressBound src := by
  intro h
  have hsplit := (h (List.replicate 128 0) (by simp)).2.1
  have hrun : resultBytes (compressSplit16 (List.replicate 128 0) (List.replicate 384 0) 384) =
      .ok (8, [2, 0, 2, 0, 0, 0, 0, 0]) := by decide +kernel
  have hrun' : resultBytes (compressSplit16 (List.replicate 128 0) (List.replicate 384 1) 384) =
      .ok (8, [2, 0, 2, 0, 0, 1, 0, 1]) := by decide +kernel
  have hsame := (hsplit (List.replicate 384 0) (List.replicate 384 1)
    (by rw [List.length_replicate, List.length_replicate]; rfl)
    (by rw [List.length_replicate, List.length_replicate]; rfl)).2
  rw [List.length_replicate] at hsame
  rw [show aiWeightsCompressBound 128 = 384 from rfl, hrun, hrun'] at hsame
  exact absurd hsame (by decide)

/-! ## Round trips -/

theorem eq_ok_of_map_ofBytes {run : Except Stop (List UInt8)} {dst : List UInt8} {c : OutCursor}
    (h : run.map (OutCursor.ofBytes dst) = .ok c) : run = .ok c.bytes := by
  cases run with
  | error e => cases h
  | ok out =>
      injection h with h
      rw [← h, OutCursor.ofBytes, OutCursor.bytes, take_append_of_length rfl]

/-- **WKdm-32 round trip**: the decoder reproduces every source of up to a page from what the
encoder leaves below its result. -/
theorem wkdmDecompress_bytes (stack : StackScratch) {src dst : List UInt8} {dstCap cap : Nat}
    {c : OutCursor} (hsrc : src.length ≤ 4096) (hcap : src.length ≤ cap)
    (h : (OwnAlgo.wkdm.compressor stack).compress src dst dstCap = .ok c) :
    wkdmDecompress c.bytes cap = .ok src :=
  wkdmDecompress_wkdmCompress hsrc hcap (eq_ok_of_map_ofBytes h)

/-- A miss, an exact hit, a partial word and five words of zeros. -/
def wkdmTagged : List UInt8 :=
  [0x78, 0x56, 0x34, 0x12, 0x78, 0x56, 0x34, 0x12, 0, 1, 0, 0] ++ List.replicate 20 0

theorem wkdmDecompress_wkdmTagged :
    wkdmDecompress [8, 0, 0, 0, 1, 0, 0, 0, 1, 0, 0, 0, 39, 0, 7, 0, 1, 0x78, 0x56, 0x34, 0x12] 32
      = .ok wkdmTagged := by
  have hrun : (OwnAlgo.wkdm.compressor .zeroed).compress wkdmTagged (List.replicate 21 0) 21 =
      .ok ⟨[8, 0, 0, 0, 1, 0, 0, 0, 1, 0, 0, 0, 39, 0, 7, 0, 1, 0x78, 0x56, 0x34, 0x12], 21⟩ := by
    decide +kernel
  exact wkdmDecompress_bytes .zeroed (by decide) (by decide) hrun

/-- **WKdm-64 round trip**: the same over 64-bit words and their larger dictionary. -/
theorem wkdm64Decompress_bytes (stack : StackScratch) {src dst : List UInt8} {dstCap cap : Nat}
    {c : OutCursor} (hsrc : src.length ≤ 4096) (hcap : src.length ≤ cap)
    (h : (OwnAlgo.wkdm64.compressor stack).compress src dst dstCap = .ok c) :
    wkdm64Decompress c.bytes cap = .ok src :=
  wkdm64Decompress_wkdm64Compress hsrc hcap (eq_ok_of_map_ofBytes h)

/-- The same tags over words of 64 bits, and three words of zeros. -/
def wkdm64Tagged : List UInt8 :=
  [1, 2, 3, 4, 5, 6, 7, 8, 1, 2, 3, 4, 5, 6, 7, 8, 0, 1, 0, 0, 0, 0, 0, 0] ++ List.replicate 24 0

theorem wkdm64Decompress_wkdm64Tagged :
    wkdm64Decompress [6, 0, 0, 0, 1, 0, 0, 0, 1, 0, 0, 0, 39, 0, 0, 0, 1, 0, 0,
      1, 2, 3, 4, 5, 6, 7, 8] 48 = .ok wkdm64Tagged := by
  have hrun : (OwnAlgo.wkdm64.compressor .zeroed).compress wkdm64Tagged (List.replicate 27 0) 27 =
      .ok ⟨[6, 0, 0, 0, 1, 0, 0, 0, 1, 0, 0, 0, 39, 0, 0, 0, 1, 0, 0,
        1, 2, 3, 4, 5, 6, 7, 8], 27⟩ := by
    decide +kernel
  exact wkdm64Decompress_bytes .zeroed (by decide) (by decide) hrun

/-- **Block classifier round trip**: what it leaves below its result is decoded to the source,
whatever the destination held. -/
theorem blockClassDecompress_bytes (stack : StackScratch) {src dst : List UInt8}
    {dstCap cap : Nat} {c : OutCursor} (hcap : src.length ≤ cap)
    (h : (OwnAlgo.blockClass.compressor stack).compress src dst dstCap = .ok c) :
    blockClassDecompress c.bytes cap = .ok src :=
  blockClassDecompress_blockClassCompress h hcap

theorem blockClassDecompress_sevens :
    blockClassDecompress [1, 0, 1, 0, 2, 7] 64 = .ok (List.replicate 64 7) := by
  have hrun : (OwnAlgo.blockClass.compressor .zeroed).compress (List.replicate 64 7)
      (List.replicate 6 0) 6 = .ok ⟨[1, 0, 1, 0, 2, 7], 6⟩ := by decide +kernel
  exact blockClassDecompress_bytes .zeroed (by simp) hrun

/-- **Split round trip**: both formats of sixteen bits, on a destination with any contents that
has the capacity passed. -/
theorem decompressSplit16_bytes (stack : StackScratch) {a : OwnAlgo}
    (ha : a = .aiFp16 ∨ a = .aiBf16) {src dst : List UInt8} {dstCap cap : Nat} {c : OutCursor}
    (hdst : dstCap ≤ dst.length) (hcap : src.length ≤ cap)
    (h : (a.compressor stack).compress src dst dstCap = .ok c) :
    decompressSplit16 c.bytes cap = .ok src := by
  have hrun : compressSplit16 src dst dstCap = .ok c := by
    obtain rfl | rfl := ha <;> exact h
  exact decompressSplit16_compressSplit16 hdst hrun hcap

/-- A block of weights whose high bytes are two only, a block of sevens and one of zeros. -/
def weightBlocks : List UInt8 :=
  (List.range 32).flatMap (fun i => [UInt8.ofNat (37 * i), UInt8.ofNat (60 + i % 2)]) ++
    List.replicate 64 7 ++ List.replicate 64 0

/-- The low bytes of the weights are stored as they are, the high ones in a bit each; nines are
what the destination held. -/
theorem decompressSplit16_weightBlocks :
    decompressSplit16 ([3, 0, 3, 0, 20, 0, 9, 19, 0, 9] ++ loBytes (weightBlocks.take 64) ++
      [60, 1, 170, 170, 170, 170, 7, 7]) 192 = .ok weightBlocks := by
  have hrun : (OwnAlgo.aiBf16.compressor .zeroed).compress weightBlocks (List.replicate 60 9) 60 =
      .ok ⟨[3, 0, 3, 0, 20, 0, 9, 19, 0, 9] ++ loBytes (weightBlocks.take 64) ++
        [60, 1, 170, 170, 170, 170, 7, 7] ++ List.replicate 10 9, 50⟩ := by
    decide +kernel
  exact decompressSplit16_bytes .zeroed (.inr rfl) (by decide) (by decide +kernel) hrun

/-- **Row deltas round trip**: each row is taken against the one before it, which the decoder
has at that point. -/
theorem decompressInt8_bytes (stack : StackScratch) {src dst : List UInt8} {dstCap cap : Nat}
    {c : OutCursor} (hcap : src.length ≤ cap)
    (h : (OwnAlgo.aiInt8.compressor stack).compress src dst dstCap = .ok c) :
    decompressInt8 c.bytes cap = .ok src :=
  decompressInt8_compressInt8 h hcap

theorem decompressInt8_fives :
    decompressInt8 [2, 0, 1, 0, 2, 5] 128 = .ok (List.replicate 128 5) := by
  have hrun : (OwnAlgo.aiInt8.compressor .zeroed).compress (List.replicate 128 5)
      (List.replicate 6 0) 6 = .ok ⟨[2, 0, 1, 0, 2, 5], 6⟩ := by decide +kernel
  exact decompressInt8_bytes .zeroed (by simp) hrun

end MiniMem
