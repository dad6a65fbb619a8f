import MiniMem.Bytes

/-!
# MiniMem.Compressors.Wkdm

The WKdm dictionary compressor in its two word sizes.  Every word is
replaced by a two-bit tag against a direct-mapped dictionary of recent
words — zero, exact hit, partial (only the low half is non-zero) or miss —
and the tags, hit indices, partials and misses are stored as four streams:

```
enc(src)  =  le32(words) ++ le32(hits) ++ le32(partials)
               ++ tags ++ hits ++ partials ++ misses
```

`minimem_wkdm_*` and `minimem_wkdm64_*` are the same routine over another
word size, hash and set of scratch areas; `WkdmParams` carries those, and
each routine is defined once.  `wkdmTokens` is the tag sequence of a source
as a list of tokens: the encoder writes the four streams of that list and
the decoder replays it.
-/

namespace MiniMem

/-- What distinguishes the two word sizes: the widths, the declared sizes of
the scratch areas, `WKDM_HASH` and the test for a partial word. -/
structure WkdmParams where
  wordBytes : Nat
  partialBytes : Nat
  dictSize : Nat
  tagBufSize : Nat
  exactBufSize : Nat
  partialBufSize : Nat
  missBufSize : Nat
  hash : Nat → Nat
  isPartial : Nat → Bool
  wordBytes_pos : 0 < wordBytes
  partialBytes_le : partialBytes ≤ wordBytes
  hash_lt : ∀ v, hash v < dictSize
  dictSize_le : dictSize ≤ 256
  partial_lt : ∀ v, v < 256 ^ wordBytes → isPartial v = true → v < 256 ^ partialBytes
  tag_room : 4096 / wordBytes ≤ 4 * tagBufSize
  exact_room : 4096 / wordBytes ≤ exactBufSize
  partial_room : 4096 / wordBytes * partialBytes ≤ partialBufSize
  miss_room : 4096 / wordBytes * wordBytes ≤ missBufSize

/-- `struct minimem_wkdm_scratch`, with whatever its areas hold. -/
structure WkdmScratch (p : WkdmParams) where
  tagBuf : List UInt8
  exactBuf : List UInt8
  partialBuf : List UInt8
  missBuf : List UInt8
  length_tagBuf : tagBuf.length = p.tagBufSize
  length_exactBuf : exactBuf.length = p.exactBufSize
  length_partialBuf : partialBuf.length = p.partialBufSize
  length_missBuf : missBuf.length = p.missBufSize

/-- Cleared scratch areas. -/
def WkdmScratch.zeroed (p : WkdmParams) : WkdmScratch p where
  tagBuf := List.replicate p.tagBufSize 0
  exactBuf := List.replicate p.exactBufSize 0
  partialBuf := List.replicate p.partialBufSize 0
  missBuf := List.replicate p.missBufSize 0
  length_tagBuf := List.length_replicate
  length_exactBuf := List.length_replicate
  length_partialBuf := List.length_replicate
  length_missBuf := List.length_replicate

/-- `WKDM_TAG_ZERO` and its siblings, with what each tag stores. -/
inductive WkdmToken where
  | tagZero
  | tagExact (idx : Nat)
  | tagPartial (val : Nat)
  | tagMiss (val : Nat)
  deriving DecidableEq, Repr

/-- The two-bit code of a tag. -/
def WkdmToken.code : WkdmToken → Nat
  | .tagZero => 0
  | .tagExact _ => 1
  | .tagPartial _ => 2
  | .tagMiss _ => 3

/-! ## Tags -/

/-- `set_tag`. -/
def setTag (tags : List UInt8) (wordIdx tag : Nat) : Except Stop (List UInt8) := do
  let bitIdx := wordIdx * 2
  let tags ← orByte tags (bitIdx / 8) (UInt8.ofNat (tag <<< (bitIdx % 8)))
  if bitIdx % 8 + 2 > 8 then
    orByte tags (bitIdx / 8 + 1) (UInt8.ofNat (tag >>> (8 - bitIdx % 8)))
  else .ok tags

/-- `get_tag`, on the tag area that starts at `base` in the source. -/
def getTag (src : List UInt8) (base wordIdx : Nat) : Except Stop Nat := do
  let bitIdx := wordIdx * 2
  let lo ← readByte src (base + bitIdx / 8)
  if bitIdx % 8 + 2 ≤ 8 then .ok (lo.toNat >>> (bitIdx % 8) &&& 3)
  else do
    let hi ← readByte src (base + (bitIdx / 8 + 1))
    .ok ((lo.toNat >>> (bitIdx % 8) ||| hi.toNat <<< (8 - bitIdx % 8)) &&& 3)

/-! ## Compression -/

/-- The encoder's locals: the four scratch areas, the three counters and the
dictionary. -/
structure WkdmState where
  tagBuf : List UInt8
  exactBuf : List UInt8
  partialBuf : List UInt8
  missBuf : List UInt8
  exactCount : Nat
  partialCount : Nat
  missCount : Nat
  dict : List Nat
  deriving DecidableEq, Repr

/-- One iteration of the loop of `wkdm_compress_impl`. -/
def wkdmCompressWord (p : WkdmParams) (s : WkdmState) (i val : Nat) : Except Stop WkdmState :=
  if val = 0 then do
    let tags ← setTag s.tagBuf i (WkdmToken.code .tagZero)
    .ok { s with tagBuf := tags }
  else
    let hash := p.hash val
    if s.dict.getD hash 0 = val then do
      let tags ← setTag s.tagBuf i (WkdmToken.tagExact hash).code
      let buf ← writeAt s.exactBuf s.exactCount [UInt8.ofNat hash]
      .ok { s with tagBuf := tags, exactBuf := buf, exactCount := s.exactCount + 1 }
    else if p.isPartial val then do
      let tags ← setTag s.tagBuf i (WkdmToken.tagPartial val).code
      let buf ← writeAt s.partialBuf (s.partialCount * p.partialBytes) (leBytes p.partialBytes val)
      .ok { s with
        tagBuf := tags, partialBuf := buf, partialCount := s.partialCount + 1,
        dict := s.dict.set hash val }
    else do
      let tags ← setTag s.tagBuf i (WkdmToken.tagMiss val).code
      let buf ← writeAt s.missBuf (s.missCount * p.wordBytes) (leBytes p.wordBytes val)
      .ok { s with
        tagBuf := tags, missBuf := buf, missCount := s.missCount + 1,
        dict := s.dict.set hash val }

/-- The loop of `wkdm_compress_impl`, from word `i` on. -/
def wkdmCompressWords (p : WkdmParams) : WkdmState → Nat → List Nat → Except Stop WkdmState
  | s, _, [] => .ok s
  | s, i, val :: vals => do
      let s ← wkdmCompressWord p s i val
      wkdmCompressWords p s (i + 1) vals

/-- `wkdm_compress_impl`: the bytes written, of which there are as many as it returns. -/
def wkdmCompressImpl (p : WkdmParams) (src : List UInt8) (dstCap : Nat)
    (scratch : WkdmScratch p) : Except Stop (List UInt8) :=
  if src.length = 0 ∨ src.length % p.wordBytes ≠ 0 then .error .zero
  else
    let nWords := src.length / p.wordBytes % 2 ^ 32
    let tagBytes := (nWords * 2 + 7) / 8
    do
      let tagBuf ← writeAt scratch.tagBuf 0 (List.replicate tagBytes 0)
      let s ← wkdmCompressWords p
        ⟨tagBuf, scratch.exactBuf, scratch.partialBuf, scratch.missBuf, 0, 0, 0,
          List.replicate p.dictSize 0⟩ 0 (wordsLE p.wordBytes nWords src)
      let partialBytes := s.partialCount * p.partialBytes
      let missBytes := s.missCount * p.wordBytes
      let resultSize := 12 + tagBytes + s.exactCount + partialBytes + missBytes
      if resultSize ≥ src.length ∨ resultSize > dstCap then .error .zero
      else do
        let tags ← readAt s.tagBuf 0 tagBytes
        let exacts ← readAt s.exactBuf 0 s.exactCount
        let partials ← readAt s.partialBuf 0 partialBytes
        let misses ← readAt s.missBuf 0 missBytes
        emit dstCap [] (leBytes 4 nWords ++ leBytes 4 s.exactCount ++ leBytes 4 s.partialCount ++
          tags ++ exacts ++ partials ++ misses)

/-! ## Decompression -/

/-- The decoder's view of its source: where the four areas start, and the counts. -/
structure WkdmSections where
  tags : Nat
  exactArea : Nat
  partialArea : Nat
  missArea : Nat
  exactCount : Nat
  partialCount : Nat
  missWords : Nat

/-- The decoder's locals. -/
structure WkdmCursor where
  out : List UInt8
  dict : List Nat
  exactIdx : Nat
  partialIdx : Nat
  missIdx : Nat

/-- One iteration of the main loop of `wkdm_decompress_impl`. -/
def wkdmDecompressWord (p : WkdmParams) (src : List UInt8) (cap : Nat) (a : WkdmSections)
    (c : WkdmCursor) (i : Nat) : Except Stop WkdmCursor := do
  let tag ← getTag src a.tags i
  if tag = 0 then
    let out ← emit cap c.out (leBytes p.wordBytes 0)
    .ok { c with out := out }
  else if tag = 1 then
    if c.exactIdx ≥ a.exactCount then .error .zero
    else do
      let idx ← readByte src (a.exactArea + c.exactIdx)
      match c.dict[idx.toNat]? with
      | none => .error .oob
      | some val => do
          let out ← emit cap c.out (leBytes p.wordBytes val)
          .ok { c with out := out, exactIdx := c.exactIdx + 1 }
  else if tag = 2 then
    if c.partialIdx ≥ a.partialCount then .error .zero
    else do
      let bytes ← readAt src (a.partialArea + c.partialIdx * p.partialBytes) p.partialBytes
      let val := leNat bytes
      let out ← emit cap c.out (leBytes p.wordBytes val)
      .ok { c with
        out := out, dict := c.dict.set (p.hash val) val, partialIdx := c.partialIdx + 1 }
  else if tag = 3 then
    if c.missIdx ≥ a.missWords then .error .zero
    else do
      let bytes ← readAt src (a.missArea + c.missIdx * p.wordBytes) p.wordBytes
      let val := leNat bytes
      let out ← emit cap c.out bytes
      .ok { c with out := out, dict := c.dict.set (p.hash val) val, missIdx := c.missIdx + 1 }
  else .error .zero

/-- The main loop of `wkdm_decompress_impl`: `k` words from word `i` on. -/
def wkdmDecompressWords (p : WkdmParams) (src : List UInt8) (cap : Nat) (a : WkdmSections) :
    WkdmCursor → Nat → Nat → Except Stop WkdmCursor
  | c, _, 0 => .ok c
  | c, i, k + 1 => do
      let c ← wkdmDecompressWord p src cap a c i
      wkdmDecompressWords p src cap a c (i + 1) k

/-- The loop that counts the miss tags: `k` tags from word `i` on. -/
def wkdmCountMisses (src : List UInt8) (base : Nat) : Nat → Nat → Except Stop Nat
  | _, 0 => .ok 0
  | i, k + 1 => do
      let tag ← getTag src base i
      let n ← wkdmCountMisses src base (i + 1) k
      .ok (if tag = 3 then n + 1 else n)

/-- `wkdm_decompress_impl`. -/
def wkdmDecompressImpl (p : WkdmParams) (src : List UInt8) (dstCap : Nat) :
    Except Stop (List UInt8) :=
  if src.length < 12 then .error .zero
  else do
    let nWords := leNat (← readAt src 0 4)
    let exactCount := leNat (← readAt src 4 4)
    let partialCount := leNat (← readAt src 8 4)
    let expectedSize := nWords * p.wordBytes
    if expectedSize = 0 ∨ expectedSize > dstCap then .error .zero
    else
      let tagBytes := (nWords * 2 + 7) / 8
      if 12 + tagBytes > src.length then .error .zero
      else
        let exactArea := 12 + tagBytes
        if exactArea + exactCount > src.length then .error .zero
        else
          let partialArea := exactArea + exactCount
          if partialArea + partialCount * p.partialBytes > src.length then .error .zero
          else do
            let missArea := partialArea + partialCount * p.partialBytes
            let missWords ← wkdmCountMisses src 12 0 nWords
            if missArea + missWords * p.wordBytes > src.length then .error .zero
            else do
              let c ← wkdmDecompressWords p src dstCap
                ⟨12, exactArea, partialArea, missArea, exactCount, partialCount, missWords⟩
                ⟨[], List.replicate p.dictSize 0, 0, 0, 0⟩ 0 nWords
              .ok c.out

/-! ## The two word sizes -/

/-- A word whose bits `k` to `k + n - 1` are clear is below `2 ^ k`, if it has
no other high bits. -/
theorem lt_of_and_mask_eq_zero {v k n : Nat} (hv : v < 2 ^ (k + n))
    (h : v &&& (2 ^ n - 1) <<< k = 0) : v < 2 ^ k := by
  have hhigh : v >>> k = 0 := by
    have hlt : v >>> k < 2 ^ n := by
      rw [Nat.shiftRight_eq_div_pow]
      apply Nat.div_lt_of_lt_mul
      rw [← Nat.pow_add]
      exact hv
    have hand := congrArg (· >>> k) h
    simp only [Nat.shiftRight_and_distrib, Nat.shiftLeft_shiftRight, Nat.zero_shiftRight] at hand
    rwa [Nat.and_two_pow_sub_one_eq_mod, Nat.mod_eq_of_lt hlt] at hand
  rw [Nat.shiftRight_eq_div_pow] at hhigh
  exact Nat.lt_of_div_eq_zero (Nat.two_pow_pos k) hhigh

/-- `wkdm.c`: 32-bit words, `WKDM_HASH32` and `struct minimem_wkdm_scratch`. -/
def wkdm32 : WkdmParams where
  wordBytes := 4
  partialBytes := 2
  dictSize := 16
  tagBufSize := 4096 / 4
  exactBufSize := 4096 / 4
  partialBufSize := 4096 / 2
  missBufSize := 4096
  hash v := v >>> 4 &&& 0xF
  isPartial v := v &&& 0xFFFF0000 == 0
  wordBytes_pos := by decide
  partialBytes_le := by decide
  hash_lt _ := Nat.lt_succ_of_le Nat.and_le_right
  dictSize_le := by decide
  partial_lt v hv h := lt_of_and_mask_eq_zero (k := 16) (n := 16) hv (by simpa using h)
  tag_room := by decide
  exact_room := by decide
  partial_room := by decide
  miss_room := by decide

/-- `wkdm64.c`: 64-bit words, `WKDM64_HASH` and `struct minimem_wkdm64_scratch`. -/
def wkdm64 : WkdmParams where
  wordBytes := 8
  partialBytes := 4
  dictSize := 32
  tagBufSize := 4096 / 4
  exactBufSize := 4096 / 4
  partialBufSize := 4096
  missBufSize := 4096
  hash v := v >>> 3 &&& 0x1F
  isPartial v := v &&& 0xFFFFFFFF00000000 == 0
  wordBytes_pos := by decide
  partialBytes_le := by decide
  hash_lt _ := Nat.lt_succ_of_le Nat.and_le_right
  dictSize_le := by decide
  partial_lt v hv h := lt_of_and_mask_eq_zero (k := 32) (n := 32) hv (by simpa using h)
  tag_room := by decide
  exact_room := by decide
  partial_room := by decide
  miss_room := by decide

/-- `minimem_wkdm_compress_scratch`; `minimem_wkdm_compress` is the same on the
scratch areas its stack frame happens to hold. -/
def wkdmCompressScratch (src : List UInt8) (dstCap : Nat) (scratch : WkdmScratch wkdm32) :
    Except Stop (List UInt8) :=
  wkdmCompressImpl wkdm32 src dstCap scratch

/-- `minimem_wkdm_decompress`. -/
def wkdmDecompress (src : List UInt8) (dstCap : Nat) : Except Stop (List UInt8) :=
  wkdmDecompressImpl wkdm32 src dstCap

/-- `minimem_wkdm64_compress_scratch`. -/
def wkdm64CompressScratch (src : List UInt8) (dstCap : Nat) (scratch : WkdmScratch wkdm64) :
    Except Stop (List UInt8) :=
  wkdmCompressImpl wkdm64 src dstCap scratch

/-- `minimem_wkdm64_decompress`. -/
def wkdm64Decompress (src : List UInt8) (dstCap : Nat) : Except Stop (List UInt8) :=
  wkdmDecompressImpl wkdm64 src dstCap

end MiniMem
