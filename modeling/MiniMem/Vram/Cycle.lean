import MiniMem.Vram.Buffers

/-!
# MiniMem.Vram.Cycle

A weight buffer compressed and decompressed again.  The codec has tables for
the 64 blocks of a page and the registry takes buffers of any size: the
encoder writes behind its tables when it is given more blocks, and the decoder
takes no more of them, so that no copy of a larger buffer ever comes back.
-/

namespace MiniMem

/-- A compressed buffer comes back: the call of `minimem_vram_compress_buf` stays within its
buffers, and where it returns zero `minimem_vram_decompress_buf` returns zero too, the memory is
what it was, the buffer is `HOT` again and no other record has changed. -/
def SurvivesCycle (codec : WeightCodec) (env : CompressEnv) (env' : DecompressEnv) (idx : Nat)
    (targetTier : VramTier) (s : Vram) : Prop :=
  ∃ ret s₁, vramCompressBuf codec env idx targetTier s = .ok (ret, s₁) ∧
    (ret = 0 → ∃ s₂, vramDecompressBuf codec env' idx s₁ = .ok (0, s₂) ∧
      s₂.mem = s.mem ∧ (∃ buf, s₂.ctx.bufs[idx]? = some buf ∧ buf.tier = .hot) ∧
      ∀ j, j ≠ idx → s₂.ctx.bufs[j]? = s.ctx.bufs[j]?)

/-- A buffer that the call hands to the codec is no larger than a page, or is not made of whole
blocks. -/
def FitsTables (env : CompressEnv) (idx : Nat) (targetTier : VramTier) (s : Vram) : Prop :=
  ∀ buf, s.ctx.bufs[idx]? = some buf → buf.tier = .hot →
    (buf.isDevice = true → targetTier = .warm) → env.malloc.isSome = true →
    buf.size % streamBlockSize = 0 → buf.size / streamBlockSize ≤ blocksPerPage

instance decidableFitsTables (env : CompressEnv) (idx : Nat) (targetTier : VramTier) (s : Vram) :
    Decidable (FitsTables env idx targetTier s) :=
  inferInstanceAs (Decidable (∀ buf ∈ s.ctx.bufs[idx]?, buf.tier = .hot →
    (buf.isDevice = true → targetTier = .warm) → env.malloc.isSome = true →
    buf.size % streamBlockSize = 0 → buf.size / streamBlockSize ≤ blocksPerPage))

section Cycle

variable {codec : WeightCodec} {env : CompressEnv} {env' : DecompressEnv} {idx : Nat}
  {targetTier : VramTier} {s s' : Vram} {buf : VramBuf} {c : OutCursor}

theorem weightFmtToAiFmt_ne (fmt : VramFormat) : weightFmtToAiFmt fmt ≠ .int4 := by
  cases fmt <;> exact nofun

theorem bufs_storeCopy : (s.storeCopy env idx buf c targetTier).ctx.bufs
    = s.ctx.bufs.set idx { buf with
      compressedPtr := some s.next, compressedSize := c.out, tier := targetTier,
      compressNs := env.stop - env.start } := rfl

theorem heap_storeCopy : (s.storeCopy env idx buf c targetTier).heap
    = Function.update s.heap s.next (some c.dst) := rfl

/-- What the weight codec made of a buffer, it brings back. -/
theorem CompressesTo.decompressesTo (h : CompressesTo aiWeights env idx targetTier s buf c)
    (htier : targetTier ≠ .hot) :
    DecompressesTo aiWeights idx (s.storeCopy env idx buf c targetTier)
      { buf with
        compressedPtr := some s.next, compressedSize := c.out, tier := targetTier,
        compressNs := env.stop - env.start }
      s.next (readMem s.mem buf.ptr buf.size) where
  record := by
    rw [bufs_storeCopy, List.getElem?_set_self (List.getElem?_eq_some_iff.1 h.record).1]
  tier := htier
  held := rfl
  size := Nat.ne_of_gt h.pos
  copy := by
    obtain ⟨fresh, -, hcopy⟩ := h.copy
    refine ⟨c.dst, by rw [heap_storeCopy, Function.update_self], ?_⟩
    exact aiWeightsDecompress_aiWeightsCompress (by rw [length_readMem]) hcopy
      (by rw [length_readMem])
  length := length_readMem _ _ _

/-- A call that stays within its buffers brings back what it stored. -/
theorem survivesCycle_of_ok {ret : Int} (htier : targetTier ≠ .hot)
    (h : vramCompressBuf aiWeights env idx targetTier s = .ok (ret, s')) :
    SurvivesCycle aiWeights env env' idx targetTier s := by
  refine ⟨ret, s', h, fun hret => ?_⟩
  rcases vramCompressBuf_cases h with ⟨buf, c, hc, -, hs'⟩ | ⟨hfail, -⟩
  · have hidx : idx < s.ctx.bufs.length := (List.getElem?_eq_some_iff.1 hc.record).1
    subst hs'
    refine ⟨_, (hc.decompressesTo htier).eq_ok env', ?_, ?_, ?_⟩
    · exact writeMem_readMem s.mem buf.ptr buf.size
    · refine ⟨_, List.getElem?_set_self ?_, rfl⟩
      show idx < (s.ctx.bufs.set idx _).length
      rw [List.length_set]
      exact hidx
    · intro j hj
      show ((s.ctx.bufs.set idx _).set idx _)[j]? = s.ctx.bufs[j]?
      rw [List.getElem?_set_ne (Ne.symm hj), List.getElem?_set_ne (Ne.symm hj)]
  · rw [hret] at hfail
    cases hfail

/-- A buffer of more than a page never comes back, whatever the copy. -/
theorem vramDecompressBuf_large (hbuf : s.ctx.bufs[idx]? = some buf)
    (hsize : blocksPerPage * streamBlockSize < buf.size) :
    vramDecompressBuf aiWeights env' idx s ≠ .ok (0, s') := by
  intro h
  rcases vramDecompressBuf_cases h with ⟨buf', ptr, out, hd, -⟩ | ⟨hret, -⟩
  · have hsame := hd.record
    rw [hbuf] at hsame
    injection hsame with hsame
    obtain ⟨block, -, hout⟩ := hd.copy
    have hle := length_of_aiWeightsDecompress hout
    rw [hd.length, ← hsame] at hle
    omega
  · cases hret

/-- The call goes outside its buffers exactly when it hands too large a buffer to the codec. -/
theorem vramCompressBuf_isOk_iff :
    (∃ r, vramCompressBuf aiWeights env idx targetTier s = .ok r) ↔
      FitsTables env idx targetTier s := by
  rcases vramCompressBuf_reaches aiWeights env idx targetTier s with ⟨buf, fresh, hreach⟩ |
    ⟨heq, hnone⟩
  · have hoob := @aiWeightsCompress_eq_oob_iff (readMem s.mem buf.ptr buf.size)
      (readMem fresh 0 (aiWeightsCompressBound buf.size)) (weightFmtToAiFmt buf.weightFormat)
      (by rw [length_readMem, length_readMem]) (weightFmtToAiFmt_ne buf.weightFormat)
    rw [StreamSource, length_readMem] at hoob
    rw [hreach.eq_error_iff]
    refine (not_congr hoob).trans ?_
    constructor
    · intro hsmall buf' hbuf' hhot hdevice hmalloc hmod
      rw [hreach.record] at hbuf'
      injection hbuf' with hbuf'
      rw [← hbuf'] at hmod ⊢
      by_contra hlarge
      refine hsmall ⟨⟨?_, hmod⟩, Nat.lt_of_not_le hlarge⟩
      intro hzero
      rw [hzero, Nat.zero_div] at hlarge
      exact hlarge (Nat.zero_le _)
    · rintro hfits ⟨⟨-, hmod⟩, hlarge⟩
      have hle := hfits buf hreach.record hreach.hot hreach.device
        (by rw [hreach.malloc, Option.isSome_some]) hmod
      omega
  · rw [heq]
    refine iff_of_true ⟨_, rfl⟩ fun buf hbuf hhot hdevice hmalloc hmod => ?_
    obtain ⟨fresh, hfresh⟩ := Option.isSome_iff_exists.1 hmalloc
    exact absurd ⟨hbuf, hhot, hdevice, hfresh⟩ (hnone buf fresh)

/-- Every registered buffer survives a compression to a tier other than `HOT` followed by a
decompression, exactly when it is not a large one made of whole blocks that gets to the
codec. -/
theorem survivesCycle_iff (htier : targetTier ≠ .hot) :
    SurvivesCycle aiWeights env env' idx targetTier s ↔ FitsTables env idx targetTier s := by
  rw [← vramCompressBuf_isOk_iff]
  constructor
  · rintro ⟨ret, s₁, hcall, -⟩
    exact ⟨(ret, s₁), hcall⟩
  · rintro ⟨⟨ret, s'⟩, h⟩
    exact survivesCycle_of_ok htier h

end Cycle

/-- A context with one buffer of `size` zero bytes. -/
def oneBuffer (size : Nat) (fmt : VramFormat) : Vram :=
  (vramRegister true 0 0x1000 size fmt false
    ⟨⟨[], 4, ⟨0, 0, 0, 0, 0, 0, 0, 0⟩⟩, fun _ => 0, fun _ => none, 0⟩).2

/-- A buffer of one block. -/
theorem survivesCycle_block :
    ((vramCompressBuf aiWeights ⟨some fun _ => 7, 0, 0⟩ 0 .warm (oneBuffer 64 .fp16)).map
        Prod.fst).toOption = some 0 ∧
      SurvivesCycle aiWeights ⟨some fun _ => 7, 0, 0⟩ ⟨0, 0, 0⟩ 0 .warm (oneBuffer 64 .fp16) := by
  have htier : VramTier.warm ≠ .hot := nofun
  have hfits : FitsTables ⟨some fun _ => 7, 0, 0⟩ 0 .warm (oneBuffer 64 .fp16) := by
    rintro buf ⟨⟩ - - - -
    decide
  constructor
  · decide +kernel
  · exact (survivesCycle_iff htier).2 hfits

/-- A buffer of 8192 bytes: the encoder writes behind its tables, and whatever it makes of the
buffer does not come back. -/
theorem not_survivesCycle_large :
    ¬SurvivesCycle aiWeights ⟨some fun _ => 0, 0, 0⟩ ⟨0, 0, 0⟩ 0 .warm (oneBuffer 8192 .fp16) ∧
      ∀ buf c s', (oneBuffer 8192 .fp16).ctx.bufs[0]? = some buf →
        vramDecompressBuf aiWeights ⟨0, 0, 0⟩ 0
          ((oneBuffer 8192 .fp16).storeCopy ⟨some fun _ => 0, 0, 0⟩ 0 buf c .warm)
            ≠ .ok (0, s') := by
  constructor
  · rintro ⟨ret, s₁, hcall, -⟩
    have hle := vramCompressBuf_isOk_iff.1 ⟨(ret, s₁), hcall⟩ _ rfl rfl nofun rfl (by decide)
    revert hle
    decide
  · rintro buf c s' ⟨⟩
    have hsize : blocksPerPage * streamBlockSize < 8192 := by decide
    exact vramDecompressBuf_large rfl hsize

end MiniMem
