import MiniMem.Compressors.Registry
import MiniMem.Compressors.Wkdm.Overflow

/-!
# MiniMem.Compressors.Wkdm.Scratch

What the scratch areas of the WKdm encoders hold before a run.  Only the
front of the tag area is cleared, and then tags are OR-ed into it; the other
areas are written from their start on.  In the end just these parts are
copied out, so the old contents show nowhere:

* **one outcome** -- two runs on one source, of any length, end in the same
  way (`wkdmCompressImpl_scratch`);
* **stack frames** -- the encoders that leave their scratch areas
  uninitialised are therefore functions, and so is the table of compressors
  (`minimemGetCompressor_stack`).
-/

namespace MiniMem

/-! ## Two runs -/

/-- **One outcome**: the scratch areas decide nothing, neither what is stored nor whether the
encoder keeps to its areas. -/
theorem wkdmCompressImpl_scratch {p : WkdmParams} (src : List UInt8) (cap : Nat)
    (scratch scratch' : WkdmScratch p) :
    wkdmCompressImpl p src cap scratch = wkdmCompressImpl p src cap scratch' := by
  by_cases hwords : src.length = 0 ∨ src.length % p.wordBytes ≠ 0
  · rw [wkdmCompressImpl, wkdmCompressImpl, if_pos hwords, if_pos hwords]
  · rw [not_or, not_not] at hwords
    obtain ⟨hpos, hmod⟩ := hwords
    by_cases hfit : WkdmFits p (wkdmReadTokens p src)
    · rw [wkdmCompressImpl_of_fits cap scratch hpos hmod hfit,
        wkdmCompressImpl_of_fits cap scratch' hpos hmod hfit]
    · rw [(wkdmCompressImpl_eq_oob_iff cap scratch hpos hmod).2 hfit,
        (wkdmCompressImpl_eq_oob_iff cap scratch' hpos hmod).2 hfit]

/-- On up to a page the encoder returns. -/
theorem wkdmCompressImpl_returns {p : WkdmParams} {src : List UInt8} (cap : Nat)
    (scratch : WkdmScratch p) (hsrc : src.length ≤ 4096) :
    wkdmCompressImpl p src cap scratch ≠ .error .oob := by
  by_cases hwords : src.length = 0 ∨ src.length % p.wordBytes ≠ 0
  · rw [wkdmCompressImpl, if_pos hwords]
    simp
  · rw [not_or, not_not] at hwords
    rw [ne_eq, wkdmCompressImpl_eq_oob_iff cap scratch hwords.1 hwords.2, not_not]
    exact wkdmFits_page p hsrc

/-! ## Stack frames -/

/-- A compressor is the same on every stack. -/
theorem OwnAlgo.compressor_stack (a : OwnAlgo) (stack stack' : StackScratch) :
    a.compressor stack = a.compressor stack' := by
  cases a with
  | wkdm =>
      simp only [compressor, wkdmCompressScratch,
        wkdmCompressImpl_scratch _ _ stack.wkdm stack'.wkdm]
  | wkdm64 =>
      simp only [compressor, wkdm64CompressScratch,
        wkdmCompressImpl_scratch _ _ stack.wkdm64 stack'.wkdm64]
  | samePage | bdi | blockClass | aiFp16 | aiBf16 | aiInt8 => rfl

/-- So is what `minimem_get_compressor` returns. -/
theorem minimemGetCompressor_stack (others : Nat → Compressor) (stack stack' : StackScratch)
    (algoId : Int) :
    minimemGetCompressor others stack algoId = minimemGetCompressor others stack' algoId := by
  unfold minimemGetCompressor
  simp only [OwnAlgo.compressor_stack _ stack stack']

/-- An encoder returns the same on all scratch areas that it is given, and with those of its own
stack frame it does the same to the destination. -/
structure IgnoresScratch {p : WkdmParams} (dst : List UInt8)
    (compressScratch : WkdmScratch p → Except Stop (List UInt8))
    (compress : StackScratch → Except Stop OutCursor) : Prop where
  returns : ∀ scratch, compressScratch scratch ≠ .error .oob
  same : ∀ scratch scratch', compressScratch scratch = compressScratch scratch'
  stack : ∀ stack scratch,
    compress stack = (compressScratch scratch).map (OutCursor.ofBytes dst)

/-- So do the encoders of both word sizes; `frame` are the scratch areas on a stack. -/
theorem ignoresScratch_wkdmCompressImpl {p : WkdmParams} {src : List UInt8}
    (hsrc : src.length ≤ 4096) (dst : List UInt8) (dstCap : Nat)
    (frame : StackScratch → WkdmScratch p) :
    IgnoresScratch dst (wkdmCompressImpl p src dstCap) fun stack =>
      (wkdmCompressImpl p src dstCap (frame stack)).map (OutCursor.ofBytes dst) where
  returns scratch := wkdmCompressImpl_returns dstCap scratch hsrc
  same := wkdmCompressImpl_scratch src dstCap
  stack stack scratch := by rw [wkdmCompressImpl_scratch src dstCap (frame stack) scratch]

/-- **Scratch areas leak nothing**: of sources of up to a page both encoders of words store the
same bytes, whatever the scratch areas or the stack held. -/
theorem wkdm_ignoresScratch {src : List UInt8} (hsrc : src.length ≤ 4096) (dst : List UInt8)
    (dstCap : Nat) :
    IgnoresScratch dst (wkdmCompressScratch src dstCap)
        (fun stack => (OwnAlgo.wkdm.compressor stack).compress src dst dstCap) ∧
      IgnoresScratch dst (wkdm64CompressScratch src dstCap)
        (fun stack => (OwnAlgo.wkdm64.compressor stack).compress src dst dstCap) :=
  ⟨ignoresScratch_wkdmCompressImpl hsrc dst dstCap StackScratch.wkdm,
    ignoresScratch_wkdmCompressImpl hsrc dst dstCap StackScratch.wkdm64⟩

theorem wkdm_ignoresScratch_sevens :
    IgnoresScratch (List.replicate 64 0) (wkdmCompressScratch (List.replicate 64 7) 64)
        (fun stack => (OwnAlgo.wkdm.compressor stack).compress (List.replicate 64 7)
          (List.replicate 64 0) 64) ∧
      IgnoresScratch (List.replicate 64 0) (wkdm64CompressScratch (List.replicate 64 7) 64)
        (fun stack => (OwnAlgo.wkdm64.compressor stack).compress (List.replicate 64 7)
          (List.replicate 64 0) 64) :=
  wkdm_ignoresScratch (by decide) (List.replicate 64 0) 64

end MiniMem
