import MiniMem.Compressors.Lz4.DecodeReads

/-!
# MiniMem.Compressors.Lz4.DecodeSound

`LZ4_decompress_safe` on any source and any destination.  Its loops are runs
of the plain decoder (`lz4DecompressGeneric_reads`), so with and without the
fast loop it returns the same, stays within both buffers, and writes nothing
it has not read: what it returns is the expansion of the block that the source
is (`lz4DecompressSafe_sound`), and every block that meets the restrictions of
the format is decoded (`lz4DecompressSafe_block`).
-/

namespace MiniMem

/-! ## The loops -/

/-- What the decoder returns for a plain run, and its destination. -/
def Lz4Returns (src dst : List UInt8) (run : Except (List UInt8) (List UInt8)) (value : Int)
    (dst' : List UInt8) : Prop :=
  match run with
  | .error left => value = -((src.length - left.length : Nat) : Int) - 1 ∧ dst'.length = dst.length
  | .ok out => value = out.length ∧ FilledLike dst out dst'

/-- What is returned out of a turn. -/
theorem returns_of_reads {src dst : List UInt8} {p : PlainStep} {value : Int} {dst' : List UInt8}
    (h : Lz4Exit.Reads src dst p (.ret value dst')) :
    (∃ left, p = .fail left ∧ Lz4Returns src dst (.error left) value dst') ∨
      ∃ out, p = .done out ∧ Lz4Returns src dst (.ok out) value dst' := by
  cases h with
  | fail hip hdst =>
      refine .inl ⟨_, rfl, ?_, hdst⟩
      rw [List.length_drop]
      omega
  | done hfilled => exact .inr ⟨_, rfl, rfl, hfilled⟩

/-- The safe loop is a run of the plain decoder. -/
theorem safeDecode_reads {src dst out : List UInt8} {s : Lz4Decoder} {fuel : Nat}
    (h : s.At src dst out) (hip : s.ip < src.length) (hfuel : src.length - s.ip < fuel) :
    ∃ value dst', safeDecode src src.length dst.length fuel s = .ok (value, dst') ∧
      Lz4Returns src dst (plainDecode (lz4Rule dst.length) dst.length fuel (src.drop s.ip) out)
        value dst' := by
  induction fuel generalizing s out with
  | zero => omega
  | succ fuel ih =>
      obtain ⟨e, hstep, hreads⟩ := safeDecodeStep_reads h hip
      rw [safeDecode, hstep, plainDecode]
      simp only [bind, Except.bind, pure, Except.pure]
      cases e with
      | ret value dst' =>
          refine ⟨value, dst', rfl, ?_⟩
          obtain ⟨left, hp, hreturns⟩ | ⟨out', hp, hreturns⟩ := returns_of_reads hreads
          · rwa [hp]
          · rwa [hp]
      | next s' =>
          generalize hp : plainStep (lz4Rule dst.length (src.drop s.ip) out) dst.length
            (src.drop s.ip) out = p at hreads
          cases hreads with
          | next hat hip' =>
              have hlt := length_of_next hp
              rw [List.length_drop, List.length_drop] at hlt
              exact ih hat hip' (by omega)

/-- So is the fast loop, with the safe loop that ends it. -/
theorem fastDecode_reads {src dst out : List UInt8} {s : Lz4Decoder} {fuel : Nat}
    (h : s.At src dst out) (hip : s.ip < src.length) (hroom : out.length + 64 ≤ dst.length)
    (hfuel : src.length - s.ip < fuel) :
    ∃ value dst', fastDecode src src.length dst.length fuel s = .ok (value, dst') ∧
      Lz4Returns src dst (plainDecode (lz4Rule dst.length) dst.length fuel (src.drop s.ip) out)
        value dst' := by
  induction fuel generalizing s out with
  | zero => omega
  | succ fuel ih =>
      obtain ⟨e, hstep, hreads⟩ := fastDecodeStep_reads h hip hroom
      rw [fastDecode, hstep, plainDecode]
      simp only [bind, Except.bind, pure, Except.pure]
      generalize hp : plainStep (lz4Rule dst.length (src.drop s.ip) out) dst.length
        (src.drop s.ip) out = p at hreads
      cases hreads with
      | stay hat hip' hroom' =>
          have hlt := length_of_next hp
          rw [List.length_drop, List.length_drop] at hlt
          exact ih hat hip' hroom' (by omega)
      | @leave _ e hleave =>
          cases e with
          | ret value dst' =>
              refine ⟨value, dst', rfl, ?_⟩
              obtain ⟨left, rfl, hreturns⟩ | ⟨out', rfl, hreturns⟩ := returns_of_reads hleave
              · exact hreturns
              · exact hreturns
          | next s' =>
              cases hleave with
              | @next out' _ hat hip' =>
                  have hlt := length_of_next hp
                  rw [List.length_drop, List.length_drop] at hlt
                  simp only
                  rw [plainDecode_fuel (src.length + 1) (by rw [List.length_drop]; omega)
                    (by rw [List.length_drop]; omega)]
                  exact safeDecode_reads hat hip' (by omega)

/-! ## LZ4_decompress_safe -/

/-- What the plain decoder reads out of a source, with room for `cap` bytes. -/
def lz4Plain (cap : Nat) (src : List UInt8) : Except (List UInt8) (List UInt8) :=
  plainDecode (lz4Rule cap) cap (src.length + 1) src []

/-- **Refinement**: with room in the destination, `LZ4_decompress_safe` reads what the plain decoder
reads, whatever the destination holds, with the fast loop as without it. -/
theorem lz4DecompressSafe_reads (fastDecLoop : Bool) {src dst : List UInt8} (hsrc : src ≠ [])
    (hdst : dst ≠ []) :
    ∃ value dst', lz4DecompressSafe fastDecLoop src src.length dst dst.length = .ok (value, dst') ∧
      Lz4Returns src dst (lz4Plain dst.length src) value dst' := by
  have hsrc' : 0 < src.length := List.length_pos_of_ne_nil hsrc
  have hdst' : 0 < dst.length := List.length_pos_of_ne_nil hdst
  have hat : Lz4Decoder.At src dst [] ⟨0, 0, dst⟩ :=
    ⟨rfl, Nat.zero_le _, FilledLike.refl (List.nil_prefix)⟩
  rw [lz4DecompressSafe, lz4DecompressGeneric, if_neg (by omega), if_neg (by omega),
    if_neg (by omega)]
  by_cases hfast : fastDecLoop = true ∧ ¬ (dst.length : Int) < 64
  · rw [if_pos hfast]
    exact fastDecode_reads hat hsrc' (by simp; omega) (by simp)
  · rw [if_neg hfast]
    exact safeDecode_reads hat hsrc' (by simp)

/-- Without room there is nothing to decode but the empty block. -/
theorem lz4DecompressSafe_nil (fastDecLoop : Bool) (src : List UInt8) :
    lz4DecompressSafe fastDecLoop src src.length [] ([] : List UInt8).length =
      .ok (if src = [0] then 0 else -1, []) := by
  rw [lz4DecompressSafe, lz4DecompressGeneric, if_neg (by simp), if_pos (by simp)]
  cases src with
  | nil => rfl
  | cons b src =>
      cases src with
      | nil => simp [readByte, bind, Except.bind, pure, Except.pure]
      | cons b' src =>
          rw [if_neg (by simp; omega), if_neg (by simp)]
          rfl

theorem lz4DecompressSafe_no_source (fastDecLoop : Bool) {dst : List UInt8} (hdst : dst ≠ []) :
    lz4DecompressSafe fastDecLoop [] ([] : List UInt8).length dst dst.length = .ok (-1, dst) := by
  have hdst' : 0 < dst.length := List.length_pos_of_ne_nil hdst
  rw [lz4DecompressSafe, lz4DecompressGeneric, if_neg (by omega), if_neg (by omega), if_pos (by simp)]
  rfl

/-- What is returned for a run of the plain decoder, in bounds. -/
theorem Lz4Returns.bounds {src dst dst' : List UInt8} {run : Except (List UInt8) (List UInt8)}
    {value : Int} (h : Lz4Returns src dst run value dst') :
    -(src.length : Int) - 1 ≤ value ∧ value ≤ dst.length ∧ dst'.length = dst.length := by
  cases run with
  | error left =>
      obtain ⟨rfl, hlen⟩ := h
      exact ⟨by omega, by omega, hlen⟩
  | ok out =>
      obtain ⟨rfl, hlen, hpre⟩ := h
      have hle := hpre.length_le
      exact ⟨by omega, by omega, hlen⟩

/-- What is written for a run of the plain decoder. -/
theorem Lz4Returns.take_eq {src dst dst₁ dst₂ : List UInt8} {value value' : Int}
    {run : Except (List UInt8) (List UInt8)} (h : Lz4Returns src dst run value dst₁)
    {dst' : List UInt8} (h' : Lz4Returns src dst' run value' dst₂) :
    value = value' ∧ dst₁.take value.toNat = dst₂.take value.toNat := by
  cases run with
  | error left =>
      obtain ⟨rfl, -⟩ := h
      obtain ⟨rfl, -⟩ := h'
      refine ⟨rfl, ?_⟩
      rw [show (-((src.length - left.length : Nat) : Int) - 1).toNat = 0 by omega]
      rfl
  | ok out =>
      obtain ⟨rfl, -, hpre⟩ := h
      obtain ⟨rfl, -, hpre'⟩ := h'
      rw [Int.toNat_natCast, ← List.prefix_iff_eq_take.1 hpre, ← List.prefix_iff_eq_take.1 hpre']
      exact ⟨rfl, rfl⟩

/-- **Safety**: on any source, `LZ4_decompress_safe` stays within both buffers and returns at most
what fits, and neither what it returns nor what it writes there depends on what the destination
held before or on the fast loop. -/
theorem lz4DecompressSafe_agrees (src : List UInt8) {dst₁ dst₂ : List UInt8}
    (hlen : dst₁.length = dst₂.length) (fast₁ fast₂ : Bool) :
    ∃ value dst₁' dst₂',
      lz4DecompressSafe fast₁ src src.length dst₁ dst₁.length = .ok (value, dst₁') ∧
      lz4DecompressSafe fast₂ src src.length dst₂ dst₂.length = .ok (value, dst₂') ∧
      dst₁'.length = dst₁.length ∧ dst₂'.length = dst₂.length ∧
      -(src.length : Int) - 1 ≤ value ∧ value ≤ dst₁.length ∧
      dst₁'.take value.toNat = dst₂'.take value.toNat := by
  by_cases hdst : dst₁ = []
  · have hdst' : dst₂ = [] := by
      rw [hdst] at hlen
      exact List.length_eq_zero_iff.1 hlen.symm
    subst hdst hdst'
    refine ⟨_, [], [], lz4DecompressSafe_nil fast₁ src, lz4DecompressSafe_nil fast₂ src, rfl, rfl, ?_⟩
    split <;> simp
  have hdst' : dst₂ ≠ [] := by
    intro h
    rw [h, List.length_nil, List.length_eq_zero_iff] at hlen
    exact hdst hlen
  by_cases hsrc : src = []
  · subst hsrc
    exact ⟨-1, dst₁, dst₂, lz4DecompressSafe_no_source fast₁ hdst,
      lz4DecompressSafe_no_source fast₂ hdst', rfl, rfl, by simp, by omega, rfl⟩
  obtain ⟨value, dst₁', hrun, hreturns⟩ := lz4DecompressSafe_reads fast₁ hsrc hdst
  obtain ⟨value', dst₂', hrun', hreturns'⟩ := lz4DecompressSafe_reads fast₂ hsrc hdst'
  obtain ⟨hlow, hhigh, hlen₁⟩ := hreturns.bounds
  obtain ⟨-, -, hlen₂⟩ := hreturns'.bounds
  rw [← hlen] at hreturns'
  obtain ⟨rfl, htake⟩ := hreturns.take_eq hreturns'
  exact ⟨value, dst₁', dst₂', hrun, hrun', hlen₁, hlen₂, hlow, hhigh, htake⟩

/-- A literal and a match of offset 1, with the fast loop and without it. -/
theorem lz4DecompressSafe_agrees_short :
    ∃ value dst₁' dst₂',
      lz4DecompressSafe true [16, 7, 1, 0, 0] 5 [9, 9] 2 = .ok (value, dst₁') ∧
      lz4DecompressSafe false [16, 7, 1, 0, 0] 5 [1, 2] 2 = .ok (value, dst₂') ∧
      dst₁'.length = 2 ∧ dst₂'.length = 2 ∧ -(5 : Int) - 1 ≤ value ∧ value ≤ 2 ∧
      dst₁'.take value.toNat = dst₂'.take value.toNat :=
  @lz4DecompressSafe_agrees [16, 7, 1, 0, 0] [9, 9] [1, 2] rfl true false

/-- **Soundness**: a source that `LZ4_decompress_safe` accepts is a block each of whose matches
begins in what has been expanded, or has the offset 0 and stands for zeros; and what it returns
and writes is the expansion. -/
theorem lz4DecompressSafe_sound {fastDecLoop : Bool} {src dst dst' : List UInt8} {value : Int}
    (h : lz4DecompressSafe fastDecLoop src src.length dst dst.length = .ok (value, dst'))
    (hvalue : 0 ≤ value) :
    ∃ b : Lz4Block, src = b.bytes ∧ b.Reaches ∧ value = b.expand.length ∧
      dst'.take b.expand.length = b.expand := by
  by_cases hdst : dst = []
  · subst hdst
    rw [lz4DecompressSafe_nil] at h
    simp only [Except.ok.injEq, Prod.mk.injEq] at h
    obtain ⟨rfl, rfl⟩ := h
    split at hvalue
    next hsrc => exact ⟨⟨[], [], 0⟩, hsrc, trivial, by rw [if_pos hsrc]; rfl, rfl⟩
    · omega
  by_cases hsrc : src = []
  · subst hsrc
    rw [lz4DecompressSafe_no_source fastDecLoop hdst] at h
    simp only [Except.ok.injEq, Prod.mk.injEq] at h
    omega
  obtain ⟨value', dst₁, hrun, hreturns⟩ := lz4DecompressSafe_reads fastDecLoop hsrc hdst
  rw [h] at hrun
  simp only [Except.ok.injEq, Prod.mk.injEq] at hrun
  obtain ⟨rfl, rfl⟩ := hrun
  cases hplain : lz4Plain dst.length src with
  | error left =>
      rw [hplain] at hreturns
      have hneg := hreturns.1
      omega
  | ok out =>
      rw [hplain] at hreturns
      obtain ⟨rfl, -, hpre⟩ := hreturns
      obtain ⟨b, hbytes, rfl, hreach, -⟩ := block_of_plainDecode hplain
      exact ⟨b, hbytes, hreach, rfl, (List.prefix_iff_eq_take.1 hpre).symm⟩

/-- A literal, a match of offset 0, which stands for four zeros, and five literals. -/
theorem lz4DecompressSafe_sound_offsetZero : ∃ b : Lz4Block,
    [16, 7, 0, 0, 80, 1, 2, 3, 4, 5] = b.bytes ∧ b.Reaches ∧ (10 : Int) = b.expand.length ∧
      [7, 0, 0, 0, 0, 1, 2, 3, 4, 5, 9, 9, 9].take b.expand.length = b.expand :=
  @lz4DecompressSafe_sound true [16, 7, 0, 0, 80, 1, 2, 3, 4, 5] (List.replicate 13 9)
    [7, 0, 0, 0, 0, 1, 2, 3, 4, 5, 9, 9, 9] 10 rfl (by decide)

/-- **Completeness**: a block that meets the restrictions of the format is decoded to its
expansion, as long as there is room. -/
theorem lz4DecompressSafe_block (fastDecLoop : Bool) {b : Lz4Block} {dst : List UInt8}
    (hreach : b.Reaches) (hfits : b.Fits) (hroom : b.expand.length ≤ dst.length) (hdst : dst ≠ []) :
    ∃ dst', lz4DecompressSafe fastDecLoop b.bytes b.bytes.length dst dst.length =
        .ok ((b.expand.length : Int), dst') ∧
      dst'.length = dst.length ∧ dst'.take b.expand.length = b.expand := by
  have hsrc : b.bytes ≠ [] := by simp [Lz4Block.bytes, lastBytes]
  have hplain : lz4Plain dst.length b.bytes = .ok b.expand :=
    plainDecode_block [] hreach hfits (by simp [Lz4Block.expand]) hroom (Nat.le_succ _)
  obtain ⟨value, dst', hrun, hreturns⟩ := lz4DecompressSafe_reads fastDecLoop hsrc hdst
  rw [hplain] at hreturns
  obtain ⟨rfl, hlen, hpre⟩ := hreturns
  exact ⟨dst', hrun, hlen, (List.prefix_iff_eq_take.1 hpre).symm⟩

/-- A block of two sevens, eighteen more and five literals. -/
theorem lz4DecompressSafe_block_sevens : ∃ dst',
    lz4DecompressSafe true (Lz4Block.bytes ⟨[⟨[7, 7], 1, 14⟩], [1, 2, 3, 4, 5], 0⟩)
      (Lz4Block.bytes ⟨[⟨[7, 7], 1, 14⟩], [1, 2, 3, 4, 5], 0⟩).length
      (List.replicate 25 0) (List.replicate 25 (0 : UInt8)).length = .ok (25, dst') ∧
    dst'.length = (List.replicate 25 (0 : UInt8)).length ∧
    dst'.take 25 = Lz4Block.expand ⟨[⟨[7, 7], 1, 14⟩], [1, 2, 3, 4, 5], 0⟩ :=
  @lz4DecompressSafe_block true ⟨[⟨[7, 7], 1, 14⟩], [1, 2, 3, 4, 5], 0⟩ (List.replicate 25 0)
    ⟨⟨by decide, by decide⟩, trivial⟩ ⟨⟨by decide, by decide⟩, trivial⟩ (by decide) (by decide)

end MiniMem
