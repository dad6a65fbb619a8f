import MiniMem.Compressors.Lz4.EncodeSound
import MiniMem.Compressors.Lz4.DecodeSound
import MiniMem.Compressors.Contract
import MiniMem.Kernel.Compress

/-!
# MiniMem.Compressors.Lz4.Roundtrip

LZ4 behind the interface of the compressors.  `LZ4_compress_default` writes
`lz4Encoded` or returns 0, which it does only where the destination may be too
small (`lz4CompressDefault_ok`); what it writes, `LZ4_decompress_safe` decodes.
So the wrappers of `lz4_wrap.c` round-trip and keep the contract of a
compressor, and the vendored LZ4 is one that pages can be stored with
(`vendoredLz4_roundTrips`).
-/

namespace MiniMem

/-! ## LZ4_compress_default -/

/-- How a source is looked through: `LZ4_64Klimit` decides on the table. -/
def lz4Input (src : List UInt8) : Lz4Input :=
  ⟨src, src.length, if (src.length : Int) < 65547 then .byU16 else .byU32, 1⟩

/-- What LZ4 stores for a source. -/
def lz4Encoded (src : List UInt8) : List UInt8 := (lz4BlockOf (lz4Input src)).bytes

theorem lz4Input_valid (src : List UInt8) : (lz4Input src).Valid where
  size_eq := rfl
  short := by
    intro h
    simp only [lz4Input] at h ⊢
    split at h
    next hlt => omega
    · cases h
  accelerated := le_rfl

/-- What LZ4 stores is a block that every decoder reads, and that expands to the source. -/
theorem lz4Encoded_block (src : List UInt8) :
    ∃ b : Lz4Block, lz4Encoded src = b.bytes ∧ b.Reaches ∧ b.Fits ∧ b.expand = src := by
  obtain ⟨hexpand, hreach, hfits⟩ := lz4BlockOf_ok (lz4Input_valid src)
  exact ⟨_, rfl, hreach, hfits, hexpand⟩

/-- It is never much longer than the source. -/
theorem length_lz4Encoded_le (src : List UInt8) :
    (lz4Encoded src).length ≤ src.length + src.length / 255 + 2 := by
  obtain ⟨hexpand, -⟩ := lz4BlockOf_ok (lz4Input_valid src)
  have hle := (lz4BlockOf (lz4Input src)).length_bytes_le
  rw [hexpand] at hle
  exact hle

/-- `LZ4_compress_generic` on a source of any size. -/
theorem lz4CompressGeneric_ok {src dst : List UInt8} (dstCapacity : Int) (dir : Lz4Output)
    (hsize : src.length ≤ 0x7E000000)
    (hroom : Lz4Call.RoomFor ⟨lz4Input src, dstCapacity, dir⟩ dst) :
    ∃ value dst', lz4CompressGeneric src dst src.length dstCapacity dir (lz4Input src).tableType 1 =
        .ok (value, dst') ∧
      Lz4Call.Returns ⟨lz4Input src, dstCapacity, dir⟩ dst (lz4Encoded src) value dst' := by
  rw [lz4CompressGeneric, if_neg (by omega)]
  by_cases hempty : (src.length : Int) = 0
  · have hnil : src = [] := List.length_eq_zero_iff.1 (by omega)
    subst hnil
    rw [if_pos hempty]
    by_cases hfull : dir ≠ .notLimited ∧ dstCapacity ≤ 0
    · have hlimited : dir = .limitedOutput := by
        cases dir with
        | notLimited => exact absurd rfl hfull.1
        | limitedOutput => rfl
      rw [if_pos hfull]
      exact ⟨0, dst, rfl, .zero ⟨hlimited, by simp only [lz4Input]; omega⟩ rfl⟩
    · have hpos : 0 < dst.length := by
        cases dir with
        | notLimited =>
            simp only [Lz4Call.RoomFor, lz4Input] at hroom
            omega
        | limitedOutput =>
            simp only [Lz4Call.RoomFor] at hroom
            simp only [ne_eq, reduceCtorEq, not_false_eq_true, true_and] at hfull
            omega
      obtain ⟨dst', hwrite, hfilled⟩ := writeAt_filled
        (show [] <+: dst from List.nil_prefix) [0] (by rw [List.length_singleton, List.length_nil]; omega)
      have hencoded : [0] = lz4Encoded [] := rfl
      rw [List.nil_append, hencoded] at hfilled
      have hone : ((lz4Encoded []).length : Int) = 1 := by rw [← hencoded]; rfl
      rw [if_neg hfull]
      simp only [List.length_nil] at hwrite
      simp only [bind, Except.bind, hwrite]
      exact ⟨_, dst', by rw [hone]; rfl, .block hfilled⟩
  · have hcall : (⟨⟨src, (src.length : Int).toNat, (lz4Input src).tableType, 1⟩, dstCapacity, dir⟩ :
        Lz4Call) = ⟨lz4Input src, dstCapacity, dir⟩ := by
      simp only [lz4Input, Int.toNat_natCast]
    rw [if_neg hempty, hcall]
    exact lz4CompressGenericValidated_ok (lz4Input_valid src) hroom

/-- What `LZ4_compress_default` does on a source that it supports: it writes `lz4Encoded`, or
returns 0 where the capacity is below `LZ4_compressBound`. -/
theorem lz4CompressDefault_ok {src : List UInt8} (dst : List UInt8) {dstCapacity : Int}
    (hsize : src.length ≤ 0x7E000000) (hcap : dstCapacity ≤ dst.length) :
    ∃ value dst', lz4CompressDefault src dst src.length dstCapacity = .ok (value, dst') ∧
      dst'.length = dst.length ∧
      (value = 0 ∧ dstCapacity < lz4CompressBound src.length ∨
        value = (lz4Encoded src).length ∧ lz4Encoded src <+: dst') := by
  have hbound : lz4CompressBound src.length = (src.length + src.length / 255 + 16 : Nat) := by
    rw [lz4CompressBound, if_neg (by omega)]
    omega
  have hresult : ∀ {cap : Int} {dir : Lz4Output} {value : Int} {dst' : List UInt8},
      (dir = .limitedOutput → cap = dstCapacity) →
      Lz4Call.Returns ⟨lz4Input src, cap, dir⟩ dst (lz4Encoded src) value dst' →
      dst'.length = dst.length ∧ (value = 0 ∧ dstCapacity < lz4CompressBound src.length ∨
        value = (lz4Encoded src).length ∧ lz4Encoded src <+: dst') := by
    intro cap dir value dst' hdir hreturns
    cases hreturns with
    | zero hgiveUp hlen =>
        obtain ⟨hlimited, hlt⟩ := hgiveUp
        have hcapEq := hdir hlimited
        refine ⟨hlen, .inl ⟨rfl, ?_⟩⟩
        rw [hbound, ← hcapEq]
        exact hlt
    | block hfilled => exact ⟨hfilled.1, .inr ⟨rfl, hfilled.2⟩⟩
  have hacc : (if (if (1 : Int) < 1 then (1 : Int) else 1) > 65537 then (65537 : Int)
    else if (1 : Int) < 1 then 1 else 1).toNat = 1 := rfl
  have htable : (lz4Input src).tableType =
      if (src.length : Int) < 65547 then .byU16 else .byU32 := by simp only [lz4Input]
  rw [lz4CompressDefault, lz4CompressFastExtState]
  simp only [hacc, ← htable]
  by_cases hfits : dstCapacity ≥ lz4CompressBound src.length
  · rw [if_pos hfits]
    obtain ⟨value, dst', hrun, hreturns⟩ := lz4CompressGeneric_ok 0
      .notLimited hsize (show Lz4Call.RoomFor ⟨lz4Input src, 0, .notLimited⟩ dst by
        simp only [Lz4Call.RoomFor, lz4Input]; omega)
    exact ⟨value, dst', hrun, hresult (by simp) hreturns⟩
  · rw [if_neg hfits]
    obtain ⟨value, dst', hrun, hreturns⟩ := lz4CompressGeneric_ok dstCapacity
      .limitedOutput hsize
      (by simpa only [Lz4Call.RoomFor] using hcap)
    exact ⟨value, dst', hrun, hresult (fun _ => rfl) hreturns⟩

/-- A source beyond `LZ4_MAX_INPUT_SIZE` is not compressed. -/
theorem lz4CompressDefault_long {src dst : List UInt8} {dstCapacity : Int}
    (hsize : 0x7E000000 < src.length) :
    lz4CompressDefault src dst src.length dstCapacity = .ok (0, dst) := by
  have hlong : (src.length : Int) < 0 ∨ (src.length : Int) > 0x7E000000 := by omega
  simp only [lz4CompressDefault, lz4CompressFastExtState, lz4CompressGeneric, if_pos hlong]
  split <;> rfl

/-! ## Back and forth -/

/-- What LZ4 stores is decoded into any destination with room for the source. -/
theorem lz4DecompressSafe_lz4Encoded (fastDecLoop : Bool) {src dst : List UInt8}
    (hroom : src.length ≤ dst.length) (hdst : dst ≠ []) :
    ∃ dst', lz4DecompressSafe fastDecLoop (lz4Encoded src) (lz4Encoded src).length dst dst.length =
        .ok ((src.length : Int), dst') ∧ dst'.length = dst.length ∧ dst'.take src.length = src := by
  obtain ⟨b, hbytes, hreach, hfits, rfl⟩ := lz4Encoded_block src
  rw [hbytes]
  have hne : b.bytes ≠ [] := by simp [Lz4Block.bytes, lastBytes]
  have hplain : lz4Plain dst.length b.bytes = .ok b.expand :=
    plainDecode_block [] hreach hfits (by simp [Lz4Block.expand]) hroom (Nat.le_succ _)
  obtain ⟨value, dst', hrun, hreturns⟩ := lz4DecompressSafe_reads fastDecLoop hne hdst
  rw [hplain] at hreturns
  obtain ⟨rfl, hlen, hpre⟩ := hreturns
  exact ⟨dst', hrun, hlen, (List.prefix_iff_eq_take.1 hpre).symm⟩

/-! ## lz4_wrap.c -/

/-- A `size_t` that is passed as an `int`. -/
def cInt (n : Nat) : Int :=
  if n % 2 ^ 32 < 2 ^ 31 then ((n % 2 ^ 32 : Nat) : Int) else ((n % 2 ^ 32 : Nat) : Int) - 2 ^ 32

theorem cInt_of_lt {n : Nat} (h : n < 2 ^ 31) : cInt n = n := by
  have hmod : n % 2 ^ 32 = n := Nat.mod_eq_of_lt (by omega)
  rw [cInt, hmod, if_pos h]

/-- `minimem_lz4_compress`, with the vendored LZ4. -/
def minimemLz4Compress (src dst : List UInt8) (dstCap : Nat) : Except Stop OutCursor := do
  if src.length = 0 ∨ dstCap = 0 then .error .zero
  let (result, dst) ← lz4CompressDefault src dst (cInt src.length) (cInt dstCap)
  if result ≤ 0 then .error .zero
  if result.toNat ≥ src.length then .error .zero
  pure ⟨dst, result.toNat⟩

/-- `minimem_lz4_decompress`, with the vendored LZ4. -/
def minimemLz4Decompress (fastDecLoop : Bool) (src dst : List UInt8) (dstCap : Nat) :
    Except Stop OutCursor := do
  if src.length = 0 ∨ dstCap = 0 then .error .zero
  let (result, dst) ← lz4DecompressSafe fastDecLoop src (cInt src.length) dst (cInt dstCap)
  if result < 0 then .error .zero
  pure ⟨dst, result.toNat⟩

/-- `minimem_lz4_compress_bound`. -/
def minimemLz4CompressBound (srcLen : Nat) : Nat := (lz4CompressBound (cInt srcLen)).toNat

/-- `minimem_lz4_can_compress`. -/
def minimemLz4CanCompress (src : List UInt8) : Bool := decide (src.length > 0)

/-- `minimem_lz4_compressor`. -/
def minimemLz4Compressor : Compressor :=
  ⟨3, minimemLz4Compress, minimemLz4CompressBound, minimemLz4CanCompress⟩

/-- Everything that `minimem_lz4_compress` does with a destination of exactly the capacity: it
stores `lz4Encoded` if that is smaller than the source, or returns 0. -/
theorem minimemLz4Compress_ok {src dst : List UInt8} (hsrc : src.length < 2 ^ 31)
    (hdst : dst.length < 2 ^ 31) :
    minimemLz4Compress src dst dst.length = .error .zero ∧
        (lz4CompressBound src.length ≤ dst.length → src.length ≤ 0x7E000000 → src ≠ [] →
          src.length ≤ (lz4Encoded src).length) ∨
      ∃ dst', minimemLz4Compress src dst dst.length = .ok ⟨dst', (lz4Encoded src).length⟩ ∧
        dst'.length = dst.length ∧ lz4Encoded src <+: dst' ∧
        (lz4Encoded src).length < src.length ∧ src.length ≤ 0x7E000000 := by
  rw [minimemLz4Compress, cInt_of_lt hsrc, cInt_of_lt hdst]
  by_cases hempty : src.length = 0 ∨ dst.length = 0
  · refine .inl ⟨by rw [if_pos hempty]; rfl, fun hbound hsize hne => ?_⟩
    have hpos : 0 < src.length := List.length_pos_of_ne_nil hne
    have hzero : lz4CompressBound src.length ≤ 0 := by omega
    rw [lz4CompressBound, if_neg (by omega)] at hzero
    omega
  rw [if_neg hempty]
  by_cases hsize : src.length ≤ 0x7E000000
  swap
  · rw [lz4CompressDefault_long (by omega)]
    exact .inl ⟨rfl, fun _ hle => absurd hle hsize⟩
  obtain ⟨value, dst', hrun, hlen, ⟨rfl, hlt⟩ | ⟨rfl, hpre⟩⟩ :=
    lz4CompressDefault_ok dst hsize (le_refl (dst.length : Int))
  · rw [hrun]
    exact .inl ⟨rfl, fun hbound => absurd hbound (by omega)⟩
  · have hpos : 0 < (lz4Encoded src).length := by
      simp [lz4Encoded, Lz4Block.bytes, lastBytes]
    rw [hrun]
    simp only [bind, Except.bind, pure, Except.pure, Int.toNat_natCast]
    rw [if_neg (by omega)]
    by_cases hsmall : (lz4Encoded src).length ≥ src.length
    · rw [if_pos hsmall]
      exact .inl ⟨rfl, fun _ _ _ => hsmall⟩
    · rw [if_neg hsmall]
      exact .inr ⟨dst', rfl, hlen, hpre, by omega, hsize⟩

/-- **Contract**: `minimem_lz4_compress` returns 0, or a size below that of the source and within the
capacity, and stays within both buffers. -/
theorem minimemLz4Compress_keepsContract {src dst : List UInt8} (hsrc : src.length < 2 ^ 31)
    (hdst : dst.length < 2 ^ 31) :
    KeepsContract src.length dst.length (minimemLz4Compressor.compress src dst dst.length) := by
  obtain ⟨hzero, -⟩ | ⟨dst', hrun, hlen, hpre, hlt, -⟩ := minimemLz4Compress_ok hsrc hdst
  · exact .inl hzero
  · have hpos : 0 < (lz4Encoded src).length := by simp [lz4Encoded, Lz4Block.bytes, lastBytes]
    have hle := hpre.length_le
    exact .inr ⟨_, hrun, hpos, hlt, by simp only; omega⟩

theorem minimemLz4Compress_keepsContract_replicate :
    KeepsContract 40 30 (minimemLz4Compressor.compress (List.replicate 40 7) (List.replicate 30 0)
      30) :=
  @minimemLz4Compress_keepsContract (List.replicate 40 7) (List.replicate 30 0) (by simp) (by simp)

/-- What `minimem_lz4_compress` stores in less space than the source, `minimem_lz4_decompress`
restores in any destination with room for the source. -/
theorem minimemLz4Decompress_lz4Encoded (fastDecLoop : Bool) {src back : List UInt8}
    (hlt : (lz4Encoded src).length < src.length) (hback : back.length < 2 ^ 31)
    (hroom : src.length ≤ back.length) :
    ∃ back', minimemLz4Decompress fastDecLoop (lz4Encoded src) back back.length =
      .ok ⟨back', src.length⟩ ∧ back'.take src.length = src := by
  have hpos : 0 < (lz4Encoded src).length := by simp [lz4Encoded, Lz4Block.bytes, lastBytes]
  have hne : back ≠ [] := List.ne_nil_of_length_pos (by omega)
  obtain ⟨back', hback', -, htake⟩ := lz4DecompressSafe_lz4Encoded fastDecLoop hroom hne
  refine ⟨back', ?_, htake⟩
  rw [minimemLz4Decompress, if_neg (by omega), cInt_of_lt (by omega), cInt_of_lt hback, hback']
  simp only [bind, Except.bind, pure, Except.pure, Int.toNat_natCast]
  rw [if_neg (by omega)]

/-- The vendored LZ4 in the place of the kernel's. -/
def vendoredLz4 (fastDecLoop : Bool) : Lz4 where
  compressDefault := fun src cap =>
    match lz4CompressDefault src (List.replicate cap 0) src.length cap with
    | .ok (value, dst) => if value ≤ 0 then none else some (dst.take value.toNat)
    | .error _ => none
  decompressSafe := fun src cap =>
    match lz4DecompressSafe fastDecLoop src src.length (List.replicate cap 0) cap with
    | .ok (value, dst) => if value < 0 then none else some (dst.take value.toNat)
    | .error _ => none

/-- **What pages are stored with**: the vendored LZ4 meets the assumption about the kernel's LZ4
under which stored pages are read back. -/
theorem vendoredLz4_roundTrips (fastDecLoop : Bool) : (vendoredLz4 fastDecLoop).RoundTrips := by
  intro src cap out cap' hout hroom
  have hcapLen : ((List.replicate cap (0 : UInt8)).length : Int) = cap := by simp
  have hstored : out = lz4Encoded src := by
    by_cases hsize : src.length ≤ 0x7E000000
    · obtain ⟨value, dst', hrun, -, hcase⟩ := lz4CompressDefault_ok
        (List.replicate cap 0) hsize (show (cap : Int) ≤ (List.replicate cap (0 : UInt8)).length by simp)
      simp only [vendoredLz4, hrun] at hout
      obtain ⟨rfl, -⟩ | ⟨rfl, hpre⟩ := hcase
      · simp at hout
      · split at hout
        · cases hout
        · simp only [Int.toNat_natCast, Option.some.injEq] at hout
          rw [← hout]
          exact (List.prefix_iff_eq_take.1 hpre).symm
    · simp [vendoredLz4, lz4CompressDefault_long (show 0x7E000000 < src.length by omega)] at hout
  subst hstored
  by_cases hzero : cap' = 0
  · subst hzero
    have hnil : src = [] := List.length_eq_zero_iff.1 (by omega)
    subst hnil
    have hencoded : lz4Encoded [] = [0] := rfl
    have hrun := lz4DecompressSafe_nil fastDecLoop (lz4Encoded [])
    rw [if_pos hencoded] at hrun
    simp only [vendoredLz4, List.replicate_zero]
    simp only [List.length_nil, Nat.cast_zero] at hrun ⊢
    rw [hrun]
    rfl
  · obtain ⟨dst', hrun, -, htake⟩ := lz4DecompressSafe_lz4Encoded fastDecLoop
      (show src.length ≤ (List.replicate cap' (0 : UInt8)).length by simpa using hroom) (by simpa using hzero)
    rw [List.length_replicate] at hrun
    simp only [vendoredLz4, hrun, Int.toNat_natCast, htake]
    rw [if_neg (by omega)]

/-- An environment with the vendored LZ4. -/
def CodecEnv.vendored : CodecEnv := { CodecEnv.incompressible with lz4 := vendoredLz4 true }

/-- The near-word page goes to BDI, which stores it and reads it back. -/
theorem compressPage_lossless_iff_nearWord :
    CodecEnv.vendored.lz4.RoundTrips ∧ classifyPage nearWordPage.bytes = .bdi ∧
      ∀ res bytes, compressPage .vendored nearWordPage.bytes = .ok (.ok (res, bytes)) →
        decompressPage .vendored (bytes.take res.compressedSize) res.algoId pageSize
          = .ok (.ok nearWordPage.bytes) :=
  ⟨vendoredLz4_roundTrips true, classifyPage_nearWordPage,
    (compressPage_lossless_iff .vendored (vendoredLz4_roundTrips true) nearWordPage).2
      fun _ _ => bdiFits_nearWordPage⟩

/-! ## The encoder, for every destination -/

/-- **`LZ4_compress_default`** stores one block for a source, whatever the destination is and
holds: a block that expands to the source and meets the restrictions of the format.  It returns 0
only below `LZ4_compressBound`, and stays within both buffers. -/
theorem lz4CompressDefault_block {src : List UInt8} (hsize : src.length ≤ 0x7E000000) :
    ∃ b : Lz4Block, b.Reaches ∧ b.Fits ∧ b.expand = src ∧
      b.bytes.length ≤ src.length + src.length / 255 + 2 ∧
      ∀ (dst : List UInt8) (dstCapacity : Int), dstCapacity ≤ dst.length →
        ∃ value dst', lz4CompressDefault src dst src.length dstCapacity = .ok (value, dst') ∧
          dst'.length = dst.length ∧
          (value = 0 ∧ dstCapacity < lz4CompressBound src.length ∨
            value = b.bytes.length ∧ b.bytes <+: dst') := by
  obtain ⟨b, hbytes, hreach, hfits, hexpand⟩ := lz4Encoded_block src
  have hle := length_lz4Encoded_le src
  rw [hbytes] at hle
  refine ⟨b, hreach, hfits, hexpand, hle, fun dst dstCapacity hcap => ?_⟩
  rw [← hbytes]
  exact lz4CompressDefault_ok dst hsize hcap

/-- Forty sevens are stored as a literal, a match of offset 1 and the last five of them. -/
theorem lz4CompressDefault_block_sevens :
    (lz4CompressDefault (List.replicate 40 7) (List.replicate 60 0) 40 60).toOption.map Prod.fst
        = some 11 ∧
      ∃ b : Lz4Block, b.Reaches ∧ b.Fits ∧ b.expand = List.replicate 40 7 ∧
        ∃ value dst', lz4CompressDefault (List.replicate 40 7) (List.replicate 60 0) 40 60
          = .ok (value, dst') ∧ value = b.bytes.length ∧ b.bytes <+: dst' := by
  obtain ⟨b, hreach, hfits, hexpand, -, hrun⟩ :=
    @lz4CompressDefault_block (List.replicate 40 7) (by decide)
  obtain ⟨value, dst', hcall, -, hvalue⟩ := hrun (List.replicate 60 0) 60 (by decide)
  refine ⟨by decide +kernel, b, hreach, hfits, hexpand, value, dst', hcall, ?_⟩
  exact hvalue.resolve_left fun hshort => absurd hshort.2 (by decide)

end MiniMem
