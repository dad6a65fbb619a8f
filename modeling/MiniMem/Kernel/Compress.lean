import MiniMem.Compressors.Bdi
import MiniMem.Compressors.Wkdm.Roundtrip

/-!
# MiniMem.Kernel.Compress

The in-kernel compression dispatch: `km_classify_page` picks an algorithm
from the byte statistics of a page, `minimem_compress_page` runs it into
the per-CPU buffer and `minimem_decompress_page` undoes it by the stored
algorithm id.

Same-page, BDI and WKdm are the repository's own code.  The kernel's LZ4
is not, and neither the classifier nor the dispatch depends on what the
block classifier does, so both come in through `CodecEnv`.
-/

namespace MiniMem

/-! ## Pages and algorithm ids -/

/-- `MINIMEM_PAGE_SIZE`. -/
def pageSize : Nat := 4096

/-- `MINIMEM_COMPRESS_BUF_SIZE`, the size of a per-CPU buffer. -/
def compressBufSize : Nat := 8192

/-- The contents of a page frame. -/
@[ext] structure Page where
  bytes : List UInt8
  length_bytes : bytes.length = pageSize
  deriving DecidableEq

/-- A page of one repeated byte. -/
def Page.fill (b : UInt8) : Page := ⟨List.replicate pageSize b, List.length_replicate⟩

/-- Pages of one byte are equal when the bytes are. -/
theorem Page.fill_inj {a b : UInt8} : Page.fill a = Page.fill b ↔ a = b := by
  rw [Page.ext_iff]
  exact List.replicate_right_inj (by decide)

/-- `MINIMEM_ALGO_*`. -/
inductive AlgoId where
  | samePage
  | bdi
  | wkdm
  | lz4
  | lzsse8
  | zstdDict
  | delta
  | wkdm64
  | blockClass
  deriving DecidableEq, Repr

/-- The return values of the dispatch other than `MINIMEM_OK`. -/
inductive Status where
  | error
  | nospace
  | incompressible
  deriving DecidableEq, Repr

/-- `struct minimem_compress_result`, without its timing field. -/
structure CompressResult where
  algoId : AlgoId
  originalSize : Nat
  compressedSize : Nat
  deriving DecidableEq, Repr

/-! ## Same-page -/

/-- `km_same_page_can_compress`. -/
def samePageCanCompress : List UInt8 → Bool
  | [] => false
  | b :: bs => bs.all (· == b)

/-- `km_same_page_compress`. -/
def samePageCompress (src : List UInt8) (dstCap : Nat) : Except Stop (List UInt8) :=
  match src with
  | [] => .error .zero
  | b :: bs =>
      if bs.any (· != b) then .error .zero
      else if dstCap < 1 then .error .zero
      else emit dstCap [] [b]

/-- `km_same_page_decompress`. -/
def samePageDecompress (src : List UInt8) (dstCap : Nat) : Except Stop (List UInt8) :=
  match src with
  | [] => .error .zero
  | b :: _ => if dstCap = 0 then .error .zero else .ok (List.replicate dstCap b)

/-! ## LZ4 -/

/-- The kernel's `LZ4_compress_default` and `LZ4_decompress_safe`; `none` is a
result that reports failure. -/
structure Lz4 where
  compressDefault : List UInt8 → Nat → Option (List UInt8)
  decompressSafe : List UInt8 → Nat → Option (List UInt8)

/-- What LZ4 compresses, it decompresses into any buffer that has room. -/
def Lz4.RoundTrips (lz4 : Lz4) : Prop :=
  ∀ src cap out cap', lz4.compressDefault src cap = some out → src.length ≤ cap' →
    lz4.decompressSafe out cap' = some src

/-- `minimem_lz4_compress`; `wrkmem` is whether its `kmalloc` succeeds. -/
def lz4Compress (lz4 : Lz4) (wrkmem : Bool) (src : List UInt8) (dstCap : Nat) :
    Except Stop (List UInt8) :=
  if src.length = 0 ∨ dstCap = 0 then .error .zero
  else if wrkmem = false then .error .zero
  else
    match lz4.compressDefault src dstCap with
    | none => .error .zero
    | some out => if out.length = 0 ∨ out.length ≥ src.length then .error .zero else .ok out

/-- `minimem_lz4_decompress`. -/
def lz4Decompress (lz4 : Lz4) (src : List UInt8) (dstCap : Nat) : Except Stop (List UInt8) :=
  if src.length = 0 ∨ dstCap = 0 then .error .zero
  else
    match lz4.decompressSafe src dstCap with
    | none => .error .zero
    | some out => .ok out

/-! ## Page classification -/

/-- The bytes of a page that are zero. -/
def zeroBytes (data : List UInt8) : Nat := data.countP (· == 0)

/-- `min_byte` after the scan. -/
def minByte (data : List UInt8) : Nat :=
  data.foldl (fun m b => if b.toNat < m then b.toNat else m) 0xFF

/-- `max_byte` after the scan. -/
def maxByte (data : List UInt8) : Nat :=
  data.foldl (fun m b => if b.toNat > m then b.toNat else m) 0

/-- `upper32_zero`, over the 64-bit words of a page. -/
def upper32Zero (data : List UInt8) : Nat :=
  (wordsLE 8 (data.length / 8) data).countP (· &&& 0xFFFFFFFF00000000 == 0)

/-- `km_classify_page`. -/
def classifyPage (data : List UInt8) : AlgoId :=
  if data.length ≠ pageSize ∨ data.length = 0 then .lz4
  else if zeroBytes data = data.length ∨ samePageCanCompress data then .samePage
  else if zeroBytes data * 256 / data.length ≥ 128 then
    if maxByte data - minByte data ≤ 32 then .bdi else .wkdm
  else if data.length / 8 > 0 ∧ upper32Zero data > data.length / 8 / 2 then .wkdm64
  else .lz4

/-! ## Dispatch -/

/-- What the dispatch runs on: the codecs from outside, and what the stack
frames of the WKdm encoders happen to hold. -/
structure CodecEnv where
  lz4 : Lz4
  lz4Wrkmem : Bool
  blockClassCompress : List UInt8 → Nat → Except Stop (List UInt8)
  blockClassDecompress : List UInt8 → Nat → Except Stop (List UInt8)
  wkdmScratch : WkdmScratch wkdm32
  wkdm64Scratch : WkdmScratch wkdm64

/-- The `switch` of `minimem_compress_page`. -/
def compressWith (env : CodecEnv) (algo : AlgoId) (src : List UInt8) (bound : Nat) :
    Except Stop (List UInt8) :=
  match algo with
  | .samePage => samePageCompress src bound
  | .bdi => bdiCompress src bound
  | .wkdm => wkdmCompressScratch src bound env.wkdmScratch
  | .wkdm64 => wkdm64CompressScratch src bound env.wkdm64Scratch
  | .blockClass => env.blockClassCompress src bound
  | .lz4 => lz4Compress env.lz4 env.lz4Wrkmem src bound
  | _ => .error .zero

/-- The `switch` of `minimem_decompress_page`. -/
def decompressWith (env : CodecEnv) (algo : AlgoId) (src : List UInt8) (dstLen : Nat) :
    Except Stop (List UInt8) :=
  match algo with
  | .samePage => samePageDecompress src dstLen
  | .bdi => bdiDecompress src dstLen
  | .wkdm => wkdmDecompress src dstLen
  | .wkdm64 => wkdm64Decompress src dstLen
  | .blockClass => env.blockClassDecompress src dstLen
  | .lz4 => lz4Decompress env.lz4 src dstLen
  | _ => .error .zero

/-- `minimem_compress_page`: the result, and the filled part of the per-CPU buffer.
An access outside a buffer surfaces as `Stop.oob`. -/
def compressPage (env : CodecEnv) (src : List UInt8) :
    Except Stop (Except Status (CompressResult × List UInt8)) :=
  if src.length ≠ pageSize then .ok (.error .error)
  else
    match compressWith env (classifyPage src) src compressBufSize with
    | .error .oob => .error .oob
    | .error .zero => .ok (.error .incompressible)
    | .ok bytes =>
        if bytes.length = 0 then .ok (.error .incompressible)
        else .ok (.ok (⟨classifyPage src, src.length, bytes.length⟩, bytes))

/-- `minimem_decompress_page`. -/
def decompressPage (env : CodecEnv) (compressed : List UInt8) (algo : AlgoId) (dstLen : Nat) :
    Except Stop (Except Status (List UInt8)) :=
  if dstLen ≠ pageSize then .ok (.error .error)
  else
    match decompressWith env algo compressed dstLen with
    | .error .oob => .error .oob
    | .error .zero => .ok (.error .error)
    | .ok bytes => if bytes.length ≠ dstLen then .ok (.error .error) else .ok (.ok bytes)

/-! ## Which codecs read back what they wrote -/

/-- The same-page decoder inverts the encoder. -/
theorem samePageDecompress_samePageCompress {src out : List UInt8} {cap : Nat}
    (h : samePageCompress src cap = .ok out) : samePageDecompress out src.length = .ok src := by
  cases src with
  | nil => cases h
  | cons b bs =>
      simp only [samePageCompress] at h
      split at h
      · cases h
      next hsame =>
        split at h
        · cases h
        next hcap =>
          rw [emit_ok (by simp; omega)] at h
          injection h with h
          have hall : bs = List.replicate bs.length b :=
            List.eq_replicate_of_mem (by simpa using hsame)
          rw [← h, List.nil_append, samePageDecompress, if_neg (by simp), List.length_cons,
            List.replicate_succ, ← hall]

/-- The LZ4 wrapper inverts itself when the library does. -/
theorem lz4Decompress_lz4Compress {lz4 : Lz4} (hlz4 : lz4.RoundTrips) {wrkmem : Bool}
    {src out : List UInt8} {cap : Nat} (h : lz4Compress lz4 wrkmem src cap = .ok out) :
    lz4Decompress lz4 out src.length = .ok src := by
  unfold lz4Compress at h
  split at h
  · cases h
  next hargs =>
    split at h
    · cases h
    split at h
    · cases h
    next bytes hbytes =>
      split at h
      · cases h
      next hsize =>
        injection h with h
        rw [← h, lz4Decompress, if_neg (by omega), hlz4 src cap bytes _ hbytes (Nat.le_refl _)]

/-- Where the stored bytes of a page come from. -/
theorem compressPage_ok {env : CodecEnv} {src bytes : List UInt8} {res : CompressResult}
    (h : compressPage env src = .ok (.ok (res, bytes))) :
    src.length = pageSize ∧ res = ⟨classifyPage src, src.length, bytes.length⟩ ∧
      compressWith env (classifyPage src) src compressBufSize = .ok bytes := by
  unfold compressPage at h
  split at h
  · cases h
  next hlen =>
    split at h
    · cases h
    · cases h
    next b hb =>
      split at h
      · cases h
      · injection h with h
        injection h with h
        injection h with hres hbytes
        subst hbytes
        exact ⟨by simpa using hlen, hres.symm, hb⟩

/-- The dispatch reads a page back exactly when its codec does. -/
theorem decompressPage_eq_iff {env : CodecEnv} {src bytes : List UInt8} {algo : AlgoId}
    (hlen : src.length = pageSize) :
    decompressPage env bytes algo pageSize = .ok (.ok src) ↔
      decompressWith env algo bytes pageSize = .ok src := by
  unfold decompressPage
  rw [if_neg (by simp)]
  cases hdec : decompressWith env algo bytes pageSize with
  | error e => cases e <;> simp
  | ok out =>
      by_cases hout : out.length = pageSize
      · simp [hout]
      · have hne : out ≠ src := by
          rintro rfl
          exact hout hlen
        simp [hout, hne]

/-- `km_classify_page` only names algorithms whose codec is in this repository, or LZ4. -/
theorem classifyPage_cases (data : List UInt8) :
    classifyPage data = .samePage ∨ classifyPage data = .bdi ∨ classifyPage data = .wkdm ∨
      classifyPage data = .wkdm64 ∨ classifyPage data = .lz4 := by
  unfold classifyPage
  repeat' split
  all_goals simp

/-- A page that the classifier sends to a codec other than BDI reads back. -/
theorem decompressWith_compressWith {env : CodecEnv} (hlz4 : env.lz4.RoundTrips)
    {src bytes : List UInt8} (hlen : src.length = pageSize) (hbdi : classifyPage src ≠ .bdi)
    (h : compressWith env (classifyPage src) src compressBufSize = .ok bytes) :
    decompressWith env (classifyPage src) bytes pageSize = .ok src := by
  rcases classifyPage_cases src with hc | hc | hc | hc | hc
  · rw [hc] at h ⊢
    rw [← hlen]
    exact samePageDecompress_samePageCompress h
  · exact absurd hc hbdi
  · rw [hc] at h ⊢
    exact wkdmDecompress_wkdmCompress (Nat.le_of_eq hlen) (Nat.le_of_eq hlen) h
  · rw [hc] at h ⊢
    exact wkdm64Decompress_wkdm64Compress (Nat.le_of_eq hlen) (Nat.le_of_eq hlen) h
  · rw [hc] at h ⊢
    rw [← hlen]
    exact lz4Decompress_lz4Compress hlz4 h

/-- When BDI stores a page, and that it stores at least its header. -/
theorem bdiCompress_page {src : List UInt8} (hlen : src.length = pageSize) :
    (bdiEncodedSize src < pageSize → ∃ bytes, bdiCompress src compressBufSize = .ok bytes) ∧
      ∀ bytes, bdiCompress src compressBufSize = .ok bytes →
        bdiEncodedSize src < pageSize ∧ bytes.length ≠ 0 := by
  have hd : src.length % bdiLineSize = 0 := by rw [hlen]; rfl
  have hpos : src.length ≠ 0 := by rw [hlen]; decide
  have hbuf : pageSize < compressBufSize := by decide
  rw [bdiCompress_eq]
  constructor
  · intro hsize
    exact ⟨_, if_pos ⟨hpos, hd, by omega, by omega⟩⟩
  · intro bytes h
    split at h
    next hok =>
      injection h with h
      refine ⟨by omega, ?_⟩
      rw [← h]
      simp
    · cases h

/-- What BDI stores of a page reads back exactly when each line fits. -/
theorem bdiDecompress_page_eq_iff {src bytes : List UInt8} (hlen : src.length = pageSize)
    (h : bdiCompress src compressBufSize = .ok bytes) :
    bdiDecompress bytes pageSize = .ok src ↔ ∀ line ∈ bdiLines src, BdiFits line :=
  bdiDecompress_eq_iff (by rw [hlen]; decide) h (Nat.le_of_eq hlen)

/-- A page that BDI stores and the dispatch reads back has fitting lines only. -/
theorem bdiFits_of_readBack {env : CodecEnv} {page : Page}
    (hread : ∀ res bytes, compressPage env page.bytes = .ok (.ok (res, bytes)) →
      decompressPage env (bytes.take res.compressedSize) res.algoId pageSize
        = .ok (.ok page.bytes))
    (hbdi : classifyPage page.bytes = .bdi) (hsize : bdiEncodedSize page.bytes < pageSize) :
    ∀ line ∈ bdiLines page.bytes, BdiFits line := by
  have hlen := page.length_bytes
  obtain ⟨bytes, hbytes⟩ := (bdiCompress_page hlen).1 hsize
  have hne := ((bdiCompress_page hlen).2 bytes hbytes).2
  have hstored : compressPage env page.bytes
      = .ok (.ok (⟨.bdi, page.bytes.length, bytes.length⟩, bytes)) := by
    rw [compressPage, if_neg (by simp [hlen]), hbdi]
    simp only [compressWith, hbytes, if_neg hne]
  have hback := hread _ _ hstored
  rw [List.take_length, decompressPage_eq_iff hlen] at hback
  exact (bdiDecompress_page_eq_iff hlen hbytes).1 hback

/-- A page whose lines fit if BDI stores it is read back. -/
theorem readBack_of_bdiFits {env : CodecEnv} (hlz4 : env.lz4.RoundTrips) {page : Page}
    (hfits : classifyPage page.bytes = .bdi → bdiEncodedSize page.bytes < pageSize →
      ∀ line ∈ bdiLines page.bytes, BdiFits line) {res : CompressResult} {bytes : List UInt8}
    (hstored : compressPage env page.bytes = .ok (.ok (res, bytes))) :
    decompressPage env (bytes.take res.compressedSize) res.algoId pageSize
      = .ok (.ok page.bytes) := by
  have hlen := page.length_bytes
  obtain ⟨-, rfl, hbytes⟩ := compressPage_ok hstored
  rw [List.take_length, decompressPage_eq_iff hlen]
  by_cases hbdi : classifyPage page.bytes = .bdi
  · rw [hbdi] at hbytes ⊢
    exact (bdiDecompress_page_eq_iff hlen hbytes).2
      (hfits hbdi ((bdiCompress_page hlen).2 bytes hbytes).1)
  · exact decompressWith_compressWith hlz4 hlen hbdi hbytes

/-- The dispatch reads every stored page back exactly when, for a page that goes
to BDI and is stored there, each line fits. -/
theorem compressPage_lossless_iff (env : CodecEnv) (hlz4 : env.lz4.RoundTrips) (page : Page) :
    (∀ res bytes, compressPage env page.bytes = .ok (.ok (res, bytes)) →
      decompressPage env (bytes.take res.compressedSize) res.algoId pageSize
        = .ok (.ok page.bytes)) ↔
    (classifyPage page.bytes = .bdi → bdiEncodedSize page.bytes < pageSize →
      ∀ line ∈ bdiLines page.bytes, BdiFits line) := by
  constructor
  · intro hread hbdi hsize
    exact bdiFits_of_readBack hread hbdi hsize
  · intro hfits res bytes hstored
    exact readBack_of_bdiFits hlz4 hfits hstored

/-! ## The codec the rest of the module sees -/

/-- A page codec: what `minimem_compress_page` stores of a page, and what
`minimem_decompress_page` makes of stored bytes. -/
structure Codec where
  compress : Page → Except Status (AlgoId × List UInt8)
  decompress : AlgoId → List UInt8 → Option Page

/-- What the codec stores of a page, it reads back. -/
def Codec.ReadsBack (codec : Codec) (page : Page) : Prop :=
  ∀ algo bytes, codec.compress page = .ok (algo, bytes) →
    codec.decompress algo bytes = some page

/-- What the codec stores, it reads back. -/
def Codec.RoundTrips (codec : Codec) : Prop :=
  ∀ page algo bytes, codec.compress page = .ok (algo, bytes) →
    codec.decompress algo bytes = some page

/-- The dispatch as a codec. -/
def kernelCodec (env : CodecEnv) : Codec where
  compress page :=
    match compressPage env page.bytes with
    | .ok (.ok (res, bytes)) => .ok (res.algoId, bytes)
    | .ok (.error status) => .error status
    | .error _ => .error .error
  decompress algo bytes :=
    match decompressPage env bytes algo pageSize with
    | .ok (.ok page) => if h : page.length = pageSize then some ⟨page, h⟩ else none
    | _ => none

/-- BDI does not get the page, or does not store it, or each line fits. -/
def Page.BdiSafe (page : Page) : Prop :=
  classifyPage page.bytes = .bdi → bdiEncodedSize page.bytes < pageSize →
    ∀ line ∈ bdiLines page.bytes, BdiFits line

/-- What the codec stores is what `minimem_compress_page` writes, under the id of its result. -/
theorem kernelCodec_compress_eq_iff {env : CodecEnv} {page : Page} {algo : AlgoId}
    {bytes : List UInt8} :
    (kernelCodec env).compress page = .ok (algo, bytes) ↔
      ∃ res, compressPage env page.bytes = .ok (.ok (res, bytes)) ∧ res.algoId = algo := by
  simp only [kernelCodec]
  split
  next res bytes' heq => simp [heq, and_comm]
  next status heq => simp [heq]
  next stop heq => simp [heq]

/-- What the codec reads back is what `minimem_decompress_page` writes. -/
theorem kernelCodec_decompress_eq_iff {env : CodecEnv} {page : Page} {algo : AlgoId}
    {bytes : List UInt8} :
    (kernelCodec env).decompress algo bytes = some page ↔
      decompressPage env bytes algo pageSize = .ok (.ok page.bytes) := by
  simp only [kernelCodec]
  split
  next out heq =>
    rw [heq]
    by_cases hlen : out.length = pageSize
    · rw [dif_pos hlen]
      simp [Page.ext_iff]
    · have hne : out ≠ page.bytes := by
        rintro rfl
        exact hlen page.length_bytes
      simp [hlen, hne]
  next hbad =>
    constructor
    · intro h
      cases h
    · intro h
      exact absurd h (hbad page.bytes)

/-- The dispatch reads a page back exactly when BDI keeps it. -/
theorem kernelCodec_readsBack_iff {env : CodecEnv} (hlz4 : env.lz4.RoundTrips) (page : Page) :
    (kernelCodec env).ReadsBack page ↔ page.BdiSafe := by
  constructor
  · intro hread
    refine @bdiFits_of_readBack env page ?_
    intro res bytes hstored
    obtain ⟨-, rfl, -⟩ := compressPage_ok hstored
    rw [List.take_length, ← kernelCodec_decompress_eq_iff]
    exact hread _ _ (kernelCodec_compress_eq_iff.2 ⟨_, hstored, rfl⟩)
  · intro hsafe algo bytes h
    obtain ⟨res, hstored, rfl⟩ := kernelCodec_compress_eq_iff.1 h
    have hback := readBack_of_bdiFits hlz4 hsafe hstored
    obtain ⟨-, rfl, -⟩ := compressPage_ok hstored
    rw [List.take_length] at hback
    exact kernelCodec_decompress_eq_iff.2 hback

/-- The codec that knows same-page only. -/
def samePageCodec : Codec where
  compress page :=
    match samePageCompress page.bytes compressBufSize with
    | .ok bytes => .ok (.samePage, bytes)
    | .error _ => .error .incompressible
  decompress algo bytes :=
    match algo, bytes with
    | .samePage, b :: _ => some (Page.fill b)
    | _, _ => none

/-- Same-page stores a page of one byte as that byte. -/
theorem samePageCompress_replicate (n : Nat) (b : UInt8) {cap : Nat} (hcap : 0 < cap) :
    samePageCompress (List.replicate (n + 1) b) cap = .ok [b] := by
  have hany : (List.replicate n b).any (· != b) = false := by simp
  rw [List.replicate_succ, samePageCompress, hany, if_neg (by decide), if_neg (by omega),
    emit_ok (show 0 + 1 ≤ cap from hcap), List.nil_append]

/-- A run of one byte is a same page. -/
theorem samePageCanCompress_replicate (n : Nat) (b : UInt8) :
    samePageCanCompress (List.replicate (n + 1) b) = true := by
  rw [List.replicate_succ, samePageCanCompress]
  simp

/-- A page of one byte is classified as one. -/
theorem classifyPage_fill (b : UInt8) : classifyPage (Page.fill b).bytes = .samePage := by
  rw [classifyPage, (Page.fill b).length_bytes, if_neg (by decide),
    if_pos (.inr (samePageCanCompress_replicate 4095 b))]

/-- So it is safe from BDI. -/
theorem Page.bdiSafe_fill (b : UInt8) : (Page.fill b).BdiSafe := by
  intro hbdi
  rw [classifyPage_fill] at hbdi
  cases hbdi

/-- The dispatch stores a page of one byte as that byte. -/
theorem kernelCodec_compress_fill (env : CodecEnv) (b : UInt8) :
    (kernelCodec env).compress (Page.fill b) = .ok (.samePage, [b]) := by
  have h : samePageCompress (Page.fill b).bytes compressBufSize = .ok [b] :=
    samePageCompress_replicate 4095 b (by decide)
  rw [kernelCodec_compress_eq_iff]
  refine ⟨⟨.samePage, pageSize, 1⟩, ?_, rfl⟩
  rw [compressPage, classifyPage_fill, compressWith, h, (Page.fill b).length_bytes,
    if_neg (not_not_intro rfl)]
  rfl

/-- Its byte is read back to it. -/
theorem kernelCodec_decompress_fill (env : CodecEnv) (b : UInt8) :
    (kernelCodec env).decompress .samePage [b] = some (Page.fill b) := by
  rw [kernelCodec_decompress_eq_iff, decompressPage_eq_iff (Page.fill b).length_bytes]
  rfl

/-- Same-page stores it as that byte. -/
theorem samePageCodec_compress_fill (b : UInt8) :
    samePageCodec.compress (Page.fill b) = .ok (.samePage, [b]) := by
  have h : samePageCompress (Page.fill b).bytes compressBufSize = .ok [b] :=
    samePageCompress_replicate 4095 b (by decide)
  simp only [samePageCodec, h]

/-- The same-page codec reads back what it stores. -/
theorem samePageCodec_roundTrips : samePageCodec.RoundTrips := by
  intro page algo bytes h
  simp only [samePageCodec] at h
  split at h
  next out hout =>
    simp only [Except.ok.injEq, Prod.mk.injEq] at h
    obtain ⟨rfl, rfl⟩ := h
    have hback := samePageDecompress_samePageCompress hout
    cases out with
    | nil => cases hback
    | cons b bs =>
        rw [samePageDecompress, page.length_bytes, if_neg (by decide)] at hback
        injection hback with hback
        simp only [samePageCodec, Option.some.injEq]
        exact Page.ext hback
  · cases h

/-! ## A page that comes back changed -/

/-- An environment in which LZ4 and the block classifier compress nothing. -/
def CodecEnv.incompressible : CodecEnv where
  lz4 := ⟨fun _ _ => none, fun _ _ => none⟩
  lz4Wrkmem := true
  blockClassCompress _ _ := .error .zero
  blockClassDecompress _ _ := .error .zero
  wkdmScratch := .zeroed wkdm32
  wkdm64Scratch := .zeroed wkdm64

/-- An LZ4 that gives every page up reads back what it stores. -/
theorem CodecEnv.incompressible_roundTrips : CodecEnv.incompressible.lz4.RoundTrips := by
  intro src cap out cap' h
  cases h

/-- A line padded with zeros to a page. -/
def Page.ofLine (line : List UInt8) (h : line.length = bdiLineSize) : Page where
  bytes := line ++ List.replicate (63 * bdiLineSize) 0
  length_bytes := by rw [List.length_append, h, List.length_replicate]; rfl

/-- The chunks of a run are runs. -/
theorem chunks_replicate (n k : Nat) (b : UInt8) :
    chunks n k (List.replicate (k * n) b) = List.replicate k (List.replicate n b) := by
  induction k with
  | zero => rfl
  | succ k ih =>
      rw [Nat.succ_mul, Nat.add_comm (k * n) n, ← List.replicate_append_replicate, chunks,
        take_append_of_length List.length_replicate, drop_append_of_length List.length_replicate,
        ih, List.replicate_succ]

/-- The lines of a page that begins with a line and goes on with zeros. -/
theorem bdiLines_ofLine (line : List UInt8) (h : line.length = bdiLineSize) :
    bdiLines (Page.ofLine line h).bytes
      = line :: List.replicate 63 (List.replicate bdiLineSize 0) := by
  rw [bdiLines, (Page.ofLine line h).length_bytes, show pageSize / bdiLineSize = 63 + 1 from rfl,
    Page.ofLine, chunks, take_append_of_length h, drop_append_of_length h, chunks_replicate]

/-- Its zeros are those of the line and the other 63 lines. -/
theorem zeroBytes_ofLine (line : List UInt8) (h : line.length = bdiLineSize) :
    zeroBytes (Page.ofLine line h).bytes = zeroBytes line + 63 * bdiLineSize := by
  rw [zeroBytes, Page.ofLine, List.countP_append, List.countP_replicate, zeroBytes]
  rfl

/-- Its largest byte is that of the line. -/
theorem maxByte_ofLine (line : List UInt8) (h : line.length = bdiLineSize) :
    maxByte (Page.ofLine line h).bytes = maxByte line := by
  have hzeros : ∀ (k m : Nat), (List.replicate k (0 : UInt8)).foldl
      (fun m b => if b.toNat > m then b.toNat else m) m = m := by
    intro k m
    induction k with
    | zero => rfl
    | succ k ih => simpa [List.replicate_succ] using ih
  rw [maxByte, Page.ofLine, List.foldl_append, hzeros, maxByte]

/-- A line of small bytes, padded to a page, goes to BDI. -/
theorem classifyPage_ofLine {line : List UInt8} (h : line.length = bdiLineSize)
    (hsame : samePageCanCompress (Page.ofLine line h).bytes = false)
    (hzero : zeroBytes line < bdiLineSize) (hmax : maxByte line ≤ 32) :
    classifyPage (Page.ofLine line h).bytes = .bdi := by
  have hrange : maxByte line - minByte (Page.ofLine line h).bytes ≤ 32 :=
    Nat.le_trans (Nat.sub_le _ _) hmax
  have hfew : ¬(zeroBytes line + 63 * bdiLineSize = pageSize ∨ false = true) := by
    simp only [bdiLineSize, pageSize, Bool.false_eq_true, or_false] at hzero ⊢
    omega
  have hmany : (zeroBytes line + 63 * bdiLineSize) * 256 / pageSize ≥ 128 := by
    simp only [bdiLineSize, pageSize]
    omega
  rw [classifyPage, (Page.ofLine line h).length_bytes, hsame, zeroBytes_ofLine, maxByte_ofLine,
    if_neg (by decide), if_neg hfew, if_pos hmany, if_pos hrange]

/-- A line that holds the words 32 and 256 and then zeros. -/
def farWordLine : List UInt8 := [32, 0, 0, 0, 0, 0, 0, 0, 0, 1] ++ List.replicate 54 0

theorem length_farWordLine : farWordLine.length = bdiLineSize := rfl

/-- A page of that line and zeros. -/
def farWordPage : Page := .ofLine farWordLine length_farWordLine

/-- The page with the far word goes to BDI. -/
theorem classifyPage_farWordPage : classifyPage farWordPage.bytes = .bdi :=
  classifyPage_ofLine length_farWordLine rfl (by decide) (by decide +kernel)

/-- BDI makes it smaller. -/
theorem bdiEncodedSize_farWordPage : bdiEncodedSize farWordPage.bytes < pageSize := by
  rw [bdiEncodedSize, farWordPage, bdiLines_ofLine, List.map_cons, List.map_replicate]
  decide

/-- The word 256 is at distance 224 from its base 32 and is read back as 0. -/
theorem not_bdiFits_farWordLine : ¬ BdiFits farWordLine := by
  decide

/-- The far-word page is stored and does not read back. -/
theorem compressPage_farWordPage_lossy :
    ¬ ∀ res bytes, compressPage .incompressible farWordPage.bytes = .ok (.ok (res, bytes)) →
      decompressPage .incompressible (bytes.take res.compressedSize) res.algoId pageSize
        = .ok (.ok farWordPage.bytes) := by
  intro hread
  apply not_bdiFits_farWordLine
  apply bdiFits_of_readBack hread classifyPage_farWordPage bdiEncodedSize_farWordPage
  rw [farWordPage, bdiLines_ofLine]
  exact List.mem_cons_self

/-- A line whose words are up to 32 below its base. -/
def nearWordLine : List UInt8 :=
  [32, 5, 20, 0, 31, 32, 1, 9].flatMap fun low => [low, 0, 0, 0, 0, 0, 0, 0]

theorem length_nearWordLine : nearWordLine.length = bdiLineSize := rfl

/-- A page of that line and zeros. -/
def nearWordPage : Page := .ofLine nearWordLine length_nearWordLine

/-- The page with the near word goes to BDI too. -/
theorem classifyPage_nearWordPage : classifyPage nearWordPage.bytes = .bdi :=
  classifyPage_ofLine length_nearWordLine rfl (by decide) (by decide +kernel)

/-- BDI makes it smaller as well. -/
theorem bdiEncodedSize_nearWordPage : bdiEncodedSize nearWordPage.bytes < pageSize := by
  rw [bdiEncodedSize, nearWordPage, bdiLines_ofLine, List.map_cons, List.map_replicate]
  decide

/-- All its lines are within reach of their bases. -/
theorem bdiFits_nearWordPage : ∀ line ∈ bdiLines nearWordPage.bytes, BdiFits line := by
  rw [nearWordPage, bdiLines_ofLine, List.forall_mem_cons]
  refine ⟨by decide, fun line hline => ?_⟩
  rw [List.eq_of_mem_replicate hline]
  decide

end MiniMem
