import MiniMem.Advisor
import MiniMem.Compressors.Contract
import MiniMem.Compressors.Lz4.Roundtrip

/-!
# MiniMem.CompressFile

The example program of the library, `minimem_compress_file.c`: it reads a file
page by page, compresses each page with the compressor that the advisor names,
decompresses it again and compares,

```
file  →  page₀ ++ … ++ pageₙ,  pageᵢ  →  advise  →  compress  →  decompress  =?  pageᵢ
```

and ends at the first page that does not come back.  The `decompress` members
of the compressors are put beside their `compress` members, so that what each
pair does is said once.
-/

namespace MiniMem

/-! ## The decompress members -/

/-- The `decompress` members of the compressors that are implemented in the repository. -/
def OwnAlgo.decompress : OwnAlgo → List UInt8 → Nat → Except Stop (List UInt8)
  | .samePage => minimemSamePageDecompress
  | .bdi => bdiDecompress
  | .wkdm => wkdmDecompress
  | .wkdm64 => wkdm64Decompress
  | .blockClass => blockClassDecompress
  | .aiFp16 | .aiBf16 => decompressSplit16
  | .aiInt8 => decompressInt8

/-- What `decompress` does with the memory of its destination. -/
abbrev Decompress := List UInt8 → List UInt8 → Nat → Except Stop OutCursor

def OwnAlgo.decompressInto (a : OwnAlgo) : Decompress := fun src dst dstCap =>
  (a.decompress src dstCap).map (OutCursor.ofBytes dst)

/-- The `decompress` member of `minimemGetCompressor`; `others` are those of the LZSSE8,
Zstandard and delta compressors. -/
def minimemGetDecompress (others : Nat → Decompress) (fastDecLoop : Bool) (algoId : Nat) :
    Decompress :=
  match algoId with
  | 0 => OwnAlgo.samePage.decompressInto
  | 1 => OwnAlgo.bdi.decompressInto
  | 2 => OwnAlgo.wkdm.decompressInto
  | 3 => minimemLz4Decompress fastDecLoop
  | 7 => OwnAlgo.wkdm64.decompressInto
  | 8 => OwnAlgo.blockClass.decompressInto
  | 9 => OwnAlgo.aiFp16.decompressInto
  | 10 => OwnAlgo.aiBf16.decompressInto
  | 11 => OwnAlgo.aiInt8.decompressInto
  | id => others id

/-- The compressors that are not the repository's own, with the vendored LZ4 among them. -/
def withLz4 (others : Nat → Compressor) (id : Nat) : Compressor :=
  if id = 3 then minimemLz4Compressor else others id

section Members

variable {src dst : List UInt8} {dstCap cap : Nat} {c : OutCursor} {stack : StackScratch}

/-- A source that is one byte repeated comes back. -/
theorem minimemSamePageDecompress_samePageBytes (hsame : minimemSamePageCanCompress src = true)
    (hsrc : src.length < 2 ^ 32) (hcap : src.length ≤ cap) :
    minimemSamePageDecompress (samePageBytes src) cap = .ok src := by
  obtain ⟨b, hb, hne⟩ := minimemSamePageCanCompress_iff.1 hsame
  have hhead : src.headD 0 = b := by
    cases src with
    | nil => exact absurd rfl hne
    | cons first rest =>
        rw [List.length_cons, List.replicate_succ, List.cons.injEq] at hb
        exact hb.1
  have hlen : readAt (samePageBytes src) 1 4 = .ok (leBytes 4 src.length) := by
    have hread := readAt_append [src.headD 0] (leBytes 4 src.length) [] rfl
      (length_leBytes 4 src.length)
    rwa [List.append_nil] at hread
  have hnat : leNat (leBytes 4 src.length) = src.length := by
    rw [leNat_leBytes, Nat.mod_eq_of_lt (by simpa using hsrc)]
  rw [minimemSamePageDecompress, if_neg (by simp), hlen]
  simp only [bind, Except.bind, hnat]
  rw [if_neg (by omega), samePageBytes, readByte_ok (by simp)]
  simp only [List.getD_cons_zero]
  rw [emit_ok (by simpa using hcap), hhead, List.nil_append, ← hb]

/-- Every compressor of the repository reads back what it stored of up to a page, the one of
lines exactly when its lines fit. -/
theorem OwnAlgo.decompress_iff (a : OwnAlgo) (hsrc : src.length ≤ 4096)
    (hdst : dstCap ≤ dst.length) (hcap : src.length ≤ cap)
    (h : (a.compressor stack).compress src dst dstCap = .ok c) :
    (a.decompress c.bytes cap = .ok src ↔ (a = .bdi → ∀ line ∈ bdiLines src, BdiFits line)) ∧
      ∃ out, a.decompress c.bytes cap = .ok out := by
  have hok (hne : a ≠ .bdi) (hback : a.decompress c.bytes cap = .ok src) :
      (a.decompress c.bytes cap = .ok src ↔
        (a = .bdi → ∀ line ∈ bdiLines src, BdiFits line)) ∧
      ∃ out, a.decompress c.bytes cap = .ok out :=
    ⟨iff_of_true hback fun heq => absurd heq hne, src, hback⟩
  cases a with
  | samePage =>
      refine hok (by decide) ?_
      change minimemSamePageCompress src dst dstCap = .ok c at h
      rw [minimemSamePageCompress_eq src hdst] at h
      split at h
      next hstores =>
        have hbytes : c.bytes = samePageBytes src := by
          rw [← Except.ok.inj h, OutCursor.bytes, take_append_of_length (by simp)]
        rw [hbytes]
        exact minimemSamePageDecompress_samePageBytes hstores.1 (by omega) hcap
      next => cases h
  | bdi =>
      have hrun := eq_ok_of_map_ofBytes h
      have hn : src.length / bdiLineSize < 2 ^ 32 := by
        have hle := Nat.div_le_self src.length bdiLineSize
        omega
      simp only [decompress, bdiDecompress_eq_iff hn hrun hcap, forall_const, true_and]
      exact ⟨_, bdiDecompress_bdiCompress hn hrun hcap⟩
  | wkdm => exact hok (by decide) (wkdmDecompress_wkdmCompress hsrc hcap (eq_ok_of_map_ofBytes h))
  | wkdm64 => exact hok (by decide) (wkdm64Decompress_wkdm64Compress hsrc hcap (eq_ok_of_map_ofBytes h))
  | blockClass => exact hok (by decide) (blockClassDecompress_blockClassCompress h hcap)
  | aiFp16 | aiBf16 => exact hok (by decide) (decompressSplit16_compressSplit16 hdst h hcap)
  | aiInt8 => exact hok (by decide) (decompressInt8_compressInt8 h hcap)

end Members

/-! ## The program -/

/-- The surroundings of the program: the compressors that it does not meet, the build of LZ4, the
stack of each call and what its two buffers hold when page `i` is reached. -/
structure FileEnv where
  others : Nat → Compressor
  otherDecompress : Nat → Decompress
  fastDecLoop : Bool
  stack : Nat → StackScratch
  dst : Nat → List UInt8
  dec : Nat → List UInt8
  length_dst : ∀ i, (dst i).length = 4096 * 2
  length_dec : ∀ i, (dec i).length = 4096

/-- The counters of `main`.  `pages`, `incompressible` and `algo_counts` are `int`s there, which
have room for the files of fewer than 2^31 pages (`compressFile_spec`). -/
structure FileCounts where
  totalOriginal : Nat
  totalCompressed : Nat
  pages : Nat
  incompressible : Nat
  algoCounts : Nat → Nat

/-- The ways in which `main` does not get to its report. -/
inductive FileStop where
  | empty
  | outside
  | roundtrip (page : Nat)
  deriving DecidableEq, Repr

/-- A page that is not stored. -/
def FileCounts.skip (s : FileCounts) (n : Nat) : FileCounts :=
  { s with
    incompressible := s.incompressible + 1
    totalOriginal := s.totalOriginal + n
    pages := s.pages + 1 }

/-- A page that `algo` stored in `size` bytes. -/
def FileCounts.store (s : FileCounts) (algo size : Nat) : FileCounts :=
  { s with
    totalOriginal := s.totalOriginal + 4096
    totalCompressed := s.totalCompressed + size
    algoCounts := Function.update s.algoCounts algo (s.algoCounts algo + 1)
    pages := s.pages + 1 }

/-- The page that `main` makes of what `fread` gave it. -/
def padPage (bytes : List UInt8) : List UInt8 := bytes ++ List.replicate (4096 - bytes.length) 0

/-- The body of the loop of `main`, for what `fread` gave it. -/
def compressFilePage (env : FileEnv) (s : FileCounts) (bytes : List UInt8) :
    Except FileStop FileCounts :=
  let src := padPage bytes
  match minimemAnalyzePage src with
  | none => .error .outside
  | some stats =>
      let algo := minimemAdviseAlgorithm stats
      match minimemGetCompressor (withLz4 env.others) (env.stack s.pages) algo with
      | none => .ok (s.skip bytes.length)
      | some c =>
          match c.compress src (env.dst s.pages) (4096 * 2) with
          | .error .oob => .error .outside
          | .error .zero => .ok (s.skip bytes.length)
          | .ok r =>
              if r.out = 0 ∨ r.out ≥ 4096 then .ok (s.skip bytes.length)
              else
                match minimemGetDecompress env.otherDecompress env.fastDecLoop algo.toNat r.bytes
                  (env.dec s.pages) 4096 with
                | .error .oob => .error .outside
                | .error .zero => .error (.roundtrip s.pages)
                | .ok d =>
                    if d.out ≠ 4096 ∨ d.dst.take 4096 ≠ src then .error (.roundtrip s.pages)
                    else .ok (s.store algo.toNat r.out)

/-- The loop of `main`. -/
def compressFilePages (env : FileEnv) : FileCounts → List (List UInt8) → Except FileStop FileCounts
  | s, [] => .ok s
  | s, bytes :: rest => do
      let s ← compressFilePage env s bytes
      compressFilePages env s rest

/-- What the calls of `fread` give for a file. -/
def filePages (data : List UInt8) : List (List UInt8) :=
  chunks 4096 ((data.length + 4095) / 4096) data

/-- `main`, once it has the file and its buffers. -/
def compressFile (env : FileEnv) (data : List UInt8) : Except FileStop FileCounts :=
  if data.length = 0 then .error .empty
  else compressFilePages env ⟨0, 0, 0, 0, fun _ => 0⟩ (filePages data)

/-! ## One page -/

@[simp] theorem length_padPage {bytes : List UInt8} (h : bytes.length ≤ 4096) :
    (padPage bytes).length = 4096 := by
  simp [padPage]
  omega

/-- The advisor names one of five compressors. -/
theorem advised (stats : PageStats) :
    (∃ a : OwnAlgo, (a = .samePage ∨ a = .bdi ∨ a = .wkdm ∨ a = .wkdm64) ∧
      minimemAdviseAlgorithm stats = a.id) ∨ minimemAdviseAlgorithm stats = 3 := by
  unfold minimemAdviseAlgorithm
  split
  · exact .inl ⟨.samePage, by simp [OwnAlgo.id]⟩
  split
  · exact .inl ⟨.samePage, by simp [OwnAlgo.id]⟩
  split
  · exact .inl ⟨.wkdm64, by simp [OwnAlgo.id]⟩
  split
  · exact .inl ⟨.wkdm, by simp [OwnAlgo.id]⟩
  split
  · exact .inl ⟨.bdi, by simp [OwnAlgo.id]⟩
  · exact .inr rfl

/-- The advisor's choice for a page, if that is of any bytes. -/
def advisedFor (page : List UInt8) : Option Int :=
  (minimemAnalyzePage page).map minimemAdviseAlgorithm

/-- Where the page is one for the compressor of lines and is stored, its lines fit. -/
def PageFits (page : List UInt8) : Prop :=
  advisedFor page = some 1 → bdiEncodedSize page < 4096 → ∀ line ∈ bdiLines page, BdiFits line

instance (page : List UInt8) : Decidable (PageFits page) :=
  inferInstanceAs (Decidable (_ → _))

/-- What the loop can make of a page: it is skipped, it is stored and comes back, or it is
stored and does not. -/
inductive PageOutcome (s : FileCounts) (bytes : List UInt8) : Except FileStop FileCounts → Prop
  | skip (hfits : PageFits (padPage bytes)) : PageOutcome s bytes (.ok (s.skip bytes.length))
  | store (hfits : PageFits (padPage bytes)) (algo size : Nat) (halgo : algo < 12)
      (hsize : size < 4096) : PageOutcome s bytes (.ok (s.store algo size))
  | lost (hlost : ¬PageFits (padPage bytes)) : PageOutcome s bytes (.error (.roundtrip s.pages))

section Page

variable {env : FileEnv} {s : FileCounts} {bytes : List UInt8} {stats : PageStats}

/-- A page of a compressor that is not the one of lines fits. -/
theorem pageFits_of_id {a : OwnAlgo} {page : List UInt8}
    (hstats : minimemAnalyzePage page = some stats) (halgo : minimemAdviseAlgorithm stats = a.id)
    (h : a = .bdi → bdiEncodedSize page < 4096 → ∀ line ∈ bdiLines page, BdiFits line) :
    PageFits page := by
  intro hadvised
  rw [advisedFor, hstats, Option.map_some, halgo, Option.some.injEq] at hadvised
  refine h ?_
  cases a <;> first | rfl | cases hadvised

/-- The comparison of a page with what has come back of it. -/
theorem ofBytes_ne_iff {page dec out : List UInt8} (hlen : page.length = 4096) :
    ((OutCursor.ofBytes dec out).out ≠ 4096 ∨ (OutCursor.ofBytes dec out).dst.take 4096 ≠ page) ↔
      out ≠ page := by
  simp only [OutCursor.ofBytes]
  constructor
  · intro h heq
    rw [heq, ← hlen, List.take_left] at h
    simp at h
  · intro hne
    by_cases hout : out.length = 4096
    · refine .inr ?_
      rw [← hout, List.take_left]
      exact hne
    · exact .inl hout

/-- A page that an own compressor is named for. -/
theorem compressFilePage_own {a : OwnAlgo} (hbytes : bytes.length ≤ 4096)
    (hstats : minimemAnalyzePage (padPage bytes) = some stats)
    (ha : a = .samePage ∨ a = .bdi ∨ a = .wkdm ∨ a = .wkdm64)
    (halgo : minimemAdviseAlgorithm stats = a.id) :
    PageOutcome s bytes (compressFilePage env s bytes) := by
  have hlen := length_padPage hbytes
  have hdst : 4096 * 2 ≤ (env.dst s.pages).length := (env.length_dst s.pages).ge
  have hextent : a.extent (padPage bytes) = 0 := by
    obtain rfl | rfl | rfl | rfl := ha <;> rfl
  have hget : minimemGetDecompress env.otherDecompress env.fastDecLoop a.id = a.decompressInto := by
    obtain rfl | rfl | rfl | rfl := ha <;> rfl
  have hid : a.id < 12 := by
    obtain rfl | rfl | rfl | rfl := ha <;> decide
  have hcompress := a.compress_eq (env.stack s.pages) hlen.le hdst
  rw [hextent, if_neg (Nat.not_lt_zero _)] at hcompress
  simp only [compressFilePage, hstats, halgo, minimemGetCompressor_id]
  split at hcompress
  next hadmits =>
    rw [hcompress]
    refine .skip (pageFits_of_id hstats halgo fun heq => absurd ?_ hadmits)
    rw [heq]
    exact ⟨by omega, by rw [hlen]; rfl⟩
  next hadmits =>
    split at hcompress
    next hstores =>
      rw [hcompress]
      refine .skip (pageFits_of_id hstats halgo fun heq hsmall => absurd hstores ?_)
      rw [heq, not_or, not_not, gt_iff_lt, Nat.not_lt]
      exact ⟨.inr (by rwa [hlen]), by simp only [OwnAlgo.storedSize]; omega⟩
    next hstores =>
      rw [not_or, not_not, gt_iff_lt, Nat.not_lt] at hstores
      have hpos := a.storedSize_pos (padPage bytes)
      have hsmall : a.storedSize (padPage bytes) < 4096 := by
        obtain hsame | hlt := hstores.1
        · rw [hsame]
          exact (by decide : 5 < 4096)
        · omega
      obtain ⟨hiff, out, hout⟩ := a.decompress_iff hlen.le hdst hlen.le hcompress
      have hfits : PageFits (padPage bytes) ↔
          (a = .bdi → ∀ line ∈ bdiLines (padPage bytes), BdiFits line) := by
        refine ⟨fun h heq => ?_, fun h => pageFits_of_id hstats halgo fun heq _ => h heq⟩
        subst heq
        exact h (by rw [advisedFor, hstats, Option.map_some, halgo]; rfl) hsmall
      rw [← hfits, hout, Except.ok.injEq] at hiff
      rw [hcompress]
      simp only [Int.toNat_natCast, hget, OwnAlgo.decompressInto, hout, Except.map]
      rw [if_neg (by omega)]
      by_cases hsame : out = padPage bytes
      · rw [if_neg (by rw [ofBytes_ne_iff hlen]; exact not_not_intro hsame)]
        exact .store (hiff.1 hsame) _ _ hid hsmall
      · rw [if_pos ((ofBytes_ne_iff hlen).2 hsame)]
        exact .lost fun h => hsame (hiff.2 h)

/-- A page that LZ4 is named for. -/
theorem compressFilePage_lz4 (hbytes : bytes.length ≤ 4096)
    (hstats : minimemAnalyzePage (padPage bytes) = some stats)
    (halgo : minimemAdviseAlgorithm stats = 3) :
    PageOutcome s bytes (compressFilePage env s bytes) := by
  have hlen := length_padPage hbytes
  have hfits : PageFits (padPage bytes) := by
    intro hadvised
    rw [advisedFor, hstats, Option.map_some, halgo] at hadvised
    cases hadvised
  have hget : minimemGetCompressor (withLz4 env.others) (env.stack s.pages) 3
      = some minimemLz4Compressor := rfl
  have hread : minimemGetDecompress env.otherDecompress env.fastDecLoop (Int.toNat 3)
      = minimemLz4Decompress env.fastDecLoop := rfl
  have hdst := env.length_dst s.pages
  have hdec := env.length_dec s.pages
  simp only [compressFilePage, hstats, halgo, hget, minimemLz4Compressor]
  rw [← hdst]
  obtain ⟨hzero, -⟩ | ⟨dst', hrun, -, hpre, hlt, -⟩ :=
    @minimemLz4Compress_ok (padPage bytes) (env.dst s.pages) (by omega) (by omega)
  · rw [hzero]
    exact .skip hfits
  · have hbytes' : OutCursor.bytes ⟨dst', (lz4Encoded (padPage bytes)).length⟩
        = lz4Encoded (padPage bytes) := (List.prefix_iff_eq_take.1 hpre).symm
    have hpos : 0 < (lz4Encoded (padPage bytes)).length := by
      simp [lz4Encoded, Lz4Block.bytes, lastBytes]
    obtain ⟨back', hback', htake⟩ := @minimemLz4Decompress_lz4Encoded env.fastDecLoop
      (padPage bytes) (env.dec s.pages) hlt (by omega) (by omega)
    rw [hlen] at hlt htake hback'
    rw [hdec] at hback'
    rw [hrun]
    simp only [hbytes', hread, hback']
    rw [if_neg (by omega), if_neg (by simp [htake])]
    exact .store hfits 3 _ (by decide) hlt

/-- **One page**: it is skipped, or it comes back, or it is one of lines that do not fit. -/
theorem compressFilePage_outcome (env : FileEnv) (s : FileCounts) (hbytes : bytes.length ≤ 4096) :
    PageOutcome s bytes (compressFilePage env s bytes) := by
  have hlen := length_padPage hbytes
  obtain ⟨stats, hstats⟩ : ∃ stats, minimemAnalyzePage (padPage bytes) = some stats := by
    rw [minimemAnalyzePage, if_neg (by omega)]
    exact ⟨_, rfl⟩
  obtain ⟨a, ha, halgo⟩ | halgo := advised stats
  · exact compressFilePage_own hbytes hstats ha halgo
  · exact compressFilePage_lz4 hbytes hstats halgo

end Page

/-! ## The whole file -/

/-- The pages that some compressor stored. -/
def FileCounts.stored (s : FileCounts) : Nat := ((List.range 12).map s.algoCounts).sum

/-- The counters before and after some pages. -/
structure CountsGrow (s r : FileCounts) (reads : List (List UInt8)) : Prop where
  pages : r.pages = s.pages + reads.length
  tally : r.incompressible + r.stored = s.incompressible + s.stored + reads.length
  original : s.totalOriginal + (reads.map List.length).sum ≤ r.totalOriginal
  padded : r.totalOriginal ≤ s.totalOriginal + 4096 * reads.length
  compressed : r.totalCompressed + 4095 * s.stored ≤ s.totalCompressed + 4095 * r.stored
  algos : ∀ algo, r.algoCounts algo ≤ s.algoCounts algo + reads.length

/-- What the loop can make of the pages that are left. -/
inductive FileOutcome (s : FileCounts) (reads : List (List UInt8)) :
    Except FileStop FileCounts → Prop
  | done (r : FileCounts) (hfits : ∀ bytes ∈ reads, PageFits (padPage bytes))
      (hgrow : CountsGrow s r reads) : FileOutcome s reads (.ok r)
  | lost (pre : List (List UInt8)) (bytes : List UInt8) (post : List (List UInt8))
      (hreads : reads = pre ++ bytes :: post) (hpre : ∀ bytes ∈ pre, PageFits (padPage bytes))
      (hlost : ¬PageFits (padPage bytes)) :
      FileOutcome s reads (.error (.roundtrip (s.pages + pre.length)))

section File

variable {s s' r : FileCounts} {reads : List (List UInt8)} {bytes : List UInt8}

theorem CountsGrow.refl (s : FileCounts) : CountsGrow s s [] := by
  constructor <;> simp

theorem CountsGrow.cons (hfirst : CountsGrow s s' [bytes]) (hrest : CountsGrow s' r reads) :
    CountsGrow s r (bytes :: reads) := by
  obtain ⟨hpages, htally, horiginal, hpadded, hcompressed, halgos⟩ := hfirst
  obtain ⟨hpages', htally', horiginal', hpadded', hcompressed', halgos'⟩ := hrest
  simp only [List.length_singleton, List.map_singleton, List.sum_singleton] at *
  constructor
  · rw [List.length_cons]
    omega
  · rw [List.length_cons]
    omega
  · rw [List.map_cons, List.sum_cons]
    omega
  · rw [List.length_cons]
    omega
  · omega
  · intro algo
    have hle := halgos algo
    have hle' := halgos' algo
    rw [List.length_cons]
    omega

theorem countsGrow_skip (hbytes : bytes.length ≤ 4096) :
    CountsGrow s (s.skip bytes.length) [bytes] where
  pages := rfl
  tally := Nat.add_right_comm _ _ _
  original := by simp [FileCounts.skip]
  padded := by simpa [FileCounts.skip] using hbytes
  compressed := Nat.le_refl _
  algos _ := Nat.le_add_right _ _

/-- One of the twelve counts goes up. -/
theorem stored_store {algo : Nat} (halgo : algo < 12) (size : Nat) :
    (s.store algo size).stored = s.stored + 1 := by
  have hsplit := List.perm_cons_erase (List.mem_range.2 halgo)
  have hrest : ((List.range 12).erase algo).map (s.store algo size).algoCounts
      = ((List.range 12).erase algo).map s.algoCounts := by
    refine List.map_congr_left fun i hi => Function.update_of_ne ?_ _ _
    exact (List.nodup_range.mem_erase_iff.1 hi).1
  have hat : (s.store algo size).algoCounts algo = s.algoCounts algo + 1 :=
    Function.update_self _ _ _
  simp only [FileCounts.stored, (hsplit.map _).sum_eq, List.map_cons, List.sum_cons, hrest, hat]
  omega

theorem countsGrow_store {algo size : Nat} (hbytes : bytes.length ≤ 4096) (halgo : algo < 12)
    (hsize : size < 4096) : CountsGrow s (s.store algo size) [bytes] where
  pages := rfl
  tally := by
    rw [stored_store halgo]
    exact (Nat.add_assoc _ _ _).symm
  original := by simpa [FileCounts.store] using hbytes
  padded := Nat.le_refl _
  compressed := by
    rw [stored_store halgo]
    simp only [FileCounts.store]
    omega
  algos other := by
    simp only [FileCounts.store, List.length_singleton]
    by_cases hother : other = algo
    · rw [hother, Function.update_self]
    · rw [Function.update_of_ne hother]
      omega

/-- **The loop**: it gets through the pages that come back and ends at the first that does
not. -/
theorem compressFilePages_outcome (env : FileEnv) (hreads : ∀ bytes ∈ reads, bytes.length ≤ 4096) :
    FileOutcome s reads (compressFilePages env s reads) := by
  induction reads generalizing s with
  | nil => exact .done s nofun (.refl s)
  | cons bytes reads ih =>
      obtain ⟨hbytes, hrest⟩ := List.forall_mem_cons.1 hreads
      have hnext {s' : FileCounts} (hfits : PageFits (padPage bytes))
          (hgrow : CountsGrow s s' [bytes]) :
          FileOutcome s (bytes :: reads) (compressFilePages env s' reads) := by
        have hloop := ih (s := s') hrest
        generalize compressFilePages env s' reads = run at hloop
        cases hloop with
        | done r hall hgrow' =>
            exact .done r (List.forall_mem_cons.2 ⟨hfits, hall⟩) (hgrow.cons hgrow')
        | lost pre lost post heq hpre hlost =>
            have hpages : s'.pages + pre.length = s.pages + (bytes :: pre).length := by
              rw [hgrow.pages, List.length_singleton, List.length_cons]
              omega
            rw [hpages]
            exact .lost (bytes :: pre) lost post (by rw [heq]; rfl)
              (List.forall_mem_cons.2 ⟨hfits, hpre⟩) hlost
      rw [compressFilePages]
      have hpage := compressFilePage_outcome env s hbytes
      generalize compressFilePage env s bytes = run at hpage
      cases hpage with
      | skip hfits => exact hnext hfits (countsGrow_skip hbytes)
      | store hfits algo size halgo hsize => exact hnext hfits (countsGrow_store hbytes halgo hsize)
      | lost hlost => exact .lost [] bytes reads rfl nofun hlost

end File

/-- The chunks of a buffer that they cover hold its bytes. -/
theorem flatten_chunks_of_le (n k : Nat) {bs : List UInt8} (h : bs.length ≤ k * n) :
    (chunks n k bs).flatten = bs := by
  induction k generalizing bs with
  | zero =>
      have hnil : bs = [] := List.length_eq_zero_iff.1 (by omega)
      simp [chunks, hnil]
  | succ k ih =>
      have hdrop : (bs.drop n).length ≤ k * n := by
        rw [List.length_drop]
        rw [Nat.succ_mul] at h
        omega
      rw [chunks, List.flatten_cons, ih hdrop, List.take_append_drop]

theorem length_le_of_mem_chunks {n k : Nat} {bs c : List UInt8} (h : c ∈ chunks n k bs) :
    c.length ≤ n := by
  induction k generalizing bs with
  | zero => simp [chunks] at h
  | succ k ih =>
      rw [chunks, List.mem_cons] at h
      obtain rfl | h := h
      · simp
      · exact ih h

/-- **The program**: it reports on a file exactly when every page fits, and otherwise ends at the
first that does not; in no case does it leave a buffer.  Its counters then agree: each page is
skipped or stored, a stored page counts in full, and no page is stored in 4096 bytes.  In a file
of fewer than 2^31 pages no counter of pages leaves its `int`. -/
theorem compressFile_spec (env : FileEnv) {data : List UInt8}
    (hsize : data.length ≤ 4096 * (2 ^ 31 - 1)) :
    ((∃ r, compressFile env data = .ok r) ↔
      data ≠ [] ∧ ∀ bytes ∈ filePages data, PageFits (padPage bytes)) ∧
    (∀ r, compressFile env data = .ok r → r.pages = (data.length + 4095) / 4096 ∧
      r.incompressible + r.stored = r.pages ∧
      data.length ≤ r.totalOriginal ∧ r.totalOriginal < data.length + 4096 ∧
      r.totalCompressed ≤ 4095 * r.stored ∧
      r.pages < 2 ^ 31 ∧ r.incompressible < 2 ^ 31 ∧ ∀ algo, r.algoCounts algo < 2 ^ 31) ∧
    ∀ e, compressFile env data = .error e → data = [] ∧ e = .empty ∨
      ∃ pre bytes post, filePages data = pre ++ bytes :: post ∧
        (∀ bytes ∈ pre, PageFits (padPage bytes)) ∧ ¬PageFits (padPage bytes) ∧
        e = .roundtrip pre.length ∧ pre.length < 2 ^ 31 := by
  by_cases hempty : data.length = 0
  · have hnil : data = [] := List.length_eq_zero_iff.1 hempty
    have hrun : compressFile env data = .error .empty := by rw [compressFile, if_pos hempty]
    rw [hrun]
    refine ⟨iff_of_false (by simp) (by simp [hnil]), by simp, fun e he => .inl ⟨hnil, ?_⟩⟩
    exact (Except.error.inj he).symm
  · have hne : data ≠ [] := fun hnil => hempty (by rw [hnil]; rfl)
    have hreads : ∀ bytes ∈ filePages data, bytes.length ≤ 4096 :=
      fun bytes hmem => length_le_of_mem_chunks hmem
    have hsum : ((filePages data).map List.length).sum = data.length := by
      have hcover : data.length ≤ (data.length + 4095) / 4096 * 4096 := by clear hsize; omega
      rw [← List.length_flatten, filePages, flatten_chunks_of_le _ _ hcover]
    have hcount : (filePages data).length = (data.length + 4095) / 4096 := length_chunks _ _ _
    have houtcome := compressFilePages_outcome (s := ⟨0, 0, 0, 0, fun _ => 0⟩) env hreads
    rw [compressFile, if_neg hempty]
    generalize compressFilePages env ⟨0, 0, 0, 0, fun _ => 0⟩ (filePages data) = run at houtcome
    cases houtcome with
    | done r hfits hgrow =>
        have hstart : (⟨0, 0, 0, 0, fun _ => 0⟩ : FileCounts).stored = 0 := by decide
        obtain ⟨hpages, htally, horiginal, hpadded, hcompressed, halgos⟩ := hgrow
        rw [hsum] at horiginal
        simp only [hstart, hcount] at hpages htally hpadded hcompressed horiginal halgos
        have hints : ∀ algo, r.algoCounts algo < 2 ^ 31 := by
          intro algo
          have hle := halgos algo
          omega
        refine ⟨iff_of_true ⟨r, rfl⟩ ⟨hne, hfits⟩, fun r' hr' => ?_, nofun⟩
        rw [← Except.ok.inj hr']
        refine ⟨by omega, by omega, by omega, by omega, by omega, by omega, by omega, hints⟩
    | lost pre bytes post heq hpre hlost =>
        refine ⟨iff_of_false (by simp) fun h => hlost (h.2 bytes (by simp [heq])), nofun,
          fun e he => .inr ⟨pre, bytes, post, heq, hpre, hlost, ?_, ?_⟩⟩
        · rw [← Except.error.inj he, Nat.zero_add]
        · rw [heq, List.length_append, List.length_cons] at hcount
          omega

/-- Buffers of zeros, and no compressors but the repository's and LZ4. -/
def FileEnv.zeroed : FileEnv where
  others id := ⟨id, fun _ _ _ => .error .zero, fun n => n, fun _ => false⟩
  otherDecompress _ _ _ _ := .error .zero
  fastDecLoop := true
  stack _ := .zeroed
  dst _ := List.replicate (4096 * 2) 0
  dec _ := List.replicate 4096 0
  length_dst _ := List.length_replicate
  length_dec _ := List.length_replicate

/-- A page of sevens and one more byte. -/
def sevensFile : List UInt8 := List.replicate 4096 7 ++ [5]

theorem length_sevensFile : sevensFile.length = 4097 := by
  rw [sevensFile, List.length_append, List.length_replicate, List.length_singleton]

/-- Both pages of the file are reported on. -/
theorem compressFile_spec_sevens : sevensFile.length ≤ 4096 * (2 ^ 31 - 1) ∧
    ∃ r, compressFile .zeroed sevensFile = .ok r ∧ r.pages = 2 ∧
      r.incompressible + r.stored = r.pages ∧ r.totalCompressed ≤ 4095 * r.stored := by
  have hsize : sevensFile.length ≤ 4096 * (2 ^ 31 - 1) := by
    rw [length_sevensFile]
    norm_num
  have hne : sevensFile ≠ [] := by
    rw [← List.length_pos_iff, length_sevensFile]
    norm_num
  have hlines : ∀ bytes ∈ filePages sevensFile, ∀ line ∈ bdiLines (padPage bytes),
      BdiFits line := by
    decide +kernel
  obtain ⟨hreports, hcounts, -⟩ := compressFile_spec .zeroed hsize
  obtain ⟨r, hr⟩ := hreports.2 ⟨hne, fun bytes hmem _ _ => hlines bytes hmem⟩
  obtain ⟨hpages, htally, -, -, hcompressed, -⟩ := hcounts r hr
  rw [length_sevensFile] at hpages
  exact ⟨hsize, r, hr, hpages, htally, hcompressed⟩

end MiniMem
