import MiniMem.Compressors.Registry

/-!
# MiniMem.Advisor

The advisor of the library, `advisor.c`: the statistics of a page, the
algorithm they suggest, and `minimem_advise_best`, which compresses the
data with each candidate into a buffer of `compress_bound` bytes and keeps
the one with the smallest result:

```
best(data)  =  the first candidate c with the least |enc_c(data)|
```

What it keeps is only the smallest if the bound of every candidate covers
what the candidate stores.  `boundSuffices_iff` says when that is so.
-/

namespace MiniMem

/-! ## Statistics -/

/-- `struct minimem_page_stats`. -/
structure PageStats where
  totalBytes : Nat
  zeroBytes : Nat
  zeroByteFracX256 : Nat
  mostCommonByte : UInt8
  mostCommonCount : Nat
  upper32ZeroCount : Nat
  smallValueCount : Nat
  smallDeltaCount : Nat
  maxByte : UInt8
  minByte : UInt8
  deriving DecidableEq, Repr

/-- The scan of the histogram: the most common byte and its count. -/
def modeByte (data : List UInt8) : UInt8 × Nat :=
  (List.range 256).foldl
    (fun m i => if data.count (UInt8.ofNat i) > m.2 then (UInt8.ofNat i, data.count (UInt8.ofNat i))
      else m) (0, 0)

/-- The bytes that differ by -16 to 15 from the byte before. -/
def smallDeltas : UInt8 → List UInt8 → Nat
  | _, [] => 0
  | prev, v :: data =>
      let delta := (v.toNat : Int) - prev.toNat
      (if delta ≥ -16 ∧ delta ≤ 15 then 1 else 0) + smallDeltas v data

/-- `minimem_analyze_page`, which divides by the length of the data. -/
def minimemAnalyzePage (data : List UInt8) : Option PageStats :=
  if data.length = 0 then none
  else
    let mode := modeByte data
    some {
      totalBytes := data.length
      zeroBytes := data.count 0
      zeroByteFracX256 := data.count 0 * 256 % 2 ^ 64 / data.length
      mostCommonByte := mode.1
      mostCommonCount := mode.2
      upper32ZeroCount :=
        if data.length ≥ 8 ∧ data.length % 8 = 0 then
          (wordsLE 8 (data.length / 8) data).countP fun w => w &&& 0xFFFFFFFF00000000 == 0
        else 0
      smallValueCount := data.countP fun v => v ≤ 0x0F || v ≥ 0xF0
      smallDeltaCount := if data.length ≥ 64 then smallDeltas (data.headD 0) data.tail else 0
      maxByte := maxVal data
      minByte := minVal data }

/-- `minimem_advise_algorithm`. -/
def minimemAdviseAlgorithm (stats : PageStats) : Int :=
  if stats.zeroByteFracX256 ≥ 250 then 0
  else if stats.mostCommonCount ≥ (stats.totalBytes + 2 ^ 64 - 4) % 2 ^ 64 then 0
  else if stats.upper32ZeroCount > stats.totalBytes / 8 / 2 then 7
  else if stats.zeroByteFracX256 ≥ 128 then 2
  else if (stats.maxByte.toNat : Int) - stats.minByte.toNat ≤ 32 then 1
  else 3

/-! ## The best candidate -/

/-- What the advisor is given: the compressors that are not the repository's own, the stack
frame of each call, and the memory that each `malloc` of a size returns. -/
structure AdvisorEnv where
  others : Nat → Compressor
  stack : Nat → StackScratch
  malloc : Nat → Nat → Option (List UInt8)

/-- The body of the loop of `minimem_advise_best`, for candidate `i`: the new `best_size` and
`best_algo`, unless an access goes outside a buffer. -/
def adviseCandidate (env : AdvisorEnv) (data : List UInt8) (i : Nat) (best : Nat × Int)
    (algoId : Int) : Option (Nat × Int) :=
  match minimemGetCompressor env.others (env.stack i) algoId with
  | none => some best
  | some c =>
      if !c.canCompress data then some best
      else
        let bound := c.compressBound data.length
        match env.malloc i bound with
        | none => some best
        | some buf =>
            match c.compress data buf bound with
            | .error .oob => none
            | .error .zero => some best
            | .ok r =>
                if r.out > 0 ∧ (best.2 = -1 ∨ r.out < best.1) then some (r.out, algoId)
                else some best

/-- The loop of `minimem_advise_best`, from candidate `i` on. -/
def adviseCandidates (env : AdvisorEnv) (data : List UInt8) :
    Nat → Nat × Int → List Int → Option (Nat × Int)
  | _, best, [] => some best
  | i, best, algoId :: algoIds => do
      let best ← adviseCandidate env data i best algoId
      adviseCandidates env data (i + 1) best algoIds

/-- `minimem_advise_best`, unless it divides by zero or an access goes outside a buffer. -/
def minimemAdviseBest (env : AdvisorEnv) (data : List UInt8) (algoIds : List Int) : Option Int := do
  let stats ← minimemAnalyzePage data
  let advised := minimemAdviseAlgorithm stats
  let best ← adviseCandidates env data 0 (0, -1) algoIds
  some (if best.2 ≥ 0 ∧ best.1 < data.length then best.2 else advised)

/-! ## Bounds -/

/-- A compressor that succeeds for some capacity succeeds for its bound, with the same size and
bytes. -/
def BoundSuffices (src : List UInt8) : Prop :=
  ∀ (a : OwnAlgo) (stack : StackScratch) (dst : List UInt8) (dstCap : Nat) (c : OutCursor),
    dstCap ≤ dst.length → (a.compressor stack).compressBound src.length ≤ dst.length →
    (a.compressor stack).compress src dst dstCap = .ok c →
    (a.compressor stack).compress src dst ((a.compressor stack).compressBound src.length) = .ok c

/-- The lines of a source that are stored in the given way. -/
def bdiLineCount (type : BdiLineType) (src : List UInt8) : Nat :=
  (bdiLines src).countP fun line => (bdiClassifyLine line).type == type

/-- The bound of the line encoder, which allows 17 bytes a line, covers what it stores of a
source that it shrinks. -/
def BdiBoundCovers (src : List UInt8) : Prop :=
  src.length = 0 ∨ src.length % bdiLineSize ≠ 0 ∨
  6 * bdiLineCount .uncompressed src ≤ 2 * bdiLineCount .zeros src + bdiLineCount .baseDelta src ∨
  63 * bdiLineCount .zeros src + 55 * bdiLineCount .baseDelta src +
    47 * bdiLineCount .baseDelta2 src ≤ bdiLineCount .uncompressed src + 4

/-- The sizes of the stored lines, by how they are stored. -/
theorem sum_length_bdiLineBytes {lines : List (List UInt8)}
    (hlen : ∀ line ∈ lines, line.length = bdiLineSize) :
    lines.length = (lines.countP fun line => (bdiClassifyLine line).type == .zeros) +
      (lines.countP fun line => (bdiClassifyLine line).type == .baseDelta) +
      (lines.countP fun line => (bdiClassifyLine line).type == .baseDelta2) +
      (lines.countP fun line => (bdiClassifyLine line).type == .uncompressed) ∧
    (lines.map fun line => (bdiLineBytes line).length).sum =
      (lines.countP fun line => (bdiClassifyLine line).type == .zeros) +
      9 * (lines.countP fun line => (bdiClassifyLine line).type == .baseDelta) +
      17 * (lines.countP fun line => (bdiClassifyLine line).type == .baseDelta2) +
      65 * (lines.countP fun line => (bdiClassifyLine line).type == .uncompressed) := by
  induction lines with
  | nil => simp
  | cons line lines ih =>
      obtain ⟨hnum, hsum⟩ := ih fun l hl => hlen l (List.mem_cons_of_mem line hl)
      have hline : line.length = 64 := hlen line List.mem_cons_self
      have hwords : (bdiWords line).length = 8 := length_wordsLE 8 bdiLineWords line
      have hsize : (bdiLineBytes line).length =
          if (bdiClassifyLine line).type = .zeros then 1
          else if (bdiClassifyLine line).type = .baseDelta then 9
          else if (bdiClassifyLine line).type = .baseDelta2 then 17 else 65 := by
        unfold bdiLineBytes
        cases (bdiClassifyLine line).type <;> simp [hwords, hline]
      simp only [List.countP_cons, List.map_cons, List.sum_cons, List.length_cons, hsize, hsum]
      cases (bdiClassifyLine line).type <;> simp <;> omega

/-- The bound of the line encoder covers what it stores when `BdiBoundCovers` says so. -/
theorem bdiBoundCovers_iff {src : List UInt8} :
    BdiBoundCovers src ↔ (OwnAlgo.bdi.Admits src → bdiEncodedSize src < src.length →
      bdiEncodedSize src ≤ minimemBdiCompressBound src.length) := by
  unfold BdiBoundCovers OwnAlgo.Admits
  by_cases hadmits : src.length ≠ 0 ∧ src.length % bdiLineSize = 0
  swap
  · exact iff_of_true (by omega) fun h => absurd h hadmits
  obtain ⟨hnum, hsum⟩ := sum_length_bdiLineBytes fun line hl => length_mem_bdiLines hadmits.2 hl
  have hmul : src.length / bdiLineSize * bdiLineSize = src.length :=
    Nat.div_mul_cancel (Nat.dvd_of_mod_eq_zero hadmits.2)
  have hlines : (bdiLines src).length = src.length / bdiLineSize := length_chunks _ _ _
  have hlen : src.length = 64 * (bdiLines src).length := by
    rw [hlines, Nat.mul_comm]
    exact hmul.symm
  have hbound : minimemBdiCompressBound src.length = 4 + 17 * (bdiLines src).length := by
    rw [minimemBdiCompressBound, if_neg (by omega), hlines, Nat.mul_comm 17]
    rfl
  rw [hbound, bdiEncodedSize]
  unfold bdiLineCount
  constructor
  · rintro (h | h | h | h) - hlt
    · exact absurd h hadmits.1
    · exact absurd hadmits.2 h
    · omega
    · omega
  · intro h
    have := h hadmits
    omega

/-- What a compressor of the repository stores of a source that it shrinks fits its bound, but
for the line encoder. -/
theorem OwnAlgo.storedSize_le_bound {a : OwnAlgo} {src : List UInt8} (stack : StackScratch)
    (hcovers : BdiBoundCovers src) (hadmits : a.Admits src) (hshrinks : a.Shrinks src) :
    a.storedSize src ≤ (a.compressor stack).compressBound src.length := by
  have hle : a ≠ .samePage → a.storedSize src < src.length := fun h => hshrinks.resolve_left h
  cases a with
  | samePage => exact Nat.le_refl 5
  | bdi => exact bdiBoundCovers_iff.1 hcovers hadmits (hle (by decide))
  | wkdm => exact Nat.le_trans (Nat.le_of_lt (hle (by decide))) (Nat.le_add_right _ 256)
  | wkdm64 => exact Nat.le_trans (Nat.le_of_lt (hle (by decide))) (Nat.le_add_right _ 512)
  | blockClass | aiFp16 | aiBf16 | aiInt8 =>
      exact Nat.le_trans (Nat.le_of_lt (hle (by decide))) (Nat.le_add_right _ 256)

theorem OwnAlgo.extent_le_storedSize (a : OwnAlgo) (src : List UInt8) :
    a.extent src ≤ a.storedSize src := by
  cases a with
  | samePage | bdi | wkdm | wkdm64 => exact Nat.zero_le _
  | blockClass | aiInt8 => exact Nat.le_refl _
  | aiFp16 | aiBf16 => exact split16Extent_le src

/-- A compressor succeeds on a source that it admits and shrinks, for a capacity that covers
what it stores. -/
theorem OwnAlgo.compress_eq_ok_iff (a : OwnAlgo) (stack : StackScratch) {src dst : List UInt8}
    {dstCap : Nat} {c : OutCursor} (hsrc : src.length ≤ 4096) (hcap : dstCap ≤ dst.length) :
    (a.compressor stack).compress src dst dstCap = .ok c ↔
      a.Admits src ∧ a.Shrinks src ∧ a.storedSize src ≤ dstCap ∧
        c = ⟨a.stored src dst ++ dst.drop (a.storedSize src), a.storedSize src⟩ := by
  rw [a.compress_eq stack hsrc hcap]
  have hextent := a.extent_le_storedSize src
  by_cases hadmits : a.Admits src
  · rw [if_neg (not_not_intro hadmits)]
    by_cases hshrinks : a.Shrinks src
    · by_cases hfit : a.storedSize src ≤ dstCap
      · rw [if_neg (by omega), if_neg (by simp [hshrinks, hfit])]
        simp [hadmits, hshrinks, hfit, eq_comm]
      · rw [if_pos (show ¬ a.Shrinks src ∨ a.storedSize src > dstCap from
          .inr (Nat.lt_of_not_le hfit))]
        refine iff_of_false ?_ fun h => hfit h.2.2.1
        split <;> simp
    · rw [if_pos (show ¬ a.Shrinks src ∨ a.storedSize src > dstCap from .inl hshrinks)]
      refine iff_of_false ?_ fun h => hshrinks h.2.1
      split <;> simp
  · rw [if_pos hadmits]
    exact iff_of_false (by simp) fun h => hadmits h.1

/-- **Bounds**: every bound suffices exactly when that of the line encoder covers what it
stores. -/
theorem boundSuffices_iff {src : List UInt8} (hsrc : src.length ≤ 4096) :
    BoundSuffices src ↔ BdiBoundCovers src := by
  constructor
  · intro h
    rw [bdiBoundCovers_iff]
    intro hadmits hshrinks
    by_contra hbig
    have hle : minimemBdiCompressBound src.length ≤ src.length := by omega
    have hrun := (@OwnAlgo.compress_eq_ok_iff .bdi .zeroed src (List.replicate src.length 0) _ _
      hsrc (Nat.le_of_eq List.length_replicate.symm)).2
      ⟨hadmits, .inr hshrinks, Nat.le_of_lt hshrinks, rfl⟩
    have hbound := h .bdi .zeroed _ _ _ (Nat.le_of_eq List.length_replicate.symm)
      (by rw [List.length_replicate]; exact hle) hrun
    rw [OwnAlgo.bdi.compress_eq_ok_iff _ hsrc (by rw [List.length_replicate]; exact hle)] at hbound
    exact hbig hbound.2.2.1
  · intro hcovers a stack dst dstCap c hcap hbound hrun
    obtain ⟨hadmits, hshrinks, -, hc⟩ := (a.compress_eq_ok_iff stack hsrc hcap).1 hrun
    exact (a.compress_eq_ok_iff stack hsrc hbound).2
      ⟨hadmits, hshrinks, a.storedSize_le_bound stack hcovers hadmits hshrinks, hc⟩

/-! ## The least size -/

/-- A size that a compressor returns for a source, with some destination and capacity. -/
def OwnAlgo.Achieves (a : OwnAlgo) (src : List UInt8) (size : Nat) : Prop :=
  ∃ (stack : StackScratch) (dst : List UInt8) (dstCap : Nat) (c : OutCursor),
    dstCap ≤ dst.length ∧ (a.compressor stack).compress src dst dstCap = .ok c ∧ c.out = size

theorem OwnAlgo.achieves_iff (a : OwnAlgo) {src : List UInt8} {size : Nat}
    (hsrc : src.length ≤ 4096) :
    a.Achieves src size ↔ a.Admits src ∧ a.Shrinks src ∧ size = a.storedSize src := by
  constructor
  · rintro ⟨stack, dst, dstCap, c, hcap, hrun, rfl⟩
    obtain ⟨hadmits, hshrinks, -, rfl⟩ := (a.compress_eq_ok_iff stack hsrc hcap).1 hrun
    exact ⟨hadmits, hshrinks, rfl⟩
  · rintro ⟨hadmits, hshrinks, rfl⟩
    exact ⟨.zeroed, List.replicate (a.storedSize src) 0, a.storedSize src, _,
      Nat.le_of_eq List.length_replicate.symm,
      (a.compress_eq_ok_iff .zeroed hsrc (Nat.le_of_eq List.length_replicate.symm)).2
        ⟨hadmits, hshrinks, Nat.le_refl _, rfl⟩, rfl⟩

/-- The best of a list of candidates has the least size that any of them achieves, whenever one
of them shrinks the source and every `malloc` succeeds. -/
def AdvisesLeast (src : List UInt8) : Prop :=
  ∀ (env : AdvisorEnv) (algos : List OwnAlgo),
    (∀ i n, ∃ buf, env.malloc i n = some buf ∧ buf.length = n) →
    (∃ a ∈ algos, ∃ size, a.Achieves src size ∧ size < src.length) →
    ∃ b ∈ algos, minimemAdviseBest env src (algos.map fun a => (a.id : Int)) = some (b.id : Int) ∧
      ∃ size, b.Achieves src size ∧ ∀ a ∈ algos, ∀ size', a.Achieves src size' → size ≤ size'

theorem OwnAlgo.canCompress_of_shrinks {a : OwnAlgo} {src : List UInt8} (stack : StackScratch)
    (hadmits : a.Admits src) (hshrinks : a.Shrinks src) :
    (a.compressor stack).canCompress src = true := by
  cases a with
  | samePage => exact hadmits
  | bdi =>
      have hlt : bdiEncodedSize src < src.length := hshrinks.resolve_left (by decide)
      obtain ⟨hnum, hsum⟩ := sum_length_bdiLineBytes fun line hl => length_mem_bdiLines hadmits.2 hl
      have hmul : src.length / bdiLineSize * bdiLineSize = src.length :=
        Nat.div_mul_cancel (Nat.dvd_of_mod_eq_zero hadmits.2)
      have hlines : (bdiLines src).length = src.length / bdiLineSize := length_chunks _ _ _
      have hsize : bdiLineSize = 64 := rfl
      rw [← hlines, hsize] at hmul
      have hsome : (bdiLines src).countP
          (fun line => (bdiClassifyLine line).type != .uncompressed) > 0 := by
        rw [gt_iff_lt, List.countP_pos_iff]
        by_contra hnone
        have hall : (bdiLines src).countP
            (fun line => (bdiClassifyLine line).type == .uncompressed) = (bdiLines src).length := by
          rw [List.countP_eq_length]
          intro line hline
          by_contra hother
          exact hnone ⟨line, hline, by simpa using hother⟩
        unfold bdiEncodedSize at hlt
        omega
      simp only [compressor, minimemBdiCanCompress]
      rw [if_neg (fun h => h.elim hadmits.1 fun hmod => hmod hadmits.2)]
      exact decide_eq_true hsome
  | wkdm | wkdm64 | blockClass | aiFp16 | aiBf16 | aiInt8 => exact canCompressUnits_iff.2 hadmits

theorem OwnAlgo.extent_le_bound {a : OwnAlgo} {src : List UInt8} (stack : StackScratch)
    (hsrc : src.length ≤ 4096) (hadmits : a.Admits src) :
    a.extent src ≤ (a.compressor stack).compressBound src.length := by
  have hfit : src.length / streamBlockSize ≤ blocksPerPage := Nat.div_le_div_right hsrc
  cases a with
  | samePage | bdi | wkdm | wkdm64 => exact Nat.zero_le _
  | blockClass =>
      have hadmits : StreamSource src := hadmits
      have hle := hadmits.streamSize_le (p := blockClassBits) (length_streamBlocks src)
        (fun _ hb => hadmits.length_mem hb) hfit
      exact Nat.le_trans hle (Nat.add_le_add_left (by decide) _)
  | aiFp16 | aiBf16 =>
      exact Nat.le_trans (split16Extent_le src)
        (Nat.le_trans (split16Size_le hadmits hfit) (Nat.add_le_add_left (by decide) _))
  | aiInt8 => exact Nat.le_trans (int8Size_le hadmits hfit) (Nat.add_le_add_left (by decide) _)

/-- One candidate: its size is kept when it is the first, or below the best so far. -/
theorem adviseCandidate_own {env : AdvisorEnv} {src : List UInt8} (hsrc : src.length ≤ 4096)
    (hcovers : BdiBoundCovers src)
    (hmalloc : ∀ i n, ∃ buf, env.malloc i n = some buf ∧ buf.length = n) (i : Nat)
    (best : Nat × Int) (a : OwnAlgo) :
    adviseCandidate env src i best a.id =
      some (if a.Admits src ∧ a.Shrinks src ∧ (best.2 = -1 ∨ a.storedSize src < best.1) then
        (a.storedSize src, (a.id : Int)) else best) := by
  obtain ⟨buf, hbuf, hlen⟩ := hmalloc i
    ((a.compressor (env.stack i)).compressBound src.length)
  have hcap := Nat.le_of_eq hlen.symm
  unfold adviseCandidate
  rw [minimemGetCompressor_id]
  by_cases hstores : a.Admits src ∧ a.Shrinks src
  · have hrun := (@OwnAlgo.compress_eq_ok_iff a (env.stack i) src buf _ _ hsrc hcap).2
      ⟨hstores.1, hstores.2, a.storedSize_le_bound _ hcovers hstores.1 hstores.2, rfl⟩
    simp only [a.canCompress_of_shrinks (env.stack i) hstores.1 hstores.2, Bool.not_true,
      Bool.false_eq_true, if_false, hbuf, hrun, a.storedSize_pos src, hstores.1, hstores.2,
      true_and]
    split <;> rfl
  · rw [if_neg fun h => hstores ⟨h.1, h.2.1⟩]
    have hzero : (a.compressor (env.stack i)).compress src buf
        ((a.compressor (env.stack i)).compressBound src.length) = .error .zero := by
      rw [a.compress_eq (env.stack i) hsrc hcap]
      by_cases hadmits : a.Admits src
      · have hextent := a.extent_le_bound (env.stack i) hsrc hadmits
        rw [if_neg (not_not_intro hadmits), if_neg (by omega),
          if_pos (.inl fun h => hstores ⟨hadmits, h⟩)]
      · rw [if_pos hadmits]
    dsimp only
    rw [hbuf]
    simp only [hzero, ite_self]

/-- What the loop knows of the candidates it has tried. -/
def BestSoFar (src : List UInt8) (done : List OwnAlgo) (best : Nat × Int) : Prop :=
  (best.2 = -1 ∧ ∀ a ∈ done, ¬ (a.Admits src ∧ a.Shrinks src)) ∨
  ∃ b ∈ done, b.Admits src ∧ b.Shrinks src ∧ best = (b.storedSize src, (b.id : Int)) ∧
    ∀ a ∈ done, a.Admits src → a.Shrinks src → b.storedSize src ≤ a.storedSize src

theorem BestSoFar.candidate {src : List UInt8} {done : List OwnAlgo} {best : Nat × Int}
    (h : BestSoFar src done best) (a : OwnAlgo) :
    BestSoFar src (done ++ [a])
      (if a.Admits src ∧ a.Shrinks src ∧ (best.2 = -1 ∨ a.storedSize src < best.1) then
        (a.storedSize src, (a.id : Int)) else best) := by
  by_cases hstores : a.Admits src ∧ a.Shrinks src
  swap
  · rw [if_neg fun h => hstores ⟨h.1, h.2.1⟩]
    obtain ⟨hbest, hnone⟩ | ⟨b, hb, hadmits, hshrinks, hbest, hleast⟩ := h
    · refine .inl ⟨hbest, fun a' ha' => ?_⟩
      obtain ha' | ha' := List.mem_append.1 ha'
      · exact hnone a' ha'
      · rw [List.mem_singleton.1 ha']
        exact hstores
    · refine .inr ⟨b, List.mem_append_left _ hb, hadmits, hshrinks, hbest, fun a' ha' h₁ h₂ => ?_⟩
      obtain ha' | ha' := List.mem_append.1 ha'
      · exact hleast a' ha' h₁ h₂
      · rw [List.mem_singleton.1 ha'] at h₁ h₂
        exact absurd ⟨h₁, h₂⟩ hstores
  obtain ⟨hbest, hnone⟩ | ⟨b, hb, hadmits, hshrinks, hbest, hleast⟩ := h
  · rw [if_pos ⟨hstores.1, hstores.2, .inl hbest⟩]
    refine .inr ⟨a, by simp, hstores.1, hstores.2, rfl, fun a' ha' h₁ h₂ => ?_⟩
    obtain ha' | ha' := List.mem_append.1 ha'
    · exact absurd ⟨h₁, h₂⟩ (hnone a' ha')
    · rw [List.mem_singleton.1 ha']
  · have hid : (b.id : Int) ≠ -1 := by omega
    subst hbest
    dsimp only
    by_cases hlt : a.storedSize src < b.storedSize src
    · rw [if_pos ⟨hstores.1, hstores.2, .inr hlt⟩]
      refine .inr ⟨a, by simp, hstores.1, hstores.2, rfl, fun a' ha' h₁ h₂ => ?_⟩
      obtain ha' | ha' := List.mem_append.1 ha'
      · exact Nat.le_trans (Nat.le_of_lt hlt) (hleast a' ha' h₁ h₂)
      · rw [List.mem_singleton.1 ha']
    · rw [if_neg fun h => h.2.2.elim hid hlt]
      refine .inr ⟨b, List.mem_append_left _ hb, hadmits, hshrinks, rfl, fun a' ha' h₁ h₂ => ?_⟩
      obtain ha' | ha' := List.mem_append.1 ha'
      · exact hleast a' ha' h₁ h₂
      · rw [List.mem_singleton.1 ha']
        exact Nat.le_of_not_lt hlt

/-- The loop over candidates, when every bound suffices. -/
theorem BestSoFar.candidates {env : AdvisorEnv} {src : List UInt8} (hsrc : src.length ≤ 4096)
    (hcovers : BdiBoundCovers src)
    (hmalloc : ∀ i n, ∃ buf, env.malloc i n = some buf ∧ buf.length = n)
    (algos : List OwnAlgo) {done : List OwnAlgo} {best : Nat × Int} (h : BestSoFar src done best)
    (i : Nat) : ∃ best', adviseCandidates env src i best (algos.map fun a => (a.id : Int)) =
      some best' ∧ BestSoFar src (done ++ algos) best' := by
  induction algos generalizing done best i with
  | nil => exact ⟨best, rfl, by simpa using h⟩
  | cons a algos ih =>
      obtain ⟨best', hrun, hbest⟩ := ih (h.candidate a) (i + 1)
      refine ⟨best', ?_, by simpa using hbest⟩
      rw [List.map_cons, adviseCandidates, adviseCandidate_own hsrc hcovers hmalloc]
      exact hrun

theorem advisesLeast_of_covers {src : List UInt8} (hsrc : src.length ≤ 4096)
    (hcovers : BdiBoundCovers src) : AdvisesLeast src := by
  rintro env algos hmalloc ⟨a, ha, size, hachieves, hlt⟩
  obtain ⟨hadmits, hshrinks, rfl⟩ := (a.achieves_iff hsrc).1 hachieves
  have hinit : BestSoFar src [] (0, -1) := .inl ⟨rfl, by simp⟩
  obtain ⟨best, hrun, hbest⟩ := BestSoFar.candidates hsrc hcovers hmalloc algos hinit 0
  rw [List.nil_append] at hbest
  obtain ⟨-, hnone⟩ | ⟨b, hb, hadmits', hshrinks', rfl, hleast⟩ := hbest
  · exact absurd ⟨hadmits, hshrinks⟩ (hnone a ha)
  have hstats : ∃ stats, minimemAnalyzePage src = some stats := by
    rw [minimemAnalyzePage, if_neg (by omega)]
    exact ⟨_, rfl⟩
  obtain ⟨stats, hstats⟩ := hstats
  refine ⟨b, hb, ?_, b.storedSize src, (b.achieves_iff hsrc).2 ⟨hadmits', hshrinks', rfl⟩, ?_⟩
  · have hsmall := hleast a ha hadmits hshrinks
    unfold minimemAdviseBest
    rw [hstats, Option.bind_eq_bind, Option.bind_some]
    dsimp only
    rw [hrun, Option.bind_eq_bind, Option.bind_some, if_pos ⟨Int.natCast_nonneg _, by omega⟩]
  · intro a' ha' size' hachieves'
    obtain ⟨h₁, h₂, rfl⟩ := (a'.achieves_iff hsrc).1 hachieves'
    exact hleast a' ha' h₁ h₂

/-- **Bounds and advice**: a compressor does as well with its bound as with any capacity, and
the best candidate is the smallest, exactly when the bound of the line encoder covers what it
stores. -/
theorem boundSuffices_and_advisesLeast_iff {src : List UInt8} (hsrc : src.length ≤ 4096) :
    (BoundSuffices src ∧ AdvisesLeast src) ↔ BdiBoundCovers src :=
  ⟨fun h => (boundSuffices_iff hsrc).1 h.1, fun h =>
    ⟨(boundSuffices_iff hsrc).2 h, advisesLeast_of_covers hsrc h⟩⟩

instance (src : List UInt8) : Decidable (BdiBoundCovers src) :=
  inferInstanceAs (Decidable (_ ∨ _ ∨ _ ∨ _))

theorem boundSuffices_zeros :
    BoundSuffices (List.replicate 64 0) ∧ AdvisesLeast (List.replicate 64 0) :=
  (@boundSuffices_and_advisesLeast_iff (List.replicate 64 0) (by simp)).2 (by decide +kernel)

/-- A line of zeros in front of a line that is stored as it is. -/
def halfZeroSource : List UInt8 := List.replicate 72 0 ++ List.replicate 56 0xFF

/-- The line encoder stores `halfZeroSource` in 70 bytes, and its bound is 38. -/
theorem not_boundSuffices_halfZero :
    ¬ ∀ src : List UInt8, src.length ≤ 4096 → BoundSuffices src ∧ AdvisesLeast src := by
  intro h
  have hlen : halfZeroSource.length ≤ 4096 := by simp [halfZeroSource]
  exact absurd ((boundSuffices_iff hlen).1 (h halfZeroSource hlen).1) (by decide +kernel)

end MiniMem
