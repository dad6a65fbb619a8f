import MiniMem.Compressors.Lz4.Roundtrip
import MiniMem.Compressors.BlockClass

/-!
# MiniMem.Kernel.Incompressible

When `minimem_compress_page` gives a page up.  `km_classify_page` commits to
one algorithm by the byte statistics of the page, and the dispatch reports
`MINIMEM_INCOMPRESSIBLE` as soon as that one stores nothing; the header says
that it does so if *no* algorithm can compress the page.

`Page.StoredBy` is what each algorithm stores as a condition on the page.
Pages that go to same-page or WKdm-64 are always stored, and the block
classifier stores all those that go to BDI; pages that go to WKdm or LZ4 can
be given up while another algorithm stores them.
-/

namespace MiniMem

/-! ## What each algorithm stores -/

/-- The environment with the block classifier of the library, over what the per-CPU buffer
holds. -/
def CodecEnv.withBlockClass (env : CodecEnv) (buf : List UInt8) : CodecEnv where
  lz4 := env.lz4
  lz4Wrkmem := env.lz4Wrkmem
  blockClassCompress src dstCap := (MiniMem.blockClassCompress src buf dstCap).map OutCursor.bytes
  blockClassDecompress := MiniMem.blockClassDecompress
  wkdmScratch := env.wkdmScratch
  wkdm64Scratch := env.wkdm64Scratch

/-- The size of what the WKdm encoders store of a source: the header, two bits a word, a byte
for each exact hit, and the partial and missed words. -/
def wkdmSize (p : WkdmParams) (src : List UInt8) : Nat :=
  12 + (src.length / p.wordBytes + 3) / 4 + codeCount 1 (wkdmSourceTokens p src) +
    codeCount 2 (wkdmSourceTokens p src) * p.partialBytes +
    codeCount 3 (wkdmSourceTokens p src) * p.wordBytes

/-- An algorithm of the dispatch stores the page. -/
def Page.StoredBy (env : CodecEnv) (page : Page) : AlgoId → Prop
  | .samePage => samePageCanCompress page.bytes = true
  | .bdi => bdiEncodedSize page.bytes < pageSize
  | .wkdm => wkdmSize wkdm32 page.bytes < pageSize
  | .wkdm64 => wkdmSize wkdm64 page.bytes < pageSize
  | .blockClass => blockClassSize page.bytes < pageSize
  | .lz4 => env.lz4Wrkmem = true ∧
      ∃ out, env.lz4.compressDefault page.bytes compressBufSize = some out ∧
        out.length ≠ 0 ∧ out.length < pageSize
  | _ => False

/-- An algorithm of the dispatch compresses the page to a non-zero size with the per-CPU
buffer. -/
def Page.CompressedBy (env : CodecEnv) (page : Page) (algo : AlgoId) : Prop :=
  ∃ bytes, compressWith env algo page.bytes compressBufSize = .ok bytes ∧ bytes.length ≠ 0

theorem length_wkdmEncode_source (p : WkdmParams) (src : List UInt8) :
    (wkdmEncode p (wkdmSourceTokens p src)).length = wkdmSize p src := by
  rw [length_wkdmEncode, length_wkdmSourceTokens, wkdmSize]

theorem wkdmCompressImpl_page_iff {p : WkdmParams} (scratch : WkdmScratch p) {page : Page}
    (hunit : pageSize % p.wordBytes = 0) :
    (∃ bytes, wkdmCompressImpl p page.bytes compressBufSize scratch = .ok bytes ∧
      bytes.length ≠ 0) ↔ wkdmSize p page.bytes < pageSize := by
  have hlen := page.length_bytes
  have hpos : page.bytes.length ≠ 0 := by
    rw [hlen]
    decide
  have hbuf : pageSize < compressBufSize := by decide
  have hsize := length_wkdmEncode_source p page.bytes
  have hhead : 12 ≤ wkdmSize p page.bytes := by
    simp only [wkdmSize, Nat.add_assoc]
    exact Nat.le_add_right 12 _
  rw [wkdmCompressImpl_eq compressBufSize scratch hpos (by rw [hlen]; exact hunit)
    (Nat.le_of_eq hlen), hsize, hlen]
  by_cases hfit : wkdmSize p page.bytes < pageSize
  · rw [if_neg (by omega)]
    exact iff_of_true ⟨_, rfl, by omega⟩ hfit
  · rw [if_pos (.inl (Nat.le_of_not_lt hfit))]
    refine iff_of_false ?_ hfit
    rintro ⟨bytes, h, -⟩
    cases h

theorem lz4Compress_page_iff (lz4 : Lz4) (wrkmem : Bool) (page : Page) :
    (∃ bytes, lz4Compress lz4 wrkmem page.bytes compressBufSize = .ok bytes ∧
      bytes.length ≠ 0) ↔
      wrkmem = true ∧ ∃ out, lz4.compressDefault page.bytes compressBufSize = some out ∧
        out.length ≠ 0 ∧ out.length < pageSize := by
  have hlen := page.length_bytes
  unfold lz4Compress
  rw [if_neg (by rw [hlen]; decide), hlen]
  cases wrkmem with
  | false => simp
  | true =>
      rw [if_neg (by decide)]
      cases lz4.compressDefault page.bytes compressBufSize with
      | none => simp
      | some out =>
          dsimp only
          by_cases hbad : out.length = 0 ∨ out.length ≥ pageSize
          · rw [if_pos hbad]
            refine iff_of_false (by simp) ?_
            rintro ⟨-, out', heq, hne, hlt⟩
            injection heq with heq
            subst heq
            omega
          · rw [if_neg hbad]
            exact iff_of_true ⟨out, rfl, by omega⟩ ⟨rfl, out, rfl, by omega, by omega⟩

/-- What an algorithm compresses is what it stores. -/
theorem Page.compressedBy_iff (env : CodecEnv) {buf : List UInt8}
    (hbuf : buf.length = compressBufSize) (page : Page) (algo : AlgoId) :
    page.CompressedBy (env.withBlockClass buf) algo ↔ page.StoredBy env algo := by
  have hlen := page.length_bytes
  have hpos : page.bytes.length ≠ 0 := by
    rw [hlen]
    decide
  cases algo with
  | samePage =>
      unfold CompressedBy StoredBy
      simp only [compressWith]
      cases hbytes : page.bytes with
      | nil =>
          rw [hbytes] at hpos
          exact absurd rfl hpos
      | cons b bs =>
          rw [samePageCompress, samePageCanCompress]
          by_cases hsame : bs.all (· == b) = true
          · rw [if_neg (by simpa using hsame), if_neg (by decide),
              emit_ok (show 0 + 1 ≤ compressBufSize by decide)]
            exact iff_of_true ⟨_, rfl, by simp⟩ hsame
          · rw [if_pos (by simpa using hsame)]
            refine iff_of_false ?_ hsame
            rintro ⟨bytes, h, -⟩
            cases h
  | bdi =>
      constructor
      · rintro ⟨bytes, h, -⟩
        exact ((bdiCompress_page hlen).2 bytes h).1
      · intro h
        obtain ⟨bytes, hbytes⟩ := (bdiCompress_page hlen).1 h
        exact ⟨bytes, hbytes, ((bdiCompress_page hlen).2 bytes hbytes).2⟩
  | wkdm => exact wkdmCompressImpl_page_iff _ (by decide)
  | wkdm64 => exact wkdmCompressImpl_page_iff _ (by decide)
  | lz4 => exact lz4Compress_page_iff env.lz4 env.lz4Wrkmem page
  | blockClass =>
      have hsource : StreamSource page.bytes := by
        rw [StreamSource, hlen]
        decide
      have hfit : ¬ blocksPerPage < page.bytes.length / streamBlockSize := by
        rw [hlen]
        decide
      have hle := hsource.streamSize_le (p := blockClassBits) (length_streamBlocks page.bytes)
        (fun _ hb => hsource.length_mem hb) (Nat.le_of_not_lt hfit)
      have hsize : blockClassSize page.bytes =
          streamSize blockClassBits (streamBlocks page.bytes) := rfl
      have hhead := blockClassSize_pos page.bytes
      have hpage : pageSize = 4096 := rfl
      have hcap : compressBufSize = 8192 := rfl
      unfold CompressedBy StoredBy
      simp only [compressWith, CodecEnv.withBlockClass]
      rw [blockClassCompress_eq, if_neg (not_not_intro hsource), if_neg hfit,
        if_neg (by omega), hlen]
      by_cases hstore : blockClassSize page.bytes < pageSize
      · rw [if_neg (by omega)]
        refine iff_of_true ⟨_, rfl, ?_⟩ hstore
        rw [OutCursor.bytes, List.length_take]
        simp only [List.length_append, length_streamBytes]
        omega
      · rw [if_pos (.inl (Nat.le_of_not_lt hstore))]
        refine iff_of_false ?_ hstore
        rintro ⟨bytes, h, -⟩
        cases h
  | lzsse8 | zstdDict | delta =>
      refine iff_of_false ?_ id
      rintro ⟨bytes, h, -⟩
      cases h

/-! ## What the classifier decides -/

theorem classifyPage_eq_samePage_iff (page : Page) :
    classifyPage page.bytes = .samePage ↔ samePageCanCompress page.bytes = true := by
  have hlen := page.length_bytes
  have hzeros : zeroBytes page.bytes = page.bytes.length →
      samePageCanCompress page.bytes = true := by
    intro h
    rw [zeroBytes, List.countP_eq_length] at h
    cases hbytes : page.bytes with
    | nil => rw [hbytes] at hlen; cases hlen
    | cons b bs =>
        rw [hbytes] at h
        have hb : b = 0 := by simpa using h b List.mem_cons_self
        rw [samePageCanCompress, List.all_eq_true]
        intro c hc
        rw [hb]
        exact h c (List.mem_cons_of_mem b hc)
  unfold classifyPage
  rw [if_neg (by rw [hlen]; decide)]
  by_cases hsame : samePageCanCompress page.bytes = true
  · rw [if_pos (.inr hsame)]
    exact iff_of_true rfl hsame
  · rw [if_neg (fun h => h.elim (fun hz => hsame (hzeros hz)) hsame)]
    refine iff_of_false ?_ hsame
    split
    · split <;> simp
    · split <;> simp

/-- A page that goes to BDI is at least half zeros, and its bytes are at most 32. -/
theorem of_classifyPage_bdi {page : Page} (h : classifyPage page.bytes = .bdi) :
    2048 ≤ zeroBytes page.bytes ∧ maxByte page.bytes - minByte page.bytes ≤ 32 := by
  have hlen := page.length_bytes
  have hpage : pageSize = 4096 := rfl
  unfold classifyPage at h
  split at h
  · cases h
  split at h
  · cases h
  split at h
  · next hzeros =>
    rw [hlen, hpage] at hzeros
    split at h
    next hrange => exact ⟨by omega, hrange⟩
    · cases h
  · split at h <;> cases h

/-- Most words of a page that goes to WKdm-64 have a high half of zeros. -/
theorem of_classifyPage_wkdm64 {page : Page} (h : classifyPage page.bytes = .wkdm64) :
    256 < upper32Zero page.bytes := by
  have hlen := page.length_bytes
  unfold classifyPage at h
  split at h
  · cases h
  split at h
  · cases h
  split at h
  · split at h <;> cases h
  · split at h
    next hmany =>
      rw [hlen] at hmany
      exact hmany.2
    · cases h

/-- A word with a high half of zeros takes no more than a partial one. -/
theorem sum_codeCounts_le {p : WkdmParams} (hpos : 0 < p.partialBytes) (dict vals : List Nat) :
    codeCount 1 (wkdmTokens p dict vals) + codeCount 2 (wkdmTokens p dict vals) * p.partialBytes +
        codeCount 3 (wkdmTokens p dict vals) * p.wordBytes ≤
      vals.countP p.isPartial * p.partialBytes +
        (vals.length - vals.countP p.isPartial) * p.wordBytes := by
  induction vals generalizing dict with
  | nil => simp [wkdmTokens, codeCount]
  | cons val vals ih =>
      have hle : vals.countP p.isPartial ≤ vals.length := List.countP_le_length
      have hnext := ih ((wkdmToken p dict val).update p dict)
      have hpartial := p.partialBytes_le
      obtain ⟨k, hk⟩ := Nat.exists_eq_add_of_le hle
      rw [hk, Nat.add_sub_cancel_left] at hnext
      have hword : (if p.isPartial val = true then p.partialBytes else p.wordBytes) +
          (vals.countP p.isPartial * p.partialBytes + k * p.wordBytes) =
          (val :: vals).countP p.isPartial * p.partialBytes +
            ((val :: vals).length - (val :: vals).countP p.isPartial) * p.wordBytes := by
        rw [List.countP_cons, List.length_cons, hk]
        split
        · rw [Nat.add_mul, show vals.countP p.isPartial + k + 1 - (vals.countP p.isPartial + 1) = k
            by omega]
          omega
        · rw [Nat.add_zero, show vals.countP p.isPartial + k + 1 - vals.countP p.isPartial = k + 1
            by omega, Nat.add_mul]
          omega
      rw [← hword]
      simp only [wkdmTokens, codeCount, List.countP_cons] at hnext ⊢
      by_cases hzero : val = 0
      · simp only [wkdmToken, if_pos hzero, WkdmToken.code] at hnext ⊢
        simp only [Nat.reduceBEq, Bool.false_eq_true, if_false, Nat.add_zero]
        omega
      by_cases hexact : dict.getD (p.hash val) 0 = val
      · simp only [wkdmToken, if_neg hzero, if_pos hexact, WkdmToken.code] at hnext ⊢
        simp only [Nat.reduceBEq, Bool.false_eq_true, if_false, if_true, Nat.add_zero]
        split <;> omega
      by_cases hval : p.isPartial val = true
      · simp only [wkdmToken, if_neg hzero, if_neg hexact, if_pos hval, WkdmToken.code] at hnext ⊢
        simp only [Nat.reduceBEq, Bool.false_eq_true, if_false, if_true, Nat.add_zero, Nat.add_mul]
        omega
      · simp only [wkdmToken, if_neg hzero, if_neg hexact, if_neg hval, WkdmToken.code] at hnext ⊢
        simp only [Nat.reduceBEq, Bool.false_eq_true, if_false, if_true, Nat.add_zero, Nat.add_mul]
        omega

/-- WKdm-64 stores every page that goes to it. -/
theorem storedBy_wkdm64 (env : CodecEnv) {page : Page}
    (h : classifyPage page.bytes = .wkdm64) : page.StoredBy env .wkdm64 := by
  have hmany := of_classifyPage_wkdm64 h
  have hlen : page.bytes.length = 4096 := page.length_bytes
  have hsum := @sum_codeCounts_le wkdm64 (by decide) (List.replicate wkdm64.dictSize 0)
    (wordsLE 8 (page.bytes.length / 8) page.bytes)
  have hcount : (wordsLE 8 (page.bytes.length / 8) page.bytes).countP wkdm64.isPartial =
    upper32Zero page.bytes := rfl
  have hle : upper32Zero page.bytes ≤ (wordsLE 8 (page.bytes.length / 8) page.bytes).length :=
    List.countP_le_length
  rw [hcount, length_wordsLE, hlen] at hsum
  rw [length_wordsLE, hlen] at hle
  have htokens : wkdmSourceTokens wkdm64 page.bytes =
      wkdmTokens wkdm64 (List.replicate wkdm64.dictSize 0) (wordsLE 8 (4096 / 8) page.bytes) := by
    rw [wkdmSourceTokens, hlen]
    rfl
  have hwidth : wkdm64.wordBytes = 8 := rfl
  have hpartial : wkdm64.partialBytes = 4 := rfl
  have hpage : pageSize = 4096 := rfl
  unfold Page.StoredBy wkdmSize
  rw [htokens, hlen, hpage]
  rw [hwidth, hpartial] at hsum ⊢
  omega

theorem maxByte_eq (data : List UInt8) : maxByte data = (maxVal data).toNat := by
  unfold maxByte maxVal
  refine @List.foldl_hom _ _ _ UInt8.toNat _ _ data 0 fun m v => ?_
  simp only [gt_iff_lt, UInt8.lt_iff_toNat_lt]
  split <;> rfl

theorem minByte_eq (data : List UInt8) : minByte data = (minVal data).toNat := by
  unfold minByte minVal
  refine @List.foldl_hom _ _ _ UInt8.toNat _ _ data 0xFF fun m v => ?_
  simp only [UInt8.lt_iff_toNat_lt]
  split <;> rfl

/-- The bytes of a page that goes to BDI. -/
theorem le_of_classifyPage_bdi {page : Page} (h : classifyPage page.bytes = .bdi) :
    ∀ b ∈ page.bytes, b ≤ 32 := by
  obtain ⟨hzeros, hrange⟩ := of_classifyPage_bdi h
  rw [maxByte_eq, minByte_eq] at hrange
  have hmin : (minVal page.bytes).toNat = 0 := by
    have hpos : 0 < page.bytes.countP (· == 0) := Nat.lt_of_lt_of_le (by decide) hzeros
    obtain ⟨b, hb, hzero⟩ := List.countP_pos_iff.1 hpos
    have hle := UInt8.le_iff_toNat_le.1 (minVal_le hb)
    rw [beq_iff_eq] at hzero
    rw [hzero] at hle
    exact Nat.le_zero.1 hle
  intro b hb
  rw [hmin, Nat.sub_zero] at hrange
  exact UInt8.le_trans (le_maxVal hb) (UInt8.le_iff_toNat_le.2 hrange)

theorem foldl_maxVal_le {block : List UInt8} {k m : UInt8} (hm : m ≤ k) (h : ∀ b ∈ block, b ≤ k) :
    block.foldl (fun m v => if v > m then v else m) m ≤ k := by
  induction block generalizing m with
  | nil => exact hm
  | cons v block ih =>
      rw [List.foldl_cons]
      refine ih ?_ fun b hb => h b (List.mem_cons_of_mem v hb)
      split
      · exact h v List.mem_cons_self
      · exact hm

/-- A block of small bytes is stored in at most 50 bytes. -/
theorem blockSize_le_of_small {block : List UInt8} (hlen : block.length = 64)
    (hsmall : ∀ b ∈ block, b ≤ 32) :
    blockSize blockClassBits block (classifyBlock blockClassBits block) ≤ 50 := by
  unfold classifyBlock
  by_cases hz : block.all (· == 0)
  · rw [if_pos hz]
    exact Nat.zero_le _
  rw [if_neg hz]
  by_cases hs : block.all (· == block.headD 0)
  · rw [if_pos hs]
    exact Nat.le_of_ble_eq_true rfl
  rw [if_neg hs]
  by_cases hn : nzCount block ≤ sparseThreshold ∧ nzCount block < block.length
  · rw [if_pos hn]
    have hcount : nzCount block ≤ 16 := hn.1
    simp only [blockSize]
    omega
  rw [if_neg hn]
  have hmax : (maxVal block).toNat ≤ 32 :=
    UInt8.le_iff_toNat_le.1 (foldl_maxVal_le (by decide) hsmall)
  obtain ⟨b, hb⟩ : ∃ b, b ∈ block := by
    rw [← List.length_pos_iff_exists_mem]
    omega
  have hle := UInt8.le_trans (minVal_le hb) (le_maxVal hb)
  have hrange : (maxVal block - minVal block).toNat ≤ 32 := by
    rw [UInt8.toNat_sub_of_le _ _ hle]
    omega
  have hwidth : ∀ r < 33, bitsForRange r ≤ 6 ∧ (bitsForRange r = 0 → r = 0) := by decide
  obtain ⟨hsix, hzero⟩ := hwidth _ (Nat.lt_succ_of_le hrange)
  have hbits : blockClassBits.bits = bitsForRange := rfl
  have hpos : 0 < bitsForRange (maxVal block - minVal block).toNat := by
    rw [Nat.pos_iff_ne_zero]
    intro h
    have heq : (maxVal block - minVal block).toNat = 0 := hzero h
    rw [UInt8.toNat_sub_of_le _ _ hle] at heq
    have hminle := UInt8.le_iff_toNat_le.1 hle
    refine hs (List.all_eq_true.2 fun c hc => ?_)
    have hhead : block.headD 0 ∈ block := by
      cases block with
      | nil => cases hb
      | cons d ds => exact List.mem_cons_self
    have h₁ := UInt8.le_iff_toNat_le.1 (minVal_le hc)
    have h₂ := UInt8.le_iff_toNat_le.1 (le_maxVal hc)
    have h₃ := UInt8.le_iff_toNat_le.1 (minVal_le hhead)
    have h₄ := UInt8.le_iff_toNat_le.1 (le_maxVal hhead)
    rw [beq_iff_eq, ← UInt8.toNat_inj]
    omega
  have hclass : 0 < blockClassBits.bits (maxVal block - minVal block).toNat ∧
      blockClassBits.bits (maxVal block - minVal block).toNat ≤ rangeMaxBits := by
    rw [hbits]
    exact ⟨hpos, hsix⟩
  dsimp only
  rw [if_pos hclass]
  simp only [blockSize, hlen, hbits]
  omega

/-- The block classifier stores every page that goes to BDI. -/
theorem storedBy_blockClass (env : CodecEnv) {page : Page}
    (h : classifyPage page.bytes = .bdi) : page.StoredBy env .blockClass := by
  have hlen : page.bytes.length = 4096 := page.length_bytes
  have hsource : StreamSource page.bytes := by
    rw [StreamSource, hlen]
    decide
  have hsum := sum_map_le
    (fun block => blockSize blockClassBits block (classifyBlock blockClassBits block)) 50
    (fun block (hb : block ∈ streamBlocks page.bytes) =>
      blockSize_le_of_small (hsource.length_mem hb) fun b hmem =>
        le_of_classifyPage_bdi h b (by
          rw [← hsource.flatten_streamBlocks]
          exact List.mem_flatten.2 ⟨block, hb, hmem⟩))
  have hnum : (streamBlocks page.bytes).length = 64 := by
    rw [length_streamBlocks, hlen]
    rfl
  have hpage : pageSize = 4096 := rfl
  rw [hnum] at hsum
  unfold Page.StoredBy blockClassSize streamSize
  rw [hnum, hpage]
  omega

/-! ## Pages that are given up -/

/-- The algorithms that the dispatch knows. -/
def dispatchAlgos : List AlgoId := [.samePage, .bdi, .wkdm, .wkdm64, .blockClass, .lz4]

/-- A page is reported incompressible only if no algorithm of the dispatch compresses it. -/
def Page.GivenUpRightly (env : CodecEnv) (page : Page) : Prop :=
  compressPage env page.bytes = .ok (.error .incompressible) →
    ∀ algo ∈ dispatchAlgos, ¬ page.CompressedBy env algo

/-- What decides, by the algorithm that the classifier picks, whether the page is given up
rightly. -/
def Page.WellChosen (env : CodecEnv) (page : Page) : Prop :=
  match classifyPage page.bytes with
  | .bdi => page.StoredBy env .bdi
  | .wkdm => page.StoredBy env .wkdm ∨ ∀ algo ∈ [.bdi, .wkdm64, .blockClass, .lz4],
      ¬ page.StoredBy env algo
  | .lz4 => page.StoredBy env .lz4 ∨ ∀ algo ∈ [.bdi, .wkdm, .wkdm64, .blockClass],
      ¬ page.StoredBy env algo
  | _ => True

theorem wkdmCompressImpl_page_ne_oob {p : WkdmParams} (scratch : WkdmScratch p) (page : Page)
    (hunit : pageSize % p.wordBytes = 0) :
    wkdmCompressImpl p page.bytes compressBufSize scratch ≠ .error .oob := by
  have hlen := page.length_bytes
  rw [wkdmCompressImpl_eq compressBufSize scratch (by rw [hlen]; decide) (by rw [hlen]; exact hunit)
    (Nat.le_of_eq hlen)]
  split <;> simp

/-- The algorithm picked stays inside its buffers. -/
theorem compressWith_ne_oob (env : CodecEnv) (page : Page) :
    compressWith env (classifyPage page.bytes) page.bytes compressBufSize ≠ .error .oob := by
  obtain hc | hc | hc | hc | hc := classifyPage_cases page.bytes
  · rw [hc, compressWith]
    cases page.bytes with
    | nil => simp [samePageCompress]
    | cons b bs =>
        rw [samePageCompress, emit_ok (show 0 + 1 ≤ compressBufSize by decide)]
        split
        · simp
        · split <;> simp
  · rw [hc, compressWith, bdiCompress_eq]
    split <;> simp
  · rw [hc]
    exact wkdmCompressImpl_page_ne_oob _ page (by decide)
  · rw [hc]
    exact wkdmCompressImpl_page_ne_oob _ page (by decide)
  · rw [hc, compressWith, lz4Compress]
    split
    · simp
    split
    · simp
    split
    · simp
    · split <;> simp

/-- The dispatch gives a page up exactly when the algorithm picked does not store it. -/
theorem compressPage_incompressible_iff (env : CodecEnv) {buf : List UInt8}
    (hbuf : buf.length = compressBufSize) (page : Page) :
    compressPage (env.withBlockClass buf) page.bytes = .ok (.error .incompressible) ↔
      ¬ page.StoredBy env (classifyPage page.bytes) := by
  rw [← page.compressedBy_iff env hbuf, compressPage, if_neg (not_not_intro page.length_bytes)]
  unfold Page.CompressedBy
  have hoob := compressWith_ne_oob (env.withBlockClass buf) page
  cases hrun : compressWith (env.withBlockClass buf) (classifyPage page.bytes) page.bytes
      compressBufSize with
  | error e =>
      cases e with
      | zero => simp
      | oob => exact absurd hrun hoob
  | ok bytes =>
      dsimp only
      by_cases hempty : bytes.length = 0
      · rw [if_pos hempty]
        refine iff_of_true rfl ?_
        rintro ⟨bytes', h, hne⟩
        injection h with h
        rw [h] at hempty
        exact hne hempty
      · rw [if_neg hempty]
        refine iff_of_false (by simp) fun h => h ⟨bytes, rfl, hempty⟩

/-- **Pages given up**: no algorithm compresses a page that is reported incompressible exactly
when the algorithm that the classifier picks suits the page. -/
theorem givenUpRightly_iff (env : CodecEnv) {buf : List UInt8}
    (hbuf : buf.length = compressBufSize) (page : Page) :
    page.GivenUpRightly (env.withBlockClass buf) ↔ page.WellChosen env := by
  unfold Page.GivenUpRightly Page.WellChosen
  rw [compressPage_incompressible_iff env hbuf]
  simp only [page.compressedBy_iff env hbuf, dispatchAlgos, List.forall_mem_cons, List.not_mem_nil,
    false_imp_iff, implies_true, and_true]
  have hsame := classifyPage_eq_samePage_iff page
  obtain hc | hc | hc | hc | hc := classifyPage_cases page.bytes
  · rw [hc]
    exact iff_of_true (fun h => absurd (hsame.1 hc) h) trivial
  · have hblock := storedBy_blockClass env hc
    rw [hc]
    dsimp only
    constructor
    · intro h
      by_contra hnot
      exact (h hnot).2.2.2.2.1 hblock
    · intro h hnot
      exact absurd h hnot
  · have hnot : ¬ page.StoredBy env .samePage := fun h => by
      rw [hsame.2 h] at hc
      cases hc
    rw [hc]
    dsimp only
    by_cases hstored : page.StoredBy env .wkdm
    · exact iff_of_true (fun h => absurd hstored h) (.inl hstored)
    · simp only [hstored, hnot, not_false_eq_true, true_and, forall_const, false_or]
  · have hstored := storedBy_wkdm64 env hc
    rw [hc]
    exact iff_of_true (fun h => absurd hstored h) trivial
  · have hnot : ¬ page.StoredBy env .samePage := fun h => by
      rw [hsame.2 h] at hc
      cases hc
    rw [hc]
    dsimp only
    by_cases hstored : page.StoredBy env .lz4
    · exact iff_of_true (fun h => absurd hstored h) (.inl hstored)
    · simp only [hstored, hnot, not_false_eq_true, true_and, and_true, forall_const, false_or]

theorem Page.wellChosen_of_bdi {env : CodecEnv} {page : Page} (hc : classifyPage page.bytes = .bdi)
    (h : bdiEncodedSize page.bytes < pageSize) : page.WellChosen env := by
  unfold Page.WellChosen
  rw [hc]
  exact h

/-- BDI suits the near-word page. -/
theorem givenUpRightly_nearWord :
    (List.replicate compressBufSize (0 : UInt8)).length = compressBufSize ∧
      nearWordPage.GivenUpRightly
        (CodecEnv.vendored.withBlockClass (List.replicate compressBufSize 0)) := by
  have hbuf : (List.replicate compressBufSize (0 : UInt8)).length = compressBufSize :=
    List.length_replicate
  -- the page is a variable, or its bytes are run through the classifier
  have hright : ∀ page, page = nearWordPage →
      page.GivenUpRightly (CodecEnv.vendored.withBlockClass (List.replicate compressBufSize 0)) := by
    intro page hpage
    refine (givenUpRightly_iff .vendored hbuf page).2 (Page.wellChosen_of_bdi ?_ ?_)
    · rw [hpage, classifyPage_nearWordPage]
    · rw [hpage]
      exact bdiEncodedSize_nearWordPage
  exact ⟨hbuf, hright nearWordPage rfl⟩

/-- A page of two words in turn that share a slot of the WKdm dictionary. -/
def thrashPage : Page where
  bytes := (List.replicate 512 [0, 0, 0, 0x80, 0, 0, 0, 0x40]).flatten
  length_bytes := by decide +kernel

theorem wordsLE_thrash (k : Nat) :
    wordsLE 4 (2 * k) (List.replicate k [0, 0, 0, 0x80, 0, 0, 0, 0x40]).flatten =
      (List.replicate k [0x80000000, 0x40000000]).flatten := by
  induction k with
  | zero => rfl
  | succ k ih =>
      have hwords : ∀ bs : List UInt8,
          wordsLE 4 (2 * (k + 1)) ([0, 0, 0, 0x80, 0, 0, 0, 0x40] ++ bs) =
            0x80000000 :: 0x40000000 :: wordsLE 4 (2 * k) bs := by
        intro bs
        have hfirst : leNat [0, 0, 0, 0x80] = 0x80000000 := by decide
        have hsecond : leNat [0, 0, 0, 0x40] = 0x40000000 := by decide
        rw [Nat.mul_succ, ← hfirst, ← hsecond]
        rfl
      rw [List.replicate_succ, List.flatten_cons, hwords, ih, List.replicate_succ,
        List.flatten_cons]
      rfl

/-- Two words in turn that share a slot miss in it, one after the other. -/
theorem wkdmTokens_thrash (k : Nat) {dict : List Nat} (hdict : dict.getD 0 0 ≠ 0x80000000) :
    wkdmTokens wkdm32 dict (List.replicate k [0x80000000, 0x40000000]).flatten =
      (List.replicate k [.tagMiss 0x80000000, .tagMiss 0x40000000]).flatten := by
  induction k generalizing dict with
  | zero => rfl
  | succ k ih =>
      have hnext : (dict.set 0 0x80000000).getD 0 0 ≠ 0x40000000 := by
        cases dict <;> simp
      have hlast : ((dict.set 0 0x80000000).set 0 0x40000000).getD 0 0 ≠ 0x80000000 := by
        cases dict <;> simp
      have htoken : wkdmToken wkdm32 dict 0x80000000 = .tagMiss 0x80000000 := by
        have hslot : ¬ dict.getD (wkdm32.hash 0x80000000) 0 = 0x80000000 := hdict
        rw [wkdmToken, if_neg (by decide), if_neg hslot]
        rfl
      have htoken' : wkdmToken wkdm32 (dict.set 0 0x80000000) 0x40000000 =
          .tagMiss 0x40000000 := by
        have hslot : ¬ (dict.set 0 0x80000000).getD (wkdm32.hash 0x40000000) 0 = 0x40000000 := hnext
        rw [wkdmToken, if_neg (by decide), if_neg hslot]
        rfl
      have hupdate : (WkdmToken.tagMiss 0x80000000).update wkdm32 dict =
        dict.set 0 0x80000000 := rfl
      have hupdate' : (WkdmToken.tagMiss 0x40000000).update wkdm32 (dict.set 0 0x80000000) =
        (dict.set 0 0x80000000).set 0 0x40000000 := rfl
      rw [List.replicate_succ, List.flatten_cons, List.cons_append, List.cons_append,
        List.nil_append, wkdmTokens, htoken, hupdate, wkdmTokens, htoken', hupdate', ih hlast,
        List.replicate_succ, List.flatten_cons]
      rfl

theorem wkdmSize_thrashPage : wkdmSize wkdm32 thrashPage.bytes = 12 + 256 + 4096 := by
  have htokens : wkdmSourceTokens wkdm32 thrashPage.bytes =
      (List.replicate 512 [.tagMiss 0x80000000, .tagMiss 0x40000000]).flatten := by
    rw [wkdmSourceTokens, thrashPage.length_bytes]
    show wkdmTokens wkdm32 (List.replicate 16 0) (wordsLE 4 (2 * 512)
      (List.replicate 512 [0, 0, 0, 0x80, 0, 0, 0, 0x40]).flatten) = _
    rw [wordsLE_thrash]
    exact wkdmTokens_thrash 512 (by decide)
  have hcount : ∀ code, codeCount code (wkdmSourceTokens wkdm32 thrashPage.bytes) =
      512 * codeCount code [.tagMiss 0x80000000, .tagMiss 0x40000000] := by
    intro code
    rw [htokens, codeCount, List.countP_flatten, List.map_replicate, List.sum_replicate]
    rfl
  unfold wkdmSize
  rw [hcount, hcount, hcount, thrashPage.length_bytes]
  rfl

theorem classifyPage_thrashPage : classifyPage thrashPage.bytes = .wkdm := by
  have hmem : ∀ b ∈ [0, 0, 0, 0x80, 0, 0, 0, 0x40], b ∈ thrashPage.bytes := fun b hb =>
    List.mem_flatten.2 ⟨_, List.mem_replicate.2 ⟨by decide, rfl⟩, hb⟩
  have hzeros : zeroBytes thrashPage.bytes = 512 * 6 := by
    rw [zeroBytes, thrashPage, List.countP_flatten, List.map_replicate, List.sum_replicate]
    rfl
  have hmax : 0x80 ≤ maxByte thrashPage.bytes := by
    rw [maxByte_eq]
    exact UInt8.le_iff_toNat_le.1 (le_maxVal (hmem 0x80 (by decide)))
  have hmin : minByte thrashPage.bytes ≤ 0 := by
    rw [minByte_eq]
    exact UInt8.le_iff_toNat_le.1 (minVal_le (hmem 0 (by decide)))
  have hsame : samePageCanCompress thrashPage.bytes = false := rfl
  rw [classifyPage, thrashPage.length_bytes, hsame, hzeros, if_neg (by decide), if_neg (by decide),
    if_pos (by decide), if_neg (by omega)]

/-- WKdm misses every word of `thrashPage`, and BDI stores it in 580 bytes. -/
theorem not_givenUpRightly_thrashPage :
    ¬ ∀ (env : CodecEnv) (buf : List UInt8) (page : Page), buf.length = compressBufSize →
      page.GivenUpRightly (env.withBlockClass buf) := by
  intro h
  have hmisses : ¬ thrashPage.StoredBy .incompressible .wkdm := by
    unfold Page.StoredBy
    rw [wkdmSize_thrashPage]
    decide
  have hlines : thrashPage.StoredBy .incompressible .bdi := by
    have hsize : bdiEncodedSize thrashPage.bytes = 580 := by decide +kernel
    unfold Page.StoredBy
    rw [hsize]
    decide
  have hbuf : (List.replicate compressBufSize (0 : UInt8)).length = compressBufSize :=
    List.length_replicate
  refine h .incompressible _ thrashPage hbuf
    ((compressPage_incompressible_iff .incompressible hbuf thrashPage).2
      (by rw [classifyPage_thrashPage]; exact hmisses)) .bdi (by decide) ?_
  exact (thrashPage.compressedBy_iff .incompressible hbuf .bdi).2 hlines

end MiniMem
