import MiniMem.Compressors.Bdi
import MiniMem.Compressors.Wkdm.Roundtrip
import MiniMem.Compressors.AiWeights

/-!
# MiniMem.Compressors.Malformed

The decoders of lines and of words on bytes that no encoder wrote.  A
decoder keeps to its buffers when every access that no check of its own
catches is inside:

* **lines** -- every read and write of `minimem_bdi_decompress` comes behind
  a check of its own, so it keeps to its buffers on every input;
* **words** -- `wkdm_decompress_impl` checks its four sections and its
  cursors, and takes the dictionary index of an exact hit as it stands in
  the source, so it keeps to its buffers exactly when the indices that it
  comes to are below the size of its dictionary.
-/

namespace MiniMem

/-! ## Decoders -/

/-- A decoder that accesses its source, its tables and its destination inside only, and returns
0 or the `size` bytes that it has filled. -/
def DecodesInside (cap size : Nat) (run : Except Stop (List UInt8)) : Prop :=
  run = .error .zero ∨ ∃ out, run = .ok out ∧ out.length = size ∧ out.length ≤ cap

theorem decodesInside_zero (cap size : Nat) : DecodesInside cap size (.error .zero) := .inl rfl

theorem not_decodesInside_oob (cap size : Nat) : ¬ DecodesInside cap size (.error .oob) := by
  rintro (h | ⟨out, h, -⟩) <;> cases h

/-- A decoder that only ever returns `size` bytes goes wrong by leaving a buffer. -/
theorem decodesInside_iff {cap size : Nat} {run : Except Stop (List UInt8)}
    (hok : ∀ out, run = .ok out → out.length = size ∧ out.length ≤ cap) :
    DecodesInside cap size run ↔ run ≠ .error .oob := by
  cases run with
  | ok out => exact iff_of_true (.inr ⟨out, rfl, hok out rfl⟩) nofun
  | error e =>
      cases e with
      | zero => exact iff_of_true (.inl rfl) nofun
      | oob => exact iff_of_false (not_decodesInside_oob cap size) (not_not_intro rfl)

/-! ## Lines -/

/-- The bits of a delta lie in the area that has been checked. -/
theorem readBits_unpackDelta (deltaBits i : Nat) {area : List UInt8}
    (h : i * deltaBits + deltaBits ≤ 8 * area.length) :
    readBits area (i * deltaBits) deltaBits = .ok (unpackDelta deltaBits i area) := by
  have hpart : ∀ w, w ≤ deltaBits → readBits area (i * deltaBits) w =
      .ok ((List.range w).foldl
        (fun d b =>
          let bitIdx := i * deltaBits + b
          if (area.getD (bitIdx / 8) 0).toNat.testBit (bitIdx % 8) then d ||| 1 <<< b else d)
        0) := by
    intro w hw
    induction w with
    | zero => rfl
    | succ w ih =>
        rw [readBits, ih (by omega), ok_bind, bitAt, readByte_ok (by omega), ok_bind, ok_bind,
          List.range_succ, List.foldl_append]
        rfl
  exact hpart deltaBits (Nat.le_refl _)

/-- A line: a stop, or its 64 bytes behind those filled so far. -/
theorem bdiDecompressBody_inside (src : List UInt8) (cap inPos : Nat) (out : List UInt8)
    (type : BdiLineType) :
    bdiDecompressBody src cap inPos out type = .error .zero ∨
      ∃ pos line, bdiDecompressBody src cap inPos out type = .ok (pos, out ++ line) ∧
        line.length = bdiLineSize := by
  have hsize : bdiLineSize = 64 := rfl
  have hwords : bdiLineWords = 8 := rfl
  cases type with
  | zeros =>
      rw [bdiDecompressBody]
      by_cases hout : out.length + bdiLineSize > cap
      · exact .inl (if_pos hout)
      rw [if_neg hout, emit_ok (by rw [List.length_replicate]; omega)]
      exact .inr ⟨inPos, _, rfl, List.length_replicate⟩
  | baseDelta =>
      rw [bdiDecompressBody]
      by_cases hin : inPos + 8 > src.length
      · exact .inl (if_pos hin)
      rw [if_neg hin]
      by_cases hout : out.length + bdiLineSize > cap
      · exact .inl (if_pos hout)
      have hline : (List.replicate bdiLineWords ((src.drop inPos).take 8)).flatten.length =
          bdiLineSize := by
        rw [List.length_flatten, List.map_replicate, List.sum_replicate,
          List.length_take_of_le (by rw [List.length_drop]; omega)]
        rfl
      rw [if_neg hout, readAt_ok (by omega), ok_bind, emit_ok (by omega)]
      exact .inr ⟨inPos + 8, _, rfl, hline⟩
  | baseDelta2 =>
      rw [bdiDecompressBody]
      by_cases hin : inPos + 8 > src.length
      · exact .inl (if_pos hin)
      rw [if_neg hin]
      by_cases hout : out.length + bdiLineSize > cap
      · exact .inl (if_pos hout)
      rw [if_neg hout, readAt_ok (by omega), ok_bind]
      dsimp only
      by_cases harea : inPos + 8 + (8 * bdiLineWords + 7) / 8 > src.length
      · exact .inl (if_pos harea)
      have hline : ∀ words : List Nat, words.length = bdiLineWords →
          (words.map (leBytes 8)).flatten.length = bdiLineSize := by
        intro words hlen
        simp [List.length_flatten, Function.comp_def, hlen, hwords, hsize]
      rw [if_neg harea, readAt_ok (by omega), ok_bind,
        emit_ok (by rw [hline _ (by rw [List.length_map, List.length_range])]; omega)]
      exact .inr ⟨_, _, rfl, hline _ (by rw [List.length_map, List.length_range])⟩
  | uncompressed =>
      rw [bdiDecompressBody]
      by_cases hin : inPos + bdiLineSize > src.length
      · exact .inl (if_pos hin)
      rw [if_neg hin]
      by_cases hout : out.length + bdiLineSize > cap
      · exact .inl (if_pos hout)
      have hline : ((src.drop inPos).take bdiLineSize).length = bdiLineSize :=
        List.length_take_of_le (by rw [List.length_drop]; omega)
      rw [if_neg hout, readAt_ok (by omega), ok_bind, emit_ok (by omega)]
      exact .inr ⟨_, _, rfl, hline⟩

/-- One pass of the loop, whose type byte may have any value. -/
theorem bdiDecompressLine_inside (src : List UInt8) (cap inPos : Nat) (out : List UInt8) :
    bdiDecompressLine src cap inPos out = .error .zero ∨
      ∃ pos line, bdiDecompressLine src cap inPos out = .ok (pos, out ++ line) ∧
        line.length = bdiLineSize := by
  rw [bdiDecompressLine]
  by_cases hin : inPos ≥ src.length
  · exact .inl (if_pos hin)
  · rw [if_neg hin, readByte_ok (by omega), ok_bind]
    exact bdiDecompressBody_inside src cap (inPos + 1) out _

/-- The loop over `n` lines stops, or fills the 64 bytes of each of them. -/
theorem bdiDecompressLines_inside (src : List UInt8) (cap n inPos : Nat) (out : List UInt8) :
    bdiDecompressLines src cap n inPos out = .error .zero ∨
      ∃ lines, bdiDecompressLines src cap n inPos out = .ok (out ++ lines) ∧
        lines.length = n * bdiLineSize := by
  induction n generalizing inPos out with
  | zero => exact .inr ⟨[], by rw [bdiDecompressLines, List.append_nil], by simp⟩
  | succ n ih =>
      rw [bdiDecompressLines]
      obtain hstop | ⟨pos, line, hline, hlen⟩ := bdiDecompressLine_inside src cap inPos out
      · rw [hstop]
        exact .inl rfl
      · rw [hline]
        obtain hstop | ⟨lines, hlines, hrest⟩ := ih pos (out ++ line)
        · exact .inl hstop
        · refine .inr ⟨line ++ lines, ?_, ?_⟩
          · dsimp only
            rw [hlines, List.append_assoc]
          · rw [List.length_append, hlen, hrest, Nat.succ_mul, Nat.add_comm]

/-- **Lines**: on every input the decoder of lines keeps to its buffers, returns 0 or 64 bytes
for each line that its header counts, and fetches the bits of a delta from the area that it has
checked. -/
theorem bdiDecompress_inside (src : List UInt8) (cap : Nat) :
    DecodesInside cap (bdiLineSize * leNat (src.take 4)) (bdiDecompress src cap) ∧
      ∀ inPos, inPos + 8 ≤ src.length → ∀ i < bdiLineWords,
        readBits ((src.drop inPos).take 8) (i * 8) 8 =
          .ok (unpackDelta 8 i ((src.drop inPos).take 8)) := by
  constructor
  · rw [bdiDecompress]
    by_cases hshort : src.length < 4
    · rw [if_pos hshort]
      exact decodesInside_zero cap _
    rw [if_neg hshort, readAt_zero (by omega), ok_bind]
    dsimp only
    by_cases htotal : leNat (src.take 4) * bdiLineSize = 0 ∨
        cap < leNat (src.take 4) * bdiLineSize
    · rw [if_pos htotal]
      exact decodesInside_zero cap _
    rw [if_neg htotal]
    obtain hstop | ⟨lines, hlines, hlen⟩ :=
      bdiDecompressLines_inside src cap (leNat (src.take 4)) 4 []
    · exact .inl hstop
    · refine .inr ⟨lines, hlines, ?_, by omega⟩
      rw [hlen, Nat.mul_comm]
  · intro inPos harea i hi
    have hwords : bdiLineWords = 8 := rfl
    refine readBits_unpackDelta 8 i ?_
    rw [List.length_take_of_le (by rw [List.length_drop]; omega)]
    omega

/-! ## Words -/

/-- The tag of word `i`, in the tag area behind the header. -/
def wkdmTag (src : List UInt8) (i : Nat) : Nat := tagAt (src.drop 12) i

/-- How many of the words before word `i` have the given tag. -/
def wkdmTagCount (src : List UInt8) (tag i : Nat) : Nat :=
  (List.range i).countP fun j => wkdmTag src j == tag

/-- `n_words`. -/
def wkdmWords (src : List UInt8) : Nat := leNat (src.take 4)

/-- The areas that the header and the tags of a source announce. -/
def wkdmReadSections (p : WkdmParams) (src : List UInt8) : WkdmSections :=
  let exactCount := leNat ((src.drop 4).take 4)
  let partialCount := leNat ((src.drop 8).take 4)
  let tagBytes := (wkdmWords src * 2 + 7) / 8
  { tags := 12
    exactArea := 12 + tagBytes
    partialArea := 12 + tagBytes + exactCount
    missArea := 12 + tagBytes + exactCount + partialCount * p.partialBytes
    exactCount := exactCount
    partialCount := partialCount
    missWords := wkdmTagCount src 3 (wkdmWords src) }

/-- The checks of `wkdm_decompress_impl` before its loop: each area starts where the one before
it ends, so the last check implies those on the areas before it. -/
structure WkdmAccepts (p : WkdmParams) (src : List UInt8) (cap : Nat) : Prop where
  header : 12 ≤ src.length
  nonempty : wkdmWords src * p.wordBytes ≠ 0
  room : wkdmWords src * p.wordBytes ≤ cap
  areas : (wkdmReadSections p src).missArea + (wkdmReadSections p src).missWords * p.wordBytes ≤
    src.length

/-- If the loop comes to word `i` and takes it for an exact hit, its index is one of the
dictionary. -/
def WkdmIndexInRange (p : WkdmParams) (src : List UInt8) (i : Nat) : Prop :=
  wkdmTag src i = 1 → wkdmTagCount src 1 i < (wkdmReadSections p src).exactCount →
    wkdmTagCount src 2 i ≤ (wkdmReadSections p src).partialCount →
      (src.getD ((wkdmReadSections p src).exactArea + wkdmTagCount src 1 i) 0).toNat < p.dictSize

theorem wkdmTag_lt (src : List UInt8) (i : Nat) : wkdmTag src i < 4 :=
  Nat.lt_succ_of_le Nat.and_le_right

theorem wkdmTagCount_succ (src : List UInt8) (tag i : Nat) :
    wkdmTagCount src tag (i + 1) =
      wkdmTagCount src tag i + if wkdmTag src i = tag then 1 else 0 := by
  simp [wkdmTagCount, List.range_succ, List.countP_append, List.countP_cons]

theorem wkdmTagCount_mono (src : List UInt8) (tag : Nat) {i j : Nat} (h : i ≤ j) :
    wkdmTagCount src tag i ≤ wkdmTagCount src tag j :=
  (List.range_sublist.2 h).countP_le

/-- The count of the miss tags reads inside the tag area. -/
theorem wkdmCountMisses_inside {src : List UInt8} {i k : Nat}
    (h : ∀ j < i + k, 12 + j / 4 < src.length) :
    ∃ misses, wkdmCountMisses src 12 i k = .ok misses ∧
      wkdmTagCount src 3 i + misses = wkdmTagCount src 3 (i + k) := by
  induction k generalizing i with
  | zero => exact ⟨0, rfl, rfl⟩
  | succ k ih =>
      obtain ⟨misses, hmisses, hcount⟩ := @ih (i + 1) fun j hj => h j (by omega)
      have htag : getTag src 12 i = .ok (wkdmTag src i) := getTag_eq (h i (by omega))
      rw [wkdmCountMisses, htag, ok_bind, hmisses, ok_bind]
      refine ⟨_, rfl, ?_⟩
      rw [show i + (k + 1) = i + 1 + k by omega, ← hcount, wkdmTagCount_succ]
      split <;> omega

/-- What the loop of `wkdm_decompress_impl` has done with the words before word `i`. -/
structure WkdmAt (p : WkdmParams) (src : List UInt8) (i : Nat) (c : WkdmCursor) : Prop where
  out : c.out.length = i * p.wordBytes
  dict : c.dict.length = p.dictSize
  exactIdx : c.exactIdx = wkdmTagCount src 1 i
  partialIdx : c.partialIdx = wkdmTagCount src 2 i
  missIdx : c.missIdx = wkdmTagCount src 3 i
  partial_le : c.partialIdx ≤ (wkdmReadSections p src).partialCount

/-- The three ways of a pass: it stops, and no later word is a hit that the loop would come to;
it goes on with the next word; or it indexes outside the dictionary. -/
inductive WkdmPass (p : WkdmParams) (src : List UInt8) (i : Nat) :
    Except Stop WkdmCursor → Prop
  | stop (h : ∀ j, i ≤ j → WkdmIndexInRange p src j) : WkdmPass p src i (.error .zero)
  | next {c : WkdmCursor} (hc : WkdmAt p src (i + 1) c) (h : WkdmIndexInRange p src i) :
      WkdmPass p src i (.ok c)
  | oob (h : ¬ WkdmIndexInRange p src i) : WkdmPass p src i (.error .oob)

section Pass

variable {p : WkdmParams} {src : List UInt8} {cap i : Nat} {c : WkdmCursor}

/-- The tags that the loop reads lie in their area. -/
theorem WkdmAccepts.getTag_eq (h : WkdmAccepts p src cap) (hi : i < wkdmWords src) :
    getTag src (wkdmReadSections p src).tags i = .ok (wkdmTag src i) := by
  have hareas := h.areas
  refine MiniMem.getTag_eq ?_
  simp only [wkdmReadSections] at hareas ⊢
  omega

/-- There is room for the word that a pass writes. -/
theorem WkdmAt.emit_ok (hc : WkdmAt p src i c) (h : WkdmAccepts p src cap)
    (hi : i < wkdmWords src) {bs : List UInt8} (hbs : bs.length = p.wordBytes) :
    emit cap c.out bs = .ok (c.out ++ bs) := by
  have hword := Nat.mul_le_mul_right p.wordBytes hi
  rw [Nat.succ_mul] at hword
  exact MiniMem.emit_ok (by rw [hc.out, hbs]; exact Nat.le_trans hword h.room)

/-- A pass that writes its word and moves the cursor of its tag is at the next word. -/
theorem WkdmAt.next (hc : WkdmAt p src i c) {bs : List UInt8} {dict : List Nat}
    {exactIdx partialIdx missIdx : Nat} (hbs : bs.length = p.wordBytes)
    (hdict : dict.length = p.dictSize)
    (hexact : exactIdx = c.exactIdx + if wkdmTag src i = 1 then 1 else 0)
    (hpart : partialIdx = c.partialIdx + if wkdmTag src i = 2 then 1 else 0)
    (hmiss : missIdx = c.missIdx + if wkdmTag src i = 3 then 1 else 0)
    (hle : partialIdx ≤ (wkdmReadSections p src).partialCount) :
    WkdmAt p src (i + 1) ⟨c.out ++ bs, dict, exactIdx, partialIdx, missIdx⟩ where
  out := by rw [List.length_append, hc.out, hbs, Nat.succ_mul]
  dict := hdict
  exactIdx := by rw [hexact, hc.exactIdx, wkdmTagCount_succ]
  partialIdx := by rw [hpart, hc.partialIdx, wkdmTagCount_succ]
  missIdx := by rw [hmiss, hc.missIdx, wkdmTagCount_succ]
  partial_le := hle

theorem wkdmDecompressWord_zero (h : WkdmAccepts p src cap) (hc : WkdmAt p src i c)
    (hi : i < wkdmWords src) (htag : wkdmTag src i = 0) :
    WkdmPass p src i (wkdmDecompressWord p src cap (wkdmReadSections p src) c i) := by
  rw [wkdmDecompressWord, h.getTag_eq hi, ok_bind]
  simp only [htag, if_true]
  rw [hc.emit_ok h hi (length_leBytes _ _), ok_bind]
  refine .next (hc.next (length_leBytes _ _) hc.dict ?_ ?_ ?_ hc.partial_le) fun ht => ?_
  · rw [htag]; rfl
  · rw [htag]; rfl
  · rw [htag]; rfl
  · omega

/-- Only the look-up of an exact hit has no check of its own. -/
theorem wkdmDecompressWord_exact (h : WkdmAccepts p src cap) (hc : WkdmAt p src i c)
    (hi : i < wkdmWords src) (htag : wkdmTag src i = 1) :
    WkdmPass p src i (wkdmDecompressWord p src cap (wkdmReadSections p src) c i) := by
  have hareas := h.areas
  rw [wkdmDecompressWord, h.getTag_eq hi, ok_bind]
  simp only [htag, if_true, Nat.one_ne_zero, if_false]
  by_cases hexact : c.exactIdx ≥ (wkdmReadSections p src).exactCount
  · rw [if_pos hexact]
    refine .stop fun j hj _ hlow => ?_
    have := wkdmTagCount_mono src 1 hj
    rw [hc.exactIdx] at hexact
    omega
  have hread : (wkdmReadSections p src).exactArea + c.exactIdx < src.length := by
    simp only [wkdmReadSections] at hareas hexact ⊢
    omega
  rw [if_neg hexact, readByte_ok hread, ok_bind]
  rw [hc.exactIdx] at hexact
  by_cases hidx : (src.getD ((wkdmReadSections p src).exactArea + c.exactIdx) 0).toNat < p.dictSize
  · have hidx' := hidx
    rw [← hc.dict] at hidx'
    rw [List.getElem?_eq_getElem hidx']
    dsimp only
    rw [hc.emit_ok h hi (length_leBytes _ _), ok_bind]
    refine .next (hc.next (length_leBytes _ _) hc.dict ?_ ?_ ?_ hc.partial_le) fun _ _ _ => ?_
    · rw [htag]; rfl
    · rw [htag]; rfl
    · rw [htag]; rfl
    · rwa [← hc.exactIdx]
  · rw [List.getElem?_eq_none (by rw [hc.dict]; exact Nat.le_of_not_lt hidx)]
    have hpartial := hc.partial_le
    rw [hc.partialIdx] at hpartial
    rw [hc.exactIdx] at hidx
    exact .oob fun hin => hidx (hin htag (Nat.lt_of_not_le hexact) hpartial)

theorem wkdmDecompressWord_partial (h : WkdmAccepts p src cap) (hc : WkdmAt p src i c)
    (hi : i < wkdmWords src) (htag : wkdmTag src i = 2) :
    WkdmPass p src i (wkdmDecompressWord p src cap (wkdmReadSections p src) c i) := by
  have hareas := h.areas
  rw [wkdmDecompressWord, h.getTag_eq hi, ok_bind]
  simp only [htag, if_true, show ¬ 2 = 0 by decide, show ¬ 2 = 1 by decide, if_false]
  by_cases hpartial : c.partialIdx ≥ (wkdmReadSections p src).partialCount
  · rw [if_pos hpartial]
    -- a later hit has this partial word before it, which makes one too many
    refine .stop fun j hj ht _ hlow => ?_
    have hne : i ≠ j := by rintro rfl; omega
    have hmono := wkdmTagCount_mono src 2 (show i + 1 ≤ j by omega)
    rw [wkdmTagCount_succ, if_pos htag] at hmono
    rw [hc.partialIdx] at hpartial
    omega
  have hread : (wkdmReadSections p src).partialArea + c.partialIdx * p.partialBytes +
      p.partialBytes ≤ src.length := by
    have hword := Nat.mul_le_mul_right p.partialBytes (Nat.lt_of_not_le hpartial)
    rw [Nat.succ_mul] at hword
    simp only [wkdmReadSections] at hareas hword ⊢
    omega
  rw [if_neg hpartial, readAt_ok hread, ok_bind]
  rw [hc.emit_ok h hi (length_leBytes _ _), ok_bind]
  refine .next (hc.next (length_leBytes _ _) (by simpa using hc.dict) ?_ ?_ ?_
    (Nat.lt_of_not_le hpartial)) fun ht => ?_
  · rw [htag]; rfl
  · rw [htag]; rfl
  · rw [htag]; rfl
  · omega

/-- The misses have been counted in the same tags, so there is always one left. -/
theorem wkdmDecompressWord_miss (h : WkdmAccepts p src cap) (hc : WkdmAt p src i c)
    (hi : i < wkdmWords src) (htag : wkdmTag src i = 3) :
    WkdmPass p src i (wkdmDecompressWord p src cap (wkdmReadSections p src) c i) := by
  have hareas := h.areas
  have hmono := wkdmTagCount_mono src 3 hi
  rw [wkdmTagCount_succ, if_pos htag] at hmono
  have hmiss : ¬ c.missIdx ≥ (wkdmReadSections p src).missWords := by
    rw [hc.missIdx, wkdmReadSections]
    exact Nat.not_le.2 hmono
  have hread : (wkdmReadSections p src).missArea + c.missIdx * p.wordBytes + p.wordBytes ≤
      src.length := by
    have hword := Nat.mul_le_mul_right p.wordBytes (Nat.lt_of_not_le hmiss)
    rw [Nat.succ_mul] at hword
    omega
  have hlen : ((src.drop ((wkdmReadSections p src).missArea + c.missIdx * p.wordBytes)).take
      p.wordBytes).length = p.wordBytes :=
    List.length_take_of_le (by rw [List.length_drop]; omega)
  rw [wkdmDecompressWord, h.getTag_eq hi, ok_bind]
  simp only [htag, if_true, show ¬ 3 = 0 by decide, show ¬ 3 = 1 by decide,
    show ¬ 3 = 2 by decide, if_false]
  rw [if_neg hmiss, readAt_ok hread, ok_bind]
  rw [hc.emit_ok h hi hlen, ok_bind]
  refine .next (hc.next hlen (by simpa using hc.dict) ?_ ?_ ?_ hc.partial_le) fun ht => ?_
  · rw [htag]; rfl
  · rw [htag]; rfl
  · rw [htag]; rfl
  · omega

/-- One pass of the loop. -/
theorem wkdmDecompressWord_pass (h : WkdmAccepts p src cap) (hc : WkdmAt p src i c)
    (hi : i < wkdmWords src) :
    WkdmPass p src i (wkdmDecompressWord p src cap (wkdmReadSections p src) c i) := by
  have hlt := wkdmTag_lt src i
  obtain htag | htag | htag | htag : wkdmTag src i = 0 ∨ wkdmTag src i = 1 ∨ wkdmTag src i = 2 ∨
      wkdmTag src i = 3 := by omega
  · exact wkdmDecompressWord_zero h hc hi htag
  · exact wkdmDecompressWord_exact h hc hi htag
  · exact wkdmDecompressWord_partial h hc hi htag
  · exact wkdmDecompressWord_miss h hc hi htag

end Pass

/-- The loop over `k` words from word `i` on. -/
theorem wkdmDecompressWords_inside {p : WkdmParams} {src : List UInt8} {cap i k : Nat}
    {c : WkdmCursor} (h : WkdmAccepts p src cap) (hk : i + k = wkdmWords src)
    (hc : WkdmAt p src i c) :
    (wkdmDecompressWords p src cap (wkdmReadSections p src) c i k ≠ .error .oob ↔
      ∀ j, i ≤ j → j < wkdmWords src → WkdmIndexInRange p src j) ∧
    ∀ c', wkdmDecompressWords p src cap (wkdmReadSections p src) c i k = .ok c' →
      c'.out.length = wkdmWords src * p.wordBytes := by
  induction k generalizing i c with
  | zero =>
      refine ⟨iff_of_true (by rintro ⟨⟩) fun j _ _ => by omega, ?_⟩
      rintro c' ⟨⟩
      rw [hc.out, ← hk, Nat.add_zero]
  | succ k ih =>
      rw [wkdmDecompressWords]
      have hpass := wkdmDecompressWord_pass h hc (by omega)
      generalize wkdmDecompressWord p src cap (wkdmReadSections p src) c i = run at hpass ⊢
      cases hpass with
      | stop hlater =>
          refine ⟨iff_of_true (by rintro ⟨⟩) fun j hj _ => hlater j hj, ?_⟩
          rintro c' ⟨⟩
      | next hnext hin =>
          rw [ok_bind]
          obtain ⟨hrest, hlen⟩ := ih (by omega) hnext
          refine ⟨hrest.trans ⟨fun hall j hj hn => ?_, fun hall j hj => hall j (by omega)⟩, hlen⟩
          obtain rfl | hlt := Nat.eq_or_lt_of_le hj
          · exact hin
          · exact hall j hlt hn
      | oob hout =>
          refine ⟨iff_of_false (not_not_intro rfl) fun hall => hout ?_, ?_⟩
          · exact hall i (Nat.le_refl i) (by omega)
          · rintro c' ⟨⟩

/-- What the loop finds before word 0. -/
theorem wkdmAt_zero (p : WkdmParams) (src : List UInt8) :
    WkdmAt p src 0 ⟨[], List.replicate p.dictSize 0, 0, 0, 0⟩ where
  out := (Nat.zero_mul _).symm
  dict := List.length_replicate
  exactIdx := rfl
  partialIdx := rfl
  missIdx := rfl
  partial_le := Nat.zero_le _

/-- The decoder is its loop, behind its checks. -/
theorem wkdmDecompressImpl_of_accepts {p : WkdmParams} {src : List UInt8} {cap : Nat}
    (h : WkdmAccepts p src cap) :
    wkdmDecompressImpl p src cap =
      (wkdmDecompressWords p src cap (wkdmReadSections p src)
        ⟨[], List.replicate p.dictSize 0, 0, 0, 0⟩ 0 (wkdmWords src)).map (·.out) := by
  obtain ⟨hheader, hnonempty, hroom, hareas⟩ := h
  simp only [wkdmReadSections] at hareas
  obtain ⟨misses, hmisses, hcount⟩ := @wkdmCountMisses_inside src 0 (wkdmWords src)
    fun j hj => by omega
  have hcount : misses = wkdmTagCount src 3 (wkdmWords src) := by
    rw [Nat.zero_add] at hcount
    rw [← hcount]
    exact (Nat.zero_add _).symm
  simp only [wkdmWords] at hmisses hcount hnonempty hroom hareas ⊢
  subst hcount
  rw [wkdmDecompressImpl, if_neg (by omega), readAt_zero (by omega), ok_bind,
    readAt_ok (by omega), ok_bind, readAt_ok (by omega), ok_bind]
  dsimp only
  rw [if_neg (by omega), if_neg (by omega), if_neg (by omega), if_neg (by omega), hmisses, ok_bind,
    if_neg (by omega)]
  rfl

/-- A source that fails a check makes the decoder stop. -/
theorem wkdmDecompressImpl_of_not_accepts {p : WkdmParams} {src : List UInt8} {cap : Nat}
    (h : ¬ WkdmAccepts p src cap) : wkdmDecompressImpl p src cap = .error .zero := by
  rw [wkdmDecompressImpl]
  by_cases hheader : src.length < 12
  · rw [if_pos hheader]
  rw [if_neg hheader, readAt_zero (by omega), ok_bind, readAt_ok (by omega), ok_bind,
    readAt_ok (by omega), ok_bind]
  dsimp only
  by_cases hsize : leNat (src.take 4) * p.wordBytes = 0 ∨ leNat (src.take 4) * p.wordBytes > cap
  · rw [if_pos hsize]
  rw [if_neg hsize]
  by_cases htags : 12 + (leNat (src.take 4) * 2 + 7) / 8 > src.length
  · rw [if_pos htags]
  rw [if_neg htags]
  obtain ⟨misses, hmisses, hcount⟩ := @wkdmCountMisses_inside src 0 (wkdmWords src) fun j hj => by
    unfold wkdmWords at hj
    omega
  have hcount : misses = wkdmTagCount src 3 (wkdmWords src) := by
    rw [Nat.zero_add] at hcount
    rw [← hcount]
    exact (Nat.zero_add _).symm
  simp only [wkdmWords] at hmisses
  split
  · rfl
  split
  · rfl
  rw [hmisses, ok_bind]
  refine if_pos (Nat.lt_of_not_le fun hareas => h ⟨by omega, ?_, ?_, ?_⟩)
  · unfold wkdmWords
    omega
  · unfold wkdmWords
    omega
  · rw [hcount] at hareas
    exact hareas

theorem wkdmDecompressImpl_inside_iff (p : WkdmParams) (src : List UInt8) (cap : Nat) :
    DecodesInside cap (wkdmWords src * p.wordBytes) (wkdmDecompressImpl p src cap) ↔
      (WkdmAccepts p src cap → ∀ i < wkdmWords src, WkdmIndexInRange p src i) := by
  by_cases h : WkdmAccepts p src cap
  swap
  · rw [wkdmDecompressImpl_of_not_accepts h]
    exact iff_of_true (decodesInside_zero cap _) fun hacc => absurd hacc h
  obtain ⟨hinside, hlen⟩ := wkdmDecompressWords_inside h (Nat.zero_add _) (wkdmAt_zero p src)
  rw [wkdmDecompressImpl_of_accepts h]
  generalize wkdmDecompressWords p src cap (wkdmReadSections p src)
    ⟨[], List.replicate p.dictSize 0, 0, 0, 0⟩ 0 (wkdmWords src) = run at hinside hlen ⊢
  rw [decodesInside_iff]
  · have hmap : run.map (·.out) ≠ .error .oob ↔ run ≠ .error .oob := by
      cases run <;> simp [Except.map]
    rw [hmap, hinside]
    exact ⟨fun hall _ i hi => hall i (Nat.zero_le i) hi, fun hall i _ hi => hall h i hi⟩
  · intro out hout
    cases run with
    | error e => cases hout
    | ok c =>
        injection hout with hout
        rw [← hout, hlen c rfl]
        exact ⟨rfl, h.room⟩

/-- **Words**: the decoders of both word sizes keep to their buffers exactly when the source
fails a check, or each exact hit that the loop comes to has an index below 16, or below 32. -/
theorem wkdmDecompress_inside_iff (src : List UInt8) (cap : Nat) :
    (DecodesInside cap (wkdmWords src * 4) (wkdmDecompress src cap) ↔
      (WkdmAccepts wkdm32 src cap → ∀ i < wkdmWords src, WkdmIndexInRange wkdm32 src i)) ∧
    (DecodesInside cap (wkdmWords src * 8) (wkdm64Decompress src cap) ↔
      (WkdmAccepts wkdm64 src cap → ∀ i < wkdmWords src, WkdmIndexInRange wkdm64 src i)) :=
  ⟨wkdmDecompressImpl_inside_iff wkdm32 src cap, wkdmDecompressImpl_inside_iff wkdm64 src cap⟩

/-- One word, taken for an exact hit with index 255. -/
theorem not_wkdmDecompress_inside :
    (¬ ∀ (src : List UInt8) (cap : Nat),
      DecodesInside cap (wkdmWords src * 4) (wkdmDecompress src cap)) ∧
    ¬ ∀ (src : List UInt8) (cap : Nat),
      DecodesInside cap (wkdmWords src * 8) (wkdm64Decompress src cap) := by
  constructor
  · intro h
    have hrun : wkdmDecompress [1, 0, 0, 0, 1, 0, 0, 0, 0, 0, 0, 0, 1, 255] 4 = .error .oob := by
      decide
    have hinside := h [1, 0, 0, 0, 1, 0, 0, 0, 0, 0, 0, 0, 1, 255] 4
    rw [hrun] at hinside
    exact not_decodesInside_oob _ _ hinside
  · intro h
    have hrun : wkdm64Decompress [1, 0, 0, 0, 1, 0, 0, 0, 0, 0, 0, 0, 1, 255] 8 = .error .oob := by
      decide
    have hinside := h [1, 0, 0, 0, 1, 0, 0, 0, 0, 0, 0, 0, 1, 255] 8
    rw [hrun] at hinside
    exact not_decodesInside_oob _ _ hinside

end MiniMem
