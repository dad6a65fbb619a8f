import MiniMem.Compressors.Wkdm.Roundtrip

/-!
# MiniMem.Compressors.Wkdm.Overflow

The WKdm encoder on sources of any length.  Its scratch areas are made for
a page, and it admits every multiple of the word size, so what decides is
how many words of each kind there are: a run goes outside a scratch area
exactly when one of the four streams of its tokens does not fit there.
-/

namespace MiniMem

/-! ## Writes that stay inside -/

/-- A run that keeps the length of its buffer, or leaves it. -/
def KeepsLength (buf : List UInt8) (run : Except Stop (List UInt8)) : Prop :=
  run = .error .oob ∨ ∃ buf', run = .ok buf' ∧ buf'.length = buf.length

theorem keepsLength_orByte (buf : List UInt8) (pos : Nat) (v : UInt8) :
    KeepsLength buf (orByte buf pos v) := by
  unfold orByte
  split
  · exact .inr ⟨_, rfl, by simp⟩
  · exact .inl rfl

theorem keepsLength_setTag (tags : List UInt8) (wordIdx tag : Nat) :
    KeepsLength tags (setTag tags wordIdx tag) := by
  unfold setTag
  dsimp only
  obtain herr | ⟨buf, hbuf, hlen⟩ := keepsLength_orByte tags (wordIdx * 2 / 8)
    (UInt8.ofNat (tag <<< (wordIdx * 2 % 8)))
  · rw [herr]
    exact .inl rfl
  · rw [hbuf]
    simp only [bind, Except.bind]
    split
    · obtain herr | ⟨buf', hbuf', hlen'⟩ := keepsLength_orByte buf (wordIdx * 2 / 8 + 1)
        (UInt8.ofNat (tag >>> (8 - wordIdx * 2 % 8)))
      · exact .inl herr
      · exact .inr ⟨buf', hbuf', hlen'.trans hlen⟩
    · exact .inr ⟨buf, rfl, hlen⟩

/-- A write at the count of a stream keeps the stream within its area, or leaves it. -/
theorem writeAt_count {buf : List UInt8} (bs : List UInt8) (count : Nat) {w size : Nat}
    (hbuf : buf.length = size) (hbs : bs.length = w) :
    writeAt buf (count * w) bs = .error .oob ∨
      ∃ buf', writeAt buf (count * w) bs = .ok buf' ∧ buf'.length = size ∧
        (count + 1) * w ≤ size := by
  by_cases h : count * w + bs.length ≤ buf.length
  · obtain ⟨buf', hwrite, hlen, -⟩ := writeAt_ok buf bs (count * w) h
    refine .inr ⟨buf', hwrite, hlen.trans hbuf, ?_⟩
    rw [Nat.succ_mul]
    omega
  · left
    rw [writeAt, if_neg h]

/-! ## Counting -/

/-- The areas have their declared sizes, and the streams of the tokens `ts` other than the
tags have stayed within them. -/
structure WkdmCounted (p : WkdmParams) (ts : List WkdmToken) (s : WkdmState) : Prop where
  length_exactBuf : s.exactBuf.length = p.exactBufSize
  length_partialBuf : s.partialBuf.length = p.partialBufSize
  length_missBuf : s.missBuf.length = p.missBufSize
  exactCount_eq : s.exactCount = codeCount 1 ts
  partialCount_eq : s.partialCount = codeCount 2 ts
  missCount_eq : s.missCount = codeCount 3 ts
  exacts : codeCount 1 ts ≤ p.exactBufSize
  partials : codeCount 2 ts * p.partialBytes ≤ p.partialBufSize
  misses : codeCount 3 ts * p.wordBytes ≤ p.missBufSize

/-- A stream of records of `w` bytes, one for each token of a code, that has stayed within its
area. -/
structure StreamWithin (code w size : Nat) (ts : List WkdmToken) (buf : List UInt8)
    (count : Nat) : Prop where
  length : buf.length = size
  count_eq : count = codeCount code ts
  within : codeCount code ts * w ≤ size

theorem StreamWithin.skip {code w size count : Nat} {ts : List WkdmToken} {buf : List UInt8}
    (h : StreamWithin code w size ts buf count) {t : WkdmToken} (hne : t.code ≠ code) :
    StreamWithin code w size (ts ++ [t]) buf count where
  length := h.length
  count_eq := by simp [h.count_eq, hne]
  within := by simpa [hne] using h.within

/-- A record is written behind a stream, or leaves the area. -/
theorem StreamWithin.push {code w size count : Nat} {ts : List WkdmToken} {buf : List UInt8}
    (h : StreamWithin code w size ts buf count) {t : WkdmToken} (hcode : t.code = code)
    {bs : List UInt8} (hbs : bs.length = w) :
    writeAt buf (count * w) bs = .error .oob ∨
      ∃ buf', writeAt buf (count * w) bs = .ok buf' ∧
        StreamWithin code w size (ts ++ [t]) buf' (count + 1) := by
  have hcount : codeCount code (ts ++ [t]) = count + 1 := by simp [h.count_eq, hcode]
  obtain herr | ⟨buf', hwrite, hlen, hle⟩ := writeAt_count bs count h.length hbs
  · exact .inl herr
  · exact .inr ⟨buf', hwrite, hlen, hcount.symm, by rw [hcount]; exact hle⟩

section Streams

variable {p : WkdmParams} {ts : List WkdmToken} {s : WkdmState}

theorem WkdmCounted.exactStream (h : WkdmCounted p ts s) :
    StreamWithin 1 1 p.exactBufSize ts s.exactBuf s.exactCount :=
  ⟨h.length_exactBuf, h.exactCount_eq, by rw [Nat.mul_one]; exact h.exacts⟩

theorem WkdmCounted.partialStream (h : WkdmCounted p ts s) :
    StreamWithin 2 p.partialBytes p.partialBufSize ts s.partialBuf s.partialCount :=
  ⟨h.length_partialBuf, h.partialCount_eq, h.partials⟩

theorem WkdmCounted.missStream (h : WkdmCounted p ts s) :
    StreamWithin 3 p.wordBytes p.missBufSize ts s.missBuf s.missCount :=
  ⟨h.length_missBuf, h.missCount_eq, h.misses⟩

theorem wkdmCounted_of_streams (hexacts : StreamWithin 1 1 p.exactBufSize ts s.exactBuf s.exactCount)
    (hpartials : StreamWithin 2 p.partialBytes p.partialBufSize ts s.partialBuf s.partialCount)
    (hmisses : StreamWithin 3 p.wordBytes p.missBufSize ts s.missBuf s.missCount) :
    WkdmCounted p ts s where
  length_exactBuf := hexacts.length
  length_partialBuf := hpartials.length
  length_missBuf := hmisses.length
  exactCount_eq := hexacts.count_eq
  partialCount_eq := hpartials.count_eq
  missCount_eq := hmisses.count_eq
  exacts := by rw [← Nat.mul_one (codeCount 1 ts)]; exact hexacts.within
  partials := hpartials.within
  misses := hmisses.within

end Streams

/-- A token is counted in the stream of its kind, or leaves the area. -/
theorem WkdmToken.store_counted {p : WkdmParams} {ts : List WkdmToken} {s : WkdmState}
    (h : WkdmCounted p ts s) (t : WkdmToken) :
    t.store p s = .error .oob ∨
      ∃ s', t.store p s = .ok s' ∧ WkdmCounted p (ts ++ [t]) s' ∧ s'.dict = t.update p s.dict := by
  have hexacts : t.code ≠ 1 → _ := h.exactStream.skip
  have hpartials : t.code ≠ 2 → _ := h.partialStream.skip
  have hmisses : t.code ≠ 3 → _ := h.missStream.skip
  cases t with
  | tagZero =>
      exact .inr ⟨s, rfl, wkdmCounted_of_streams (hexacts (by decide)) (hpartials (by decide))
        (hmisses (by decide)), rfl⟩
  | tagExact idx =>
      have hwrite := h.exactStream.push (t := .tagExact idx) rfl
        (List.length_singleton (a := UInt8.ofNat idx))
      rw [Nat.mul_one] at hwrite
      simp only [WkdmToken.store]
      obtain herr | ⟨buf, hbuf, hstream⟩ := hwrite
      · rw [herr]
        exact .inl rfl
      · rw [hbuf]
        exact .inr ⟨_, rfl, wkdmCounted_of_streams hstream (hpartials (by simp [code]))
          (hmisses (by simp [code])), rfl⟩
  | tagPartial val =>
      simp only [WkdmToken.store]
      obtain herr | ⟨buf, hbuf, hstream⟩ := h.partialStream.push (t := .tagPartial val) rfl
        (length_leBytes p.partialBytes val)
      · rw [herr]
        exact .inl rfl
      · rw [hbuf]
        exact .inr ⟨_, rfl, wkdmCounted_of_streams (hexacts (by simp [code])) hstream
          (hmisses (by simp [code])), rfl⟩
  | tagMiss val =>
      simp only [WkdmToken.store]
      obtain herr | ⟨buf, hbuf, hstream⟩ := h.missStream.push (t := .tagMiss val) rfl
        (length_leBytes p.wordBytes val)
      · rw [herr]
        exact .inl rfl
      · rw [hbuf]
        exact .inr ⟨_, rfl, wkdmCounted_of_streams (hexacts (by simp [code]))
          (hpartials (by simp [code])) hstream, rfl⟩

/-- The tags are none of the streams that are counted. -/
theorem WkdmCounted.setTags {p : WkdmParams} {ts : List WkdmToken} {s : WkdmState}
    (h : WkdmCounted p ts s) (tags : List UInt8) : WkdmCounted p ts { s with tagBuf := tags } :=
  { h with }

/-- One iteration counts the token of its word, or leaves an area. -/
theorem wkdmCompressWord_counted {p : WkdmParams} {ts : List WkdmToken} {s : WkdmState}
    (h : WkdmCounted p ts s) (i val : Nat) :
    wkdmCompressWord p s i val = .error .oob ∨
      ∃ s', wkdmCompressWord p s i val = .ok s' ∧
        WkdmCounted p (ts ++ [wkdmToken p s.dict val]) s' ∧
        s'.dict = (wkdmToken p s.dict val).update p s.dict := by
  rw [wkdmCompressWord_eq]
  obtain herr | ⟨tags, htags, -⟩ := keepsLength_setTag s.tagBuf i (wkdmToken p s.dict val).code
  · rw [herr]
    exact .inl rfl
  · rw [htags]
    exact WkdmToken.store_counted (h.setTags tags) _

/-- The loop counts the tokens of its words, or leaves an area. -/
theorem wkdmCompressWords_counted {p : WkdmParams} {ts : List WkdmToken} {s : WkdmState}
    (h : WkdmCounted p ts s) (i : Nat) (vals : List Nat) :
    wkdmCompressWords p s i vals = .error .oob ∨
      ∃ s', wkdmCompressWords p s i vals = .ok s' ∧
        WkdmCounted p (ts ++ wkdmTokens p s.dict vals) s' := by
  induction vals generalizing ts s i with
  | nil => exact .inr ⟨s, rfl, by simpa [wkdmTokens] using h⟩
  | cons val vals ih =>
      rw [wkdmCompressWords, wkdmTokens, List.append_cons]
      obtain herr | ⟨s₁, hword, hcounted, hdict⟩ := wkdmCompressWord_counted h i val
      · rw [herr]
        exact .inl rfl
      · rw [hword, ← hdict]
        exact ih hcounted (i + 1)

/-- **Scratch areas**: on whole words the encoder leaves one of its areas exactly when a
stream of the tokens it reads does not fit there. -/
theorem wkdmCompressImpl_eq_oob_iff {p : WkdmParams} {src : List UInt8} (cap : Nat)
    (scratch : WkdmScratch p) (hpos : src.length ≠ 0) (hmod : src.length % p.wordBytes = 0) :
    wkdmCompressImpl p src cap scratch = .error .oob ↔ ¬ WkdmFits p (wkdmReadTokens p src) := by
  constructor
  · intro h hfit
    rw [wkdmCompressImpl_of_fits cap scratch hpos hmod hfit] at h
    split at h <;> cases h
  · intro hfit
    have hlen := length_wkdmReadTokens p src
    unfold wkdmCompressImpl
    rw [if_neg (by simp [hpos, hmod])]
    dsimp only
    by_cases htags : 0 + (List.replicate
        ((src.length / p.wordBytes % 2 ^ 32 * 2 + 7) / 8) (0 : UInt8)).length ≤
          scratch.tagBuf.length
    · obtain ⟨tagBuf, hclear, -, -⟩ := writeAt_ok _ _ _ htags
      rw [hclear]
      simp only [bind, Except.bind]
      have hinit : WkdmCounted p [] ⟨tagBuf, scratch.exactBuf, scratch.partialBuf, scratch.missBuf,
          0, 0, 0, List.replicate p.dictSize 0⟩ :=
        ⟨scratch.length_exactBuf, scratch.length_partialBuf, scratch.length_missBuf, rfl, rfl, rfl,
          Nat.zero_le _, by simp, by simp⟩
      obtain herr | ⟨s, hloop, hcounted⟩ := wkdmCompressWords_counted hinit 0
        (wordsLE p.wordBytes (src.length / p.wordBytes % 2 ^ 32) src)
      · rw [herr]
      · have htoks : ([] : List WkdmToken) ++ wkdmTokens p (List.replicate p.dictSize 0)
            (wordsLE p.wordBytes (src.length / p.wordBytes % 2 ^ 32) src) =
              wkdmReadTokens p src := rfl
        rw [htoks] at hcounted
        rw [List.length_replicate, scratch.length_tagBuf] at htags
        exact absurd ⟨by omega, hcounted.exacts, hcounted.partials, hcounted.misses⟩ hfit
    · rw [writeAt, if_neg htags]
      rfl

end MiniMem
