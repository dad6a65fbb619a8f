import MiniMem.Compressors.Wkdm

/-!
# MiniMem.Compressors.Wkdm.Roundtrip

Whatever the WKdm encoder accepts, the decoder reads back.  The two sides
meet at `wkdmTokens`, the list of tokens of a source against a running
dictionary:

* **encoder** -- after `ts` tokens the scratch areas hold the four streams
  of `ts` (`WkdmEncoded`), one step adds one token;
* **decoder** -- on a source laid out as the streams of `ts`
  (`WkdmLayout`), one step replays one token and rebuilds the dictionary.

The bytes emitted are a function of the tokens alone, so they do not depend
on what the scratch areas held before.
-/

namespace MiniMem

/-! ## Tag fields -/

/-- The two-bit field of word `j` in a tag area. -/
def tagAt (buf : List UInt8) (j : Nat) : Nat := (buf.getD (j / 4) 0).toNat >>> (2 * (j % 4)) &&& 3

/-- In a zero byte every tag is 0. -/
theorem tagAt_zero_byte {buf : List UInt8} {j : Nat} (h : buf[j / 4]? = some 0) :
    tagAt buf j = 0 := by
  simp [tagAt, List.getD_eq_getElem?_getD, h]

/-- A tag read is the field it addresses. -/
theorem getTag_eq {src : List UInt8} {base j : Nat} (h : base + j / 4 < src.length) :
    getTag src base j = .ok (tagAt (src.drop base) j) := by
  have hbyte : j * 2 / 8 = j / 4 := by omega
  have hbit : j * 2 % 8 = 2 * (j % 4) := by omega
  have hfit : 2 * (j % 4) + 2 ≤ 8 := by omega
  simp only [getTag, hbyte, hbit, readByte, List.getElem?_eq_getElem h, tagAt,
    List.getD_eq_getElem?_getD, List.getElem?_drop]
  simp [hfit, bind, Except.bind]

/-- A field shifted into one place shows up in that place only. -/
theorem shiftLeft_shiftRight_field : ∀ t < 4, ∀ a < 4, ∀ b < 4,
    ((t <<< (2 * a)) % 2 ^ 8) >>> (2 * b) &&& 3 = if b = a then t else 0 := by
  decide

/-- Or-ing a byte of a tag area changes its fields only. -/
theorem tagAt_modify_or {tags : List UInt8} {n : Nat} (h : n < tags.length) (v : UInt8) (k : Nat) :
    tagAt (tags.modify n (· ||| v)) k
      = tagAt tags k ||| if k / 4 = n then v.toNat >>> (2 * (k % 4)) &&& 3 else 0 := by
  simp only [tagAt, List.getD_eq_getElem?_getD, List.getElem?_modify]
  by_cases hk : k / 4 = n
  · subst hk
    simp [List.getElem?_eq_getElem h, Nat.shiftRight_or_distrib, Nat.and_or_distrib_right]
  · simp [hk, Ne.symm hk]

/-- `set_tag` on a clear field sets that field and leaves the others alone. -/
theorem setTag_ok {tags : List UInt8} {j t : Nat} (ht : t < 4) (hj : j / 4 < tags.length)
    (hclear : tagAt tags j = 0) :
    ∃ tags', setTag tags j t = .ok tags' ∧ tags'.length = tags.length ∧
      ∀ k, tagAt tags' k = if k = j then t else tagAt tags k := by
  have hbyte : j * 2 / 8 = j / 4 := by omega
  have hbit : j * 2 % 8 = 2 * (j % 4) := by omega
  have hfit : ¬ 2 * (j % 4) + 2 > 8 := by omega
  refine ⟨tags.modify (j / 4) (· ||| UInt8.ofNat (t <<< (2 * (j % 4)))), ?_, by simp, ?_⟩
  · simp only [setTag, hbyte, hbit, orByte, hj, if_true, bind, Except.bind, hfit, if_false]
  · intro k
    have hfield := shiftLeft_shiftRight_field t ht (j % 4) (by omega) (k % 4) (by omega)
    rw [tagAt_modify_or hj, UInt8.toNat_ofNat', hfield]
    by_cases hkj : k = j
    · rw [hkj, hclear]
      simp
    · have hne : ¬ (k / 4 = j / 4 ∧ k % 4 = j % 4) := by omega
      rw [if_neg hkj]
      by_cases hk : k / 4 = j / 4
      · simp [hk, show ¬ k % 4 = j % 4 from fun h => hne ⟨hk, h⟩]
      · simp [hk]

/-! ## Tokens -/

/-- The token of a word against a dictionary. -/
def wkdmToken (p : WkdmParams) (dict : List Nat) (val : Nat) : WkdmToken :=
  if val = 0 then .tagZero
  else if dict.getD (p.hash val) 0 = val then .tagExact (p.hash val)
  else if p.isPartial val then .tagPartial val
  else .tagMiss val

/-- The dictionary after a token. -/
def WkdmToken.update (p : WkdmParams) (dict : List Nat) : WkdmToken → List Nat
  | .tagPartial val => dict.set (p.hash val) val
  | .tagMiss val => dict.set (p.hash val) val
  | _ => dict

/-- The tokens of a list of words, from a dictionary on. -/
def wkdmTokens (p : WkdmParams) : List Nat → List Nat → List WkdmToken
  | _, [] => []
  | dict, val :: vals =>
      wkdmToken p dict val :: wkdmTokens p ((wkdmToken p dict val).update p dict) vals

/-- What a token adds to the hit stream. -/
def WkdmToken.exactBytes : WkdmToken → List UInt8
  | .tagExact idx => [UInt8.ofNat idx]
  | _ => []

/-- What a token adds to the partial stream. -/
def WkdmToken.partialBytes (p : WkdmParams) : WkdmToken → List UInt8
  | .tagPartial val => leBytes p.partialBytes val
  | _ => []

/-- What a token adds to the miss stream. -/
def WkdmToken.missBytes (p : WkdmParams) : WkdmToken → List UInt8
  | .tagMiss val => leBytes p.wordBytes val
  | _ => []

/-- How many tokens of a list have a given code. -/
def codeCount (code : Nat) (ts : List WkdmToken) : Nat := ts.countP (·.code == code)

/-- A tag fits two bits. -/
theorem WkdmToken.code_lt (t : WkdmToken) : t.code < 4 := by
  cases t <;> simp [WkdmToken.code]

/-- There is one token for each word. -/
@[simp] theorem length_wkdmTokens (p : WkdmParams) (dict vals : List Nat) :
    (wkdmTokens p dict vals).length = vals.length := by
  induction vals generalizing dict with
  | nil => rfl
  | cons val vals ih => simp [wkdmTokens, ih]

/-- The dictionary keeps its size. -/
theorem WkdmToken.length_update (p : WkdmParams) (dict : List Nat) (t : WkdmToken) :
    (t.update p dict).length = dict.length := by
  cases t <;> simp [WkdmToken.update]

/-- The first token counts under its own code. -/
@[simp] theorem codeCount_cons (code : Nat) (t : WkdmToken) (ts : List WkdmToken) :
    codeCount code (t :: ts) = codeCount code ts + if t.code = code then 1 else 0 := by
  simp [codeCount, List.countP_cons]

/-- A stream in which only the tokens of one code store `w` bytes each. -/
theorem length_flatMap_of_code {f : WkdmToken → List UInt8} {code w : Nat}
    (hf : ∀ t, (f t).length = if t.code = code then w else 0) (ts : List WkdmToken) :
    (ts.flatMap f).length = codeCount code ts * w := by
  induction ts with
  | nil => simp [codeCount]
  | cons t ts ih =>
      rw [List.flatMap_cons, List.length_append, ih, hf, codeCount_cons, Nat.add_mul]
      by_cases h : t.code = code
      · simp [h, Nat.add_comm]
      · simp [h]

/-- An exact hit has one byte in its stream, any other token none. -/
theorem WkdmToken.length_exactBytes (t : WkdmToken) :
    t.exactBytes.length = if t.code = 1 then 1 else 0 := by
  cases t <;> rfl

/-- A partial hit has its low bits. -/
theorem WkdmToken.length_partialBytes (p : WkdmParams) (t : WkdmToken) :
    (t.partialBytes p).length = if t.code = 2 then p.partialBytes else 0 := by
  cases t <;> simp [WkdmToken.partialBytes, WkdmToken.code]

/-- A miss has its word. -/
theorem WkdmToken.length_missBytes (p : WkdmParams) (t : WkdmToken) :
    (t.missBytes p).length = if t.code = 3 then p.wordBytes else 0 := by
  cases t <;> simp [WkdmToken.missBytes, WkdmToken.code]

/-- No code comes more often than there are tokens. -/
theorem codeCount_le_length (code : Nat) (ts : List WkdmToken) : codeCount code ts ≤ ts.length :=
  List.countP_le_length

@[simp] theorem codeCount_nil (code : Nat) : codeCount code [] = 0 := rfl

/-- Counts add up. -/
@[simp] theorem codeCount_append (code : Nat) (ts us : List WkdmToken) :
    codeCount code (ts ++ us) = codeCount code ts + codeCount code us := by
  simp [codeCount]

/-! ## The encoder writes the streams of the tokens -/

/-- The scratch areas after the tokens `ts`, out of `n` words. -/
structure WkdmEncoded (p : WkdmParams) (n : Nat) (ts : List WkdmToken) (s : WkdmState) : Prop where
  length_tagBuf : s.tagBuf.length = p.tagBufSize
  length_exactBuf : s.exactBuf.length = p.exactBufSize
  length_partialBuf : s.partialBuf.length = p.partialBufSize
  length_missBuf : s.missBuf.length = p.missBufSize
  tagAt_eq : ∀ j < (n + 3) / 4 * 4, tagAt s.tagBuf j = (ts.map WkdmToken.code).getD j 0
  exactCount_eq : s.exactCount = codeCount 1 ts
  partialCount_eq : s.partialCount = codeCount 2 ts
  missCount_eq : s.missCount = codeCount 3 ts
  take_exactBuf : s.exactBuf.take s.exactCount = ts.flatMap WkdmToken.exactBytes
  take_partialBuf : s.partialBuf.take (s.partialCount * p.partialBytes)
    = ts.flatMap (WkdmToken.partialBytes p)
  take_missBuf : s.missBuf.take (s.missCount * p.wordBytes) = ts.flatMap (WkdmToken.missBytes p)

/-- The streams of the tokens `ts` fit their scratch areas. -/
structure WkdmFits (p : WkdmParams) (ts : List WkdmToken) : Prop where
  tags : (ts.length + 3) / 4 ≤ p.tagBufSize
  exacts : codeCount 1 ts ≤ p.exactBufSize
  partials : codeCount 2 ts * p.partialBytes ≤ p.partialBufSize
  misses : codeCount 3 ts * p.wordBytes ≤ p.missBufSize

/-- What fits at the end fits before. -/
theorem WkdmFits.left {p : WkdmParams} {ts us : List WkdmToken} (h : WkdmFits p (ts ++ us)) :
    WkdmFits p ts where
  tags := by
    have := h.tags
    rw [List.length_append] at this
    omega
  exacts := by
    have := h.exacts
    rw [codeCount_append] at this
    omega
  partials := by
    have := h.partials
    rw [codeCount_append, Nat.add_mul] at this
    omega
  misses := by
    have := h.misses
    rw [codeCount_append, Nat.add_mul] at this
    omega

/-- The scratch areas are made for the words of a page. -/
theorem wkdmFits_of_le {p : WkdmParams} {ts : List WkdmToken}
    (h : ts.length ≤ 4096 / p.wordBytes) : WkdmFits p ts where
  tags := by
    have := p.tag_room
    omega
  exacts := by
    have := p.exact_room
    have := codeCount_le_length 1 ts
    omega
  partials := Nat.le_trans
    (Nat.mul_le_mul_right _ (Nat.le_trans (codeCount_le_length 2 ts) h)) p.partial_room
  misses := Nat.le_trans
    (Nat.mul_le_mul_right _ (Nat.le_trans (codeCount_le_length 3 ts) h)) p.miss_room

/-- Setting the tag of the next word extends the tag fields by its code. -/
theorem setTag_next {p : WkdmParams} {n : Nat} {ts : List WkdmToken} {s : WkdmState}
    (h : WkdmEncoded p n ts s) (hlt : ts.length < n) (hn : (n + 3) / 4 ≤ p.tagBufSize)
    (t : WkdmToken) :
    ∃ tags, setTag s.tagBuf ts.length t.code = .ok tags ∧ tags.length = p.tagBufSize ∧
      ∀ j < (n + 3) / 4 * 4, tagAt tags j = ((ts ++ [t]).map WkdmToken.code).getD j 0 := by
  have hroom : ts.length / 4 < s.tagBuf.length := by
    rw [h.length_tagBuf]
    omega
  have hclear : tagAt s.tagBuf ts.length = 0 := by
    rw [h.tagAt_eq _ (by omega)]
    simp
  obtain ⟨tags, htags, hlen, hfields⟩ := setTag_ok t.code_lt hroom hclear
  refine ⟨tags, htags, hlen.trans h.length_tagBuf, ?_⟩
  intro j hj
  rw [hfields]
  by_cases hjl : j = ts.length
  · simp [hjl]
  · rw [if_neg hjl, h.tagAt_eq j hj]
    simp only [List.map_append, List.getD_eq_getElem?_getD, List.map_cons, List.map_nil]
    by_cases hlt' : j < ts.length
    · rw [List.getElem?_append_left (by simpa using hlt')]
    · rw [List.getElem?_append_right (by simp; omega),
        List.getElem?_eq_none (by simp; omega), List.getElem?_eq_none (by simp; omega)]

/-- A stream write at the current count extends the filled part by one record. -/
theorem writeAt_next {buf : List UInt8} (bs : List UInt8) (w : Nat) {count size m : Nat}
    (hbuf : buf.length = size) (hbs : bs.length = w) (hcount : count < m) (hroom : m * w ≤ size) :
    ∃ buf', writeAt buf (count * w) bs = .ok buf' ∧ buf'.length = size ∧
      buf'.take ((count + 1) * w) = buf.take (count * w) ++ bs := by
  have hle : (count + 1) * w ≤ m * w := Nat.mul_le_mul_right w hcount
  rw [Nat.succ_mul] at hle ⊢
  obtain ⟨buf', hwrite, hlen, htake⟩ := writeAt_ok buf bs (count * w)
    (by omega)
  rw [hbs] at htake
  exact ⟨buf', hwrite, hlen.trans hbuf, htake⟩

/-- A stream to which each token of one code adds `w` bytes: the front of its area, as far as
it has been written. -/
structure StreamHolds (f : WkdmToken → List UInt8) (code w : Nat) (ts : List WkdmToken)
    (buf : List UInt8) (count : Nat) : Prop where
  count_eq : count = codeCount code ts
  take_eq : buf.take (count * w) = ts.flatMap f

/-- Tokens of other codes add nothing to a stream. -/
theorem StreamHolds.skip {f : WkdmToken → List UInt8} {code w : Nat} {ts : List WkdmToken}
    {buf : List UInt8} {count : Nat} (h : StreamHolds f code w ts buf count)
    (hf : ∀ t, (f t).length = if t.code = code then w else 0) {t : WkdmToken}
    (hne : t.code ≠ code) : StreamHolds f code w (ts ++ [t]) buf count where
  count_eq := by simp [h.count_eq, hne]
  take_eq := by
    have hnil : f t = [] := List.length_eq_zero_iff.1 (by rw [hf, if_neg hne])
    rw [h.take_eq, List.flatMap_append, List.flatMap_singleton, hnil, List.append_nil]

/-- A token of its code is written behind a stream. -/
theorem StreamHolds.push {f : WkdmToken → List UInt8} {code w size : Nat} {ts : List WkdmToken}
    {buf : List UInt8} {count : Nat} (h : StreamHolds f code w ts buf count)
    (hf : ∀ t, (f t).length = if t.code = code then w else 0) (hbuf : buf.length = size)
    {t : WkdmToken} (hcode : t.code = code) (hroom : codeCount code (ts ++ [t]) * w ≤ size) :
    ∃ buf', writeAt buf (count * w) (f t) = .ok buf' ∧ buf'.length = size ∧
      StreamHolds f code w (ts ++ [t]) buf' (count + 1) := by
  have hcount : codeCount code (ts ++ [t]) = count + 1 := by simp [h.count_eq, hcode]
  rw [hcount] at hroom
  obtain ⟨buf', hwrite, hlen, htake⟩ := writeAt_next (f t) w hbuf (by rw [hf, if_pos hcode])
    (Nat.lt_succ_self count) hroom
  refine ⟨buf', hwrite, hlen, hcount.symm, ?_⟩
  rw [htake, h.take_eq, List.flatMap_append, List.flatMap_singleton]

section Streams

variable {p : WkdmParams} {n : Nat} {ts : List WkdmToken} {s : WkdmState}

/-- The stream of the exact hits holds its bytes. -/
theorem WkdmEncoded.exacts (h : WkdmEncoded p n ts s) :
    StreamHolds WkdmToken.exactBytes 1 1 ts s.exactBuf s.exactCount :=
  ⟨h.exactCount_eq, by rw [Nat.mul_one]; exact h.take_exactBuf⟩

/-- So does that of the partial hits. -/
theorem WkdmEncoded.partials (h : WkdmEncoded p n ts s) :
    StreamHolds (WkdmToken.partialBytes p) 2 p.partialBytes ts s.partialBuf s.partialCount :=
  ⟨h.partialCount_eq, h.take_partialBuf⟩

/-- So does that of the misses. -/
theorem WkdmEncoded.misses (h : WkdmEncoded p n ts s) :
    StreamHolds (WkdmToken.missBytes p) 3 p.wordBytes ts s.missBuf s.missCount :=
  ⟨h.missCount_eq, h.take_missBuf⟩

/-- The areas hold the tags and the three streams. -/
theorem wkdmEncoded_of_streams (hlenTags : s.tagBuf.length = p.tagBufSize)
    (htags : ∀ j < (n + 3) / 4 * 4, tagAt s.tagBuf j = (ts.map WkdmToken.code).getD j 0)
    (hlenExacts : s.exactBuf.length = p.exactBufSize)
    (hexacts : StreamHolds WkdmToken.exactBytes 1 1 ts s.exactBuf s.exactCount)
    (hlenPartials : s.partialBuf.length = p.partialBufSize)
    (hpartials : StreamHolds (WkdmToken.partialBytes p) 2 p.partialBytes ts s.partialBuf
      s.partialCount)
    (hlenMisses : s.missBuf.length = p.missBufSize)
    (hmisses : StreamHolds (WkdmToken.missBytes p) 3 p.wordBytes ts s.missBuf s.missCount) :
    WkdmEncoded p n ts s where
  length_tagBuf := hlenTags
  length_exactBuf := hlenExacts
  length_partialBuf := hlenPartials
  length_missBuf := hlenMisses
  tagAt_eq := htags
  exactCount_eq := hexacts.count_eq
  partialCount_eq := hpartials.count_eq
  missCount_eq := hmisses.count_eq
  take_exactBuf := by rw [← hexacts.take_eq, Nat.mul_one]
  take_partialBuf := hpartials.take_eq
  take_missBuf := hmisses.take_eq

end Streams

/-- What an iteration does with the token of its word besides setting the tag. -/
def WkdmToken.store (p : WkdmParams) (s : WkdmState) : WkdmToken → Except Stop WkdmState
  | .tagZero => .ok s
  | .tagExact idx => do
      let buf ← writeAt s.exactBuf s.exactCount [UInt8.ofNat idx]
      .ok { s with exactBuf := buf, exactCount := s.exactCount + 1 }
  | .tagPartial val => do
      let buf ← writeAt s.partialBuf (s.partialCount * p.partialBytes) (leBytes p.partialBytes val)
      .ok { s with
        partialBuf := buf, partialCount := s.partialCount + 1, dict := s.dict.set (p.hash val) val }
  | .tagMiss val => do
      let buf ← writeAt s.missBuf (s.missCount * p.wordBytes) (leBytes p.wordBytes val)
      .ok { s with
        missBuf := buf, missCount := s.missCount + 1, dict := s.dict.set (p.hash val) val }

/-- An iteration sets the tag of its word and stores the token. -/
theorem wkdmCompressWord_eq (p : WkdmParams) (s : WkdmState) (i val : Nat) :
    wkdmCompressWord p s i val = (setTag s.tagBuf i (wkdmToken p s.dict val).code).bind
      fun tags => (wkdmToken p s.dict val).store p { s with tagBuf := tags } := by
  unfold wkdmCompressWord wkdmToken
  dsimp only
  by_cases hzero : val = 0
  · rw [if_pos hzero, if_pos hzero]
    rfl
  rw [if_neg hzero, if_neg hzero]
  by_cases hexact : s.dict.getD (p.hash val) 0 = val
  · rw [if_pos hexact, if_pos hexact]
    rfl
  rw [if_neg hexact, if_neg hexact]
  by_cases hpartial : p.isPartial val = true
  · rw [if_pos hpartial, if_pos hpartial]
    rfl
  · rw [if_neg hpartial, if_neg hpartial]
    rfl

/-- Behind its tag a token goes to the stream of its kind. -/
theorem WkdmToken.store_ok {p : WkdmParams} {n : Nat} {ts : List WkdmToken} {s : WkdmState}
    (h : WkdmEncoded p n ts s) (t : WkdmToken) {tags : List UInt8}
    (hlen : tags.length = p.tagBufSize) (hfields : ∀ j < (n + 3) / 4 * 4,
      tagAt tags j = ((ts ++ [t]).map WkdmToken.code).getD j 0)
    (hfit : WkdmFits p (ts ++ [t])) :
    ∃ s', t.store p { s with tagBuf := tags } = .ok s' ∧ WkdmEncoded p n (ts ++ [t]) s' ∧
      s'.dict = t.update p s.dict := by
  have hexacts : t.code ≠ 1 → _ := h.exacts.skip WkdmToken.length_exactBytes
  have hpartials : t.code ≠ 2 → _ := h.partials.skip (WkdmToken.length_partialBytes p)
  have hmisses : t.code ≠ 3 → _ := h.misses.skip (WkdmToken.length_missBytes p)
  cases t with
  | tagZero =>
      exact ⟨_, rfl, wkdmEncoded_of_streams hlen hfields h.length_exactBuf (hexacts (by decide))
        h.length_partialBuf (hpartials (by decide)) h.length_missBuf (hmisses (by decide)), rfl⟩
  | tagExact idx =>
      obtain ⟨buf, hwrite, hbuf, hstream⟩ := h.exacts.push WkdmToken.length_exactBytes
        h.length_exactBuf (t := .tagExact idx) rfl (by rw [Nat.mul_one]; exact hfit.exacts)
      rw [Nat.mul_one, WkdmToken.exactBytes] at hwrite
      refine ⟨{ s with tagBuf := tags, exactBuf := buf, exactCount := s.exactCount + 1 }, ?_, ?_,
        rfl⟩
      · simp only [WkdmToken.store, hwrite, bind, Except.bind]
      · exact wkdmEncoded_of_streams hlen hfields hbuf hstream h.length_partialBuf
          (hpartials (by simp [code])) h.length_missBuf (hmisses (by simp [code]))
  | tagPartial val =>
      obtain ⟨buf, hwrite, hbuf, hstream⟩ := h.partials.push (WkdmToken.length_partialBytes p)
        h.length_partialBuf (t := .tagPartial val) rfl hfit.partials
      rw [WkdmToken.partialBytes] at hwrite
      refine ⟨{ s with
        tagBuf := tags, partialBuf := buf, partialCount := s.partialCount + 1,
        dict := s.dict.set (p.hash val) val }, ?_, ?_, rfl⟩
      · simp only [WkdmToken.store, hwrite, bind, Except.bind]
      · exact wkdmEncoded_of_streams hlen hfields h.length_exactBuf (hexacts (by simp [code])) hbuf
          hstream h.length_missBuf (hmisses (by simp [code]))
  | tagMiss val =>
      obtain ⟨buf, hwrite, hbuf, hstream⟩ := h.misses.push (WkdmToken.length_missBytes p)
        h.length_missBuf (t := .tagMiss val) rfl hfit.misses
      rw [WkdmToken.missBytes] at hwrite
      refine ⟨{ s with
        tagBuf := tags, missBuf := buf, missCount := s.missCount + 1,
        dict := s.dict.set (p.hash val) val }, ?_, ?_, rfl⟩
      · simp only [WkdmToken.store, hwrite, bind, Except.bind]
      · exact wkdmEncoded_of_streams hlen hfields h.length_exactBuf (hexacts (by simp [code]))
          h.length_partialBuf (hpartials (by simp [code])) hbuf hstream

/-- One iteration adds the token of its word. -/
theorem wkdmCompressWord_ok {p : WkdmParams} {n : Nat} {ts : List WkdmToken} {s : WkdmState}
    (h : WkdmEncoded p n ts s) (hlt : ts.length < n) (hn : (n + 3) / 4 ≤ p.tagBufSize) (val : Nat)
    (hfit : WkdmFits p (ts ++ [wkdmToken p s.dict val])) :
    ∃ s', wkdmCompressWord p s ts.length val = .ok s' ∧
      WkdmEncoded p n (ts ++ [wkdmToken p s.dict val]) s' ∧
      s'.dict = (wkdmToken p s.dict val).update p s.dict := by
  obtain ⟨tags, htags, hlen, hfields⟩ := setTag_next h hlt hn (wkdmToken p s.dict val)
  rw [wkdmCompressWord_eq, htags]
  exact WkdmToken.store_ok h _ hlen hfields hfit

/-- The loop adds the tokens of its words. -/
theorem wkdmCompressWords_ok {p : WkdmParams} {n : Nat} (hn : (n + 3) / 4 ≤ p.tagBufSize)
    (vals : List Nat) {ts : List WkdmToken} {s : WkdmState} (h : WkdmEncoded p n ts s)
    (hlen : ts.length + vals.length = n) (hfit : WkdmFits p (ts ++ wkdmTokens p s.dict vals)) :
    ∃ s', wkdmCompressWords p s ts.length vals = .ok s' ∧
      WkdmEncoded p n (ts ++ wkdmTokens p s.dict vals) s' := by
  induction vals generalizing ts s with
  | nil => exact ⟨s, rfl, by simpa [wkdmTokens] using h⟩
  | cons val vals ih =>
      simp only [List.length_cons] at hlen
      rw [wkdmTokens, List.append_cons] at hfit
      obtain ⟨s₁, hword, henc, hdict⟩ := wkdmCompressWord_ok h (by omega) hn val hfit.left
      obtain ⟨s', hwords, henc'⟩ := ih henc (by simp; omega) (by rw [hdict]; exact hfit)
      refine ⟨s', ?_, ?_⟩
      · rw [List.length_append, List.length_singleton] at hwords
        simp only [wkdmCompressWords, hword, hwords, bind, Except.bind]
      · rw [hdict, List.append_assoc, List.singleton_append] at henc'
        exact henc'

/-- A field inside the front of a tag area is a field of the area. -/
theorem tagAt_take {buf : List UInt8} {k j : Nat} (h : j / 4 < k) :
    tagAt (buf.take k) j = tagAt buf j := by
  simp [tagAt, List.getD_eq_getElem?_getD, h]

/-- Cleared scratch areas hold the streams of no token. -/
theorem wkdmEncoded_nil {p : WkdmParams} {n : Nat} (scratch : WkdmScratch p) {tags : List UInt8}
    (hlen : tags.length = p.tagBufSize) (htake : tags.take ((n + 3) / 4)
      = List.replicate ((n + 3) / 4) 0) (dict : List Nat) :
    WkdmEncoded p n [] ⟨tags, scratch.exactBuf, scratch.partialBuf, scratch.missBuf,
      0, 0, 0, dict⟩ where
  length_tagBuf := hlen
  length_exactBuf := scratch.length_exactBuf
  length_partialBuf := scratch.length_partialBuf
  length_missBuf := scratch.length_missBuf
  tagAt_eq j hj := by
    have hbyte : j / 4 < (n + 3) / 4 := by omega
    rw [← tagAt_take hbyte, htake]
    exact tagAt_zero_byte (by simp [hbyte])
  exactCount_eq := rfl
  partialCount_eq := rfl
  missCount_eq := rfl
  take_exactBuf := rfl
  take_partialBuf := by simp
  take_missBuf := by simp

/-- The tokens of a source of whole words. -/
def wkdmSourceTokens (p : WkdmParams) (src : List UInt8) : List WkdmToken :=
  wkdmTokens p (List.replicate p.dictSize 0) (wordsLE p.wordBytes (src.length / p.wordBytes) src)

/-- The words of a source. -/
@[simp] theorem length_wkdmSourceTokens (p : WkdmParams) (src : List UInt8) :
    (wkdmSourceTokens p src).length = src.length / p.wordBytes := by
  simp [wkdmSourceTokens]

/-- The byte whose four fields are given. -/
def tagByte (codes : List Nat) (b : Nat) : UInt8 :=
  UInt8.ofNat (codes.getD (4 * b) 0 + 4 * codes.getD (4 * b + 1) 0
    + 16 * codes.getD (4 * b + 2) 0 + 64 * codes.getD (4 * b + 3) 0)

/-- The tag stream of a list of codes. -/
def tagStream (codes : List Nat) : List UInt8 :=
  (List.range ((codes.length + 3) / 4)).map (tagByte codes)

/-- Four tags to a byte. -/
@[simp] theorem length_tagStream (codes : List Nat) :
    (tagStream codes).length = (codes.length + 3) / 4 := by
  simp [tagStream]

/-- A byte is made of its four fields. -/
theorem toNat_eq_fields (b : UInt8) :
    b.toNat = (b.toNat >>> 0 &&& 3) + 4 * (b.toNat >>> 2 &&& 3) + 16 * (b.toNat >>> 4 &&& 3)
      + 64 * (b.toNat >>> 6 &&& 3) := by
  have hb : b.toNat < 256 := b.toNat_lt
  have hmask : ∀ x : Nat, x &&& 3 = x % 4 := fun x => Nat.and_two_pow_sub_one_eq_mod x 2
  simp only [hmask, Nat.shiftRight_eq_div_pow]
  omega

/-- The front of a tag area with the fields of a list of codes is its stream. -/
theorem take_eq_tagStream (buf : List UInt8) (codes : List Nat)
    (hroom : (codes.length + 3) / 4 ≤ buf.length)
    (h : ∀ j < (codes.length + 3) / 4 * 4, tagAt buf j = codes.getD j 0) :
    buf.take ((codes.length + 3) / 4) = tagStream codes := by
  apply List.ext_getElem
  · simp [hroom]
  · intro b hb hb'
    rw [length_tagStream] at hb'
    have hlen : b < buf.length := by omega
    have hfield : ∀ r < 4, buf[b].toNat >>> (2 * r) &&& 3 = codes.getD (4 * b + r) 0 := by
      intro r hr
      rw [← h (4 * b + r) (by omega), tagAt, show (4 * b + r) / 4 = b by omega,
        show (4 * b + r) % 4 = r by omega, List.getD_eq_getElem?_getD,
        List.getElem?_eq_getElem (by omega), Option.getD_some]
    have hlt : ∀ r < 4, codes.getD (4 * b + r) 0 ≤ 3 := by
      intro r hr
      rw [← hfield r hr]
      exact Nat.and_le_right
    have h0 := hlt 0 (by omega)
    have h1 := hlt 1 (by omega)
    have h2 := hlt 2 (by omega)
    have h3 := hlt 3 (by omega)
    apply UInt8.toNat_inj.mp
    rw [List.getElem_take, toNat_eq_fields, hfield 0 (by omega), hfield 1 (by omega),
      hfield 2 (by omega), hfield 3 (by omega)]
    simp only [tagStream, List.getElem_map, List.getElem_range, tagByte, UInt8.toNat_ofNat',
      Nat.add_zero] at h0 ⊢
    omega

/-- A field of a tag stream is the code of its word. -/
theorem tagAt_tagStream {codes : List Nat} (hcodes : ∀ c ∈ codes, c < 4) {j : Nat}
    (hj : j < codes.length) : tagAt (tagStream codes) j = codes.getD j 0 := by
  have hlt : ∀ i, codes.getD i 0 < 4 := by
    intro i
    by_cases hi : i < codes.length
    · rw [List.getD_eq_getElem?_getD, List.getElem?_eq_getElem hi]
      exact hcodes _ (List.getElem_mem hi)
    · simp [List.getD_eq_getElem?_getD, List.getElem?_eq_none (Nat.not_lt.mp hi)]
  have hbyte : (tagStream codes).getD (j / 4) 0 = tagByte codes (j / 4) := by
    have hb : j / 4 < (codes.length + 3) / 4 := by omega
    simp [tagStream, List.getD_eq_getElem?_getD, hb]
  have hmask : ∀ x : Nat, x &&& 3 = x % 4 := fun x => Nat.and_two_pow_sub_one_eq_mod x 2
  have h0 := hlt (4 * (j / 4))
  have h1 := hlt (4 * (j / 4) + 1)
  have h2 := hlt (4 * (j / 4) + 2)
  have h3 := hlt (4 * (j / 4) + 3)
  rw [tagAt, hbyte, tagByte, UInt8.toNat_ofNat', hmask, Nat.shiftRight_eq_div_pow]
  have hcases : j = 4 * (j / 4) ∨ j = 4 * (j / 4) + 1 ∨ j = 4 * (j / 4) + 2 ∨
      j = 4 * (j / 4) + 3 := by omega
  generalize j / 4 = q at *
  rcases hcases with rfl | rfl | rfl | rfl
  · rw [show 4 * q % 4 = 0 by omega]
    omega
  · rw [show (4 * q + 1) % 4 = 1 by omega]
    omega
  · rw [show (4 * q + 2) % 4 = 2 by omega]
    omega
  · rw [show (4 * q + 3) % 4 = 3 by omega]
    omega

/-- The encoding of a list of tokens: the header and the four streams. -/
def wkdmEncode (p : WkdmParams) (ts : List WkdmToken) : List UInt8 :=
  leBytes 4 ts.length ++ leBytes 4 (codeCount 1 ts) ++ leBytes 4 (codeCount 2 ts) ++
    tagStream (ts.map WkdmToken.code) ++ ts.flatMap WkdmToken.exactBytes ++
    ts.flatMap (WkdmToken.partialBytes p) ++ ts.flatMap (WkdmToken.missBytes p)

/-- The header with its three counts, the tags, and the three streams. -/
theorem length_wkdmEncode (p : WkdmParams) (ts : List WkdmToken) :
    (wkdmEncode p ts).length = 12 + (ts.length + 3) / 4 + codeCount 1 ts
      + codeCount 2 ts * p.partialBytes + codeCount 3 ts * p.wordBytes := by
  simp only [wkdmEncode, List.length_append, length_leBytes, length_tagStream, List.length_map,
    length_flatMap_of_code WkdmToken.length_exactBytes,
    length_flatMap_of_code (WkdmToken.length_partialBytes p),
    length_flatMap_of_code (WkdmToken.length_missBytes p)]
  omega

/-- The tokens of the words that the encoder reads, whose number is a `uint32_t`. -/
def wkdmReadTokens (p : WkdmParams) (src : List UInt8) : List WkdmToken :=
  wkdmTokens p (List.replicate p.dictSize 0)
    (wordsLE p.wordBytes (src.length / p.wordBytes % 2 ^ 32) src)

@[simp] theorem length_wkdmReadTokens (p : WkdmParams) (src : List UInt8) :
    (wkdmReadTokens p src).length = src.length / p.wordBytes % 2 ^ 32 := by
  simp [wkdmReadTokens]

/-- The tokens of up to a page fit the scratch areas. -/
theorem wkdmFits_page (p : WkdmParams) {src : List UInt8} (hsrc : src.length ≤ 4096) :
    WkdmFits p (wkdmReadTokens p src) := by
  apply wkdmFits_of_le
  rw [length_wkdmReadTokens]
  exact Nat.le_trans (Nat.mod_le _ _) (Nat.div_le_div_right hsrc)

/-- The encoder emits the encoding of the tokens it reads when that is smaller than
the source and fits, whatever the scratch areas held. -/
theorem wkdmCompressImpl_of_fits {p : WkdmParams} {src : List UInt8} (cap : Nat)
    (scratch : WkdmScratch p) (hpos : src.length ≠ 0) (hmod : src.length % p.wordBytes = 0)
    (hfit : WkdmFits p (wkdmReadTokens p src)) :
    wkdmCompressImpl p src cap scratch =
      if (wkdmEncode p (wkdmReadTokens p src)).length ≥ src.length ∨
          (wkdmEncode p (wkdmReadTokens p src)).length > cap then .error .zero
      else .ok (wkdmEncode p (wkdmReadTokens p src)) := by
  have hguard : ¬ (src.length = 0 ∨ src.length % p.wordBytes ≠ 0) := by simp [hpos, hmod]
  have hlts := length_wkdmReadTokens p src
  have htoks : wkdmTokens p (List.replicate p.dictSize 0)
      (wordsLE p.wordBytes (src.length / p.wordBytes % 2 ^ 32) src) = wkdmReadTokens p src := rfl
  unfold wkdmCompressImpl
  rw [if_neg hguard]
  generalize src.length / p.wordBytes % 2 ^ 32 = n at *
  generalize wkdmReadTokens p src = ts at *
  have htag := hfit.tags
  rw [hlts] at htag
  have htb : (n * 2 + 7) / 8 = (n + 3) / 4 := by omega
  obtain ⟨tagBuf, hclear, hcl, hct⟩ := writeAt_ok scratch.tagBuf
    (List.replicate ((n + 3) / 4) 0) 0
    (by rw [scratch.length_tagBuf, List.length_replicate]; omega)
  simp only [List.length_replicate, Nat.zero_add, List.take_zero, List.nil_append] at hct
  have hinit := wkdmEncoded_nil (n := n) scratch (hcl.trans scratch.length_tagBuf) hct
    (List.replicate p.dictSize 0)
  obtain ⟨s, hloop, henc⟩ := wkdmCompressWords_ok htag (wordsLE p.wordBytes n src) hinit (by simp)
    (by rw [List.nil_append, htoks]; exact hfit)
  rw [List.nil_append, htoks] at henc
  rw [List.length_nil] at hloop
  have hcodes : (ts.map WkdmToken.code).length = n := by rw [List.length_map, hlts]
  have htags : s.tagBuf.take ((n + 3) / 4) = tagStream (ts.map WkdmToken.code) := by
    have htake := take_eq_tagStream s.tagBuf (ts.map WkdmToken.code)
      (by rw [hcodes, henc.length_tagBuf]; omega) (by rw [hcodes]; exact henc.tagAt_eq)
    rwa [hcodes] at htake
  have hlen := length_wkdmEncode p ts
  rw [hlts] at hlen
  have hreadTags : readAt s.tagBuf 0 ((n + 3) / 4) = .ok (tagStream (ts.map WkdmToken.code)) := by
    rw [readAt_zero (by rw [henc.length_tagBuf]; omega), htags]
  have hreadExacts : readAt s.exactBuf 0 (codeCount 1 ts)
      = .ok (ts.flatMap WkdmToken.exactBytes) := by
    rw [readAt_zero (by rw [henc.length_exactBuf]; exact hfit.exacts), ← henc.take_exactBuf,
      henc.exactCount_eq]
  have hreadPartials : readAt s.partialBuf 0 (codeCount 2 ts * p.partialBytes)
      = .ok (ts.flatMap (WkdmToken.partialBytes p)) := by
    rw [readAt_zero (by rw [henc.length_partialBuf]; exact hfit.partials), ← henc.take_partialBuf,
      henc.partialCount_eq]
  have hreadMisses : readAt s.missBuf 0 (codeCount 3 ts * p.wordBytes)
      = .ok (ts.flatMap (WkdmToken.missBytes p)) := by
    rw [readAt_zero (by rw [henc.length_missBuf]; exact hfit.misses), ← henc.take_missBuf,
      henc.missCount_eq]
  simp only [htb, hclear, hloop, henc.exactCount_eq, henc.partialCount_eq, henc.missCount_eq,
    bind, Except.bind, ← hlen]
  by_cases hbig : (wkdmEncode p ts).length ≥ src.length ∨ (wkdmEncode p ts).length > cap
  · rw [if_pos hbig, if_pos hbig]
  · rw [if_neg hbig, if_neg hbig]
    have hcap : ([] : List UInt8).length + (wkdmEncode p ts).length ≤ cap := by
      simp only [List.length_nil]
      omega
    have hemit := emit_ok hcap
    rw [List.nil_append, wkdmEncode, hlts] at hemit
    simp only [hreadTags, hreadExacts, hreadPartials, hreadMisses, hemit, wkdmEncode, hlts]

/-- The encoder on up to a page. -/
theorem wkdmCompressImpl_eq {p : WkdmParams} {src : List UInt8} (cap : Nat)
    (scratch : WkdmScratch p) (hpos : src.length ≠ 0) (hmod : src.length % p.wordBytes = 0)
    (hsrc : src.length ≤ 4096) :
    wkdmCompressImpl p src cap scratch =
      if (wkdmEncode p (wkdmSourceTokens p src)).length ≥ src.length ∨
          (wkdmEncode p (wkdmSourceTokens p src)).length > cap then .error .zero
      else .ok (wkdmEncode p (wkdmSourceTokens p src)) := by
  have hn32 : src.length / p.wordBytes % 2 ^ 32 = src.length / p.wordBytes :=
    Nat.mod_eq_of_lt (by have := Nat.div_le_self src.length p.wordBytes; omega)
  have hread : wkdmReadTokens p src = wkdmSourceTokens p src := by
    rw [wkdmReadTokens, hn32, wkdmSourceTokens]
  rw [wkdmCompressImpl_of_fits cap scratch hpos hmod (wkdmFits_page p hsrc), hread]

/-- What the encoder returns is the encoding of the tokens of its source,
which consists of whole words. -/
theorem wkdmCompressImpl_ok {p : WkdmParams} {src out : List UInt8} {cap : Nat}
    {scratch : WkdmScratch p} (hsrc : src.length ≤ 4096)
    (h : wkdmCompressImpl p src cap scratch = .ok out) :
    0 < src.length / p.wordBytes ∧ src.length = src.length / p.wordBytes * p.wordBytes ∧
      out = wkdmEncode p (wkdmSourceTokens p src) := by
  by_cases hbad : src.length = 0 ∨ src.length % p.wordBytes ≠ 0
  · rw [wkdmCompressImpl, if_pos hbad] at h
    cases h
  simp only [not_or, not_not] at hbad
  obtain ⟨hpos, hmod⟩ := hbad
  have hwords : src.length / p.wordBytes * p.wordBytes = src.length :=
    Nat.div_mul_cancel (Nat.dvd_of_mod_eq_zero hmod)
  rw [wkdmCompressImpl_eq cap scratch hpos hmod hsrc] at h
  split at h
  · cases h
  · refine ⟨?_, hwords.symm, by injection h with h; exact h.symm⟩
    apply Nat.pos_of_ne_zero
    intro hzero
    rw [hzero, Nat.zero_mul] at hwords
    exact hpos hwords.symm

/-! ## The decoder replays the tokens -/

/-- The section `bs` starts at `base` in a source. -/
def SectionAt (src : List UInt8) (base : Nat) (bs : List UInt8) : Prop :=
  base ≤ src.length ∧ ∃ post, src.drop base = bs ++ post

/-- A part of a source starts behind the parts before it. -/
theorem sectionAt_flatten {parts : List (List UInt8)} {bs : List UInt8} {base i : Nat}
    (hpart : parts[i]? = some bs) (hbase : ((parts.map List.length).take i).sum = base) :
    SectionAt parts.flatten base bs := by
  obtain ⟨hi, hget⟩ := List.getElem?_eq_some_iff.mp hpart
  rw [← List.map_take, ← List.length_flatten] at hbase
  have hsplit : parts.flatten
      = (parts.take i).flatten ++ (bs ++ (parts.drop (i + 1)).flatten) := by
    conv_lhs => rw [← List.take_append_drop i parts, List.flatten_append]
    rw [List.drop_eq_getElem_cons hi, hget, List.flatten_cons]
  rw [hsplit]
  exact ⟨by simp only [List.length_append, hbase]; omega, _, drop_append_of_length hbase⟩

/-- A read of a whole section. -/
theorem SectionAt.readAt_eq {src bs : List UInt8} {base len : Nat} (h : SectionAt src base bs)
    (hlen : bs.length = len) : readAt src base len = .ok bs := by
  obtain ⟨hbase, post, hdrop⟩ := h
  exact readAt_drop [] post hbase hdrop rfl hlen

/-- A source laid out as the streams of the tokens `ts`. -/
structure WkdmLayout (p : WkdmParams) (src : List UInt8) (a : WkdmSections)
    (ts : List WkdmToken) : Prop where
  tags : ∀ i < ts.length, getTag src a.tags i = .ok ((ts.map WkdmToken.code).getD i 0)
  exacts : SectionAt src a.exactArea (ts.flatMap WkdmToken.exactBytes)
  partials : SectionAt src a.partialArea (ts.flatMap (WkdmToken.partialBytes p))
  misses : SectionAt src a.missArea (ts.flatMap (WkdmToken.missBytes p))
  exactCount_eq : a.exactCount = codeCount 1 ts
  partialCount_eq : a.partialCount = codeCount 2 ts
  missWords_eq : a.missWords = codeCount 3 ts

/-- The decoder's locals behind the tokens `done`. -/
def wkdmCursorAfter (out : List UInt8) (dict : List Nat) (done : List WkdmToken) : WkdmCursor :=
  ⟨out, dict, codeCount 1 done, codeCount 2 done, codeCount 3 done⟩

/-- The tag behind the tokens `done` is the code of the next token. -/
theorem WkdmLayout.getTag_next {p : WkdmParams} {src : List UInt8} {a : WkdmSections}
    {done rest : List WkdmToken} {t : WkdmToken} (h : WkdmLayout p src a (done ++ t :: rest)) :
    getTag src a.tags done.length = .ok t.code := by
  rw [h.tags _ (by simp)]
  simp [List.getD_eq_getElem?_getD]

/-- The cursor of a kind of token is below their count while one is left. -/
theorem codeCount_lt_of_next (done rest : List WkdmToken) (t : WkdmToken) :
    ¬ codeCount t.code done ≥ codeCount t.code (done ++ t :: rest) := by
  simp

/-- A stream to which one kind of token goes holds the next of them at the cursor of that kind. -/
theorem SectionAt.next {src : List UInt8} {base : Nat} {f : WkdmToken → List UInt8}
    {done rest : List WkdmToken} {t : WkdmToken} {w : Nat}
    (h : SectionAt src base ((done ++ t :: rest).flatMap f))
    (hf : ∀ t', (f t').length = if t'.code = t.code then w else 0) :
    readAt src (base + codeCount t.code done * w) w = .ok (f t) := by
  obtain ⟨hbase, post, hsec⟩ := h
  apply readAt_drop (done.flatMap f) (rest.flatMap f ++ post) hbase
  · rw [hsec, List.flatMap_append, List.flatMap_cons]
    simp only [List.append_assoc]
  · rw [length_flatMap_of_code hf]
  · rw [hf, if_pos rfl]

/-- The index of the next exact hit, which is a stream of single bytes. -/
theorem WkdmLayout.readByte_next {p : WkdmParams} {src : List UInt8} {a : WkdmSections}
    {done rest : List WkdmToken} {idx : Nat}
    (h : WkdmLayout p src a (done ++ .tagExact idx :: rest)) :
    readByte src (a.exactArea + codeCount 1 done) = .ok (UInt8.ofNat idx) := by
  obtain ⟨hbase, post, hsec⟩ := h.exacts
  apply readByte_drop (done.flatMap WkdmToken.exactBytes)
    (rest.flatMap WkdmToken.exactBytes ++ post) hbase
  · rw [hsec]
    simp [WkdmToken.exactBytes]
  · rw [length_flatMap_of_code WkdmToken.length_exactBytes, Nat.mul_one]

/-- Replaying the token of a word appends the word and updates the dictionary. -/
theorem wkdmDecompressWord_ok {p : WkdmParams} {src : List UInt8} {a : WkdmSections} (cap : Nat)
    (out : List UInt8) {done rest : List WkdmToken} {dict : List Nat} {val : Nat}
    (h : WkdmLayout p src a (done ++ wkdmToken p dict val :: rest))
    (hdict : dict.length = p.dictSize) (hval : val < 256 ^ p.wordBytes)
    (hcap : out.length + p.wordBytes ≤ cap) :
    wkdmDecompressWord p src cap a (wkdmCursorAfter out dict done) done.length
      = .ok (wkdmCursorAfter (out ++ leBytes p.wordBytes val)
          ((wkdmToken p dict val).update p dict) (done ++ [wkdmToken p dict val])) := by
  have htag := h.getTag_next
  have hemit : emit cap out (leBytes p.wordBytes val) = .ok (out ++ leBytes p.wordBytes val) :=
    emit_ok (by simpa using hcap)
  unfold wkdmDecompressWord
  rw [htag]
  by_cases hzero : val = 0
  · have ht : wkdmToken p dict val = .tagZero := by simp [wkdmToken, hzero]
    rw [ht]
    rw [hzero] at hemit
    simp [wkdmCursorAfter, WkdmToken.code, WkdmToken.update, hzero, hemit, bind, Except.bind]
  by_cases hexact : dict.getD (p.hash val) 0 = val
  · have ht : wkdmToken p dict val = .tagExact (p.hash val) := by
      simp only [wkdmToken, if_neg hzero, if_pos hexact]
    rw [ht] at h ⊢
    have hread := h.readByte_next
    have hroom : ¬ codeCount 1 done ≥ a.exactCount :=
      h.exactCount_eq ▸ codeCount_lt_of_next done rest (.tagExact _)
    have hhash := p.hash_lt val
    have hidx : (UInt8.ofNat (p.hash val)).toNat = p.hash val := by
      have := p.dictSize_le
      rw [UInt8.toNat_ofNat', Nat.mod_eq_of_lt (by omega)]
    have hget : dict[p.hash val]? = some val := by
      rw [List.getD_eq_getElem?_getD, List.getElem?_eq_getElem (by omega)] at hexact
      rw [List.getElem?_eq_getElem (by omega)]
      exact congrArg some hexact
    simp [wkdmCursorAfter, WkdmToken.code, WkdmToken.update, hroom, hread, hidx, hget, hemit,
      bind, Except.bind]
  by_cases hpartial : p.isPartial val = true
  · have ht : wkdmToken p dict val = .tagPartial val := by
      simp only [wkdmToken, if_neg hzero, if_neg hexact, if_pos hpartial]
    rw [ht] at h ⊢
    have hread : readAt src (a.partialArea + codeCount 2 done * p.partialBytes) p.partialBytes =
        .ok (leBytes p.partialBytes val) := h.partials.next (WkdmToken.length_partialBytes p)
    have hroom : ¬ codeCount 2 done ≥ a.partialCount :=
      h.partialCount_eq ▸ codeCount_lt_of_next done rest (.tagPartial val)
    have hback : leNat (leBytes p.partialBytes val) = val := by
      rw [leNat_leBytes, Nat.mod_eq_of_lt (p.partial_lt val hval hpartial)]
    simp [wkdmCursorAfter, WkdmToken.code, WkdmToken.update, hroom, hread, hback, hemit,
      bind, Except.bind]
  · have ht : wkdmToken p dict val = .tagMiss val := by
      simp only [wkdmToken, if_neg hzero, if_neg hexact, if_neg hpartial]
    rw [ht] at h ⊢
    have hread : readAt src (a.missArea + codeCount 3 done * p.wordBytes) p.wordBytes =
        .ok (leBytes p.wordBytes val) := h.misses.next (WkdmToken.length_missBytes p)
    have hroom : ¬ codeCount 3 done ≥ a.missWords :=
      h.missWords_eq ▸ codeCount_lt_of_next done rest (.tagMiss val)
    have hback : leNat (leBytes p.wordBytes val) = val := by
      rw [leNat_leBytes, Nat.mod_eq_of_lt hval]
    simp [wkdmCursorAfter, WkdmToken.code, WkdmToken.update, hroom, hread, hback, hemit,
      bind, Except.bind]

/-- The decoder loop replays the tokens of a list of words. -/
theorem wkdmDecompressWords_ok {p : WkdmParams} {src : List UInt8} {a : WkdmSections} (cap : Nat)
    (vals : List Nat) (out : List UInt8) (done : List WkdmToken) {dict : List Nat}
    (h : WkdmLayout p src a (done ++ wkdmTokens p dict vals)) (hdict : dict.length = p.dictSize)
    (hvals : ∀ val ∈ vals, val < 256 ^ p.wordBytes)
    (hcap : out.length + vals.length * p.wordBytes ≤ cap) :
    ∃ c, wkdmDecompressWords p src cap a (wkdmCursorAfter out dict done) done.length vals.length
        = .ok c ∧ c.out = out ++ (vals.map (leBytes p.wordBytes)).flatten := by
  induction vals generalizing out done dict with
  | nil => exact ⟨_, rfl, by simp [wkdmCursorAfter]⟩
  | cons val vals ih =>
      rw [List.length_cons, Nat.succ_mul] at hcap
      have hword := wkdmDecompressWord_ok cap out h hdict
        (hvals val List.mem_cons_self) (by omega)
      have hlayout : WkdmLayout p src a ((done ++ [wkdmToken p dict val])
          ++ wkdmTokens p ((wkdmToken p dict val).update p dict) vals) := by
        rw [List.append_assoc, List.singleton_append]
        exact h
      obtain ⟨c, hrun, hout⟩ := ih (out ++ leBytes p.wordBytes val) _ hlayout
        (by rw [WkdmToken.length_update, hdict])
        (fun v hv => hvals v (List.mem_cons_of_mem val hv))
        (by rw [List.length_append, length_leBytes]; omega)
      rw [List.length_append, List.length_singleton] at hrun
      refine ⟨c, ?_, ?_⟩
      · rw [List.length_cons, wkdmDecompressWords]
        simp only [hword, hrun, bind, Except.bind]
      · rw [hout]
        simp

/-- The counting loop finds the misses of a layout. -/
theorem wkdmCountMisses_ok {src : List UInt8} {base : Nat} (done rest : List WkdmToken)
    (h : ∀ i < (done ++ rest).length, getTag src base i
      = .ok (((done ++ rest).map WkdmToken.code).getD i 0)) :
    wkdmCountMisses src base done.length rest.length = .ok (codeCount 3 rest) := by
  induction rest generalizing done with
  | nil => rfl
  | cons t rest ih =>
      have htag : getTag src base done.length = .ok t.code := by
        rw [h _ (by simp)]
        simp [List.getD_eq_getElem?_getD]
      have hrest := ih (done ++ [t]) (by simpa using h)
      rw [List.length_append, List.length_singleton] at hrest
      rw [List.length_cons, wkdmCountMisses, htag]
      simp only [bind, Except.bind, hrest, codeCount_cons]
      split <;> rfl

/-- The layout that the decoder works out from an encoding. -/
def wkdmSections (p : WkdmParams) (ts : List WkdmToken) : WkdmSections where
  tags := 12
  exactArea := 12 + (ts.length + 3) / 4
  partialArea := 12 + (ts.length + 3) / 4 + codeCount 1 ts
  missArea := 12 + (ts.length + 3) / 4 + codeCount 1 ts + codeCount 2 ts * p.partialBytes
  exactCount := codeCount 1 ts
  partialCount := codeCount 2 ts
  missWords := codeCount 3 ts

/-- The parts of an encoding: the three words of the header and the four streams. -/
def wkdmParts (p : WkdmParams) (ts : List WkdmToken) : List (List UInt8) :=
  [leBytes 4 ts.length, leBytes 4 (codeCount 1 ts), leBytes 4 (codeCount 2 ts),
    tagStream (ts.map WkdmToken.code), ts.flatMap WkdmToken.exactBytes,
    ts.flatMap (WkdmToken.partialBytes p), ts.flatMap (WkdmToken.missBytes p)]

/-- The lengths of the parts of the output. -/
theorem length_wkdmParts (p : WkdmParams) (ts : List WkdmToken) :
    (wkdmParts p ts).map List.length = [4, 4, 4, (ts.length + 3) / 4, codeCount 1 ts,
      codeCount 2 ts * p.partialBytes, codeCount 3 ts * p.wordBytes] := by
  simp [wkdmParts, length_flatMap_of_code WkdmToken.length_exactBytes,
    length_flatMap_of_code (WkdmToken.length_partialBytes p),
    length_flatMap_of_code (WkdmToken.length_missBytes p)]

/-- A part of an encoding starts behind the parts before it. -/
theorem sectionAt_wkdmEncode {p : WkdmParams} {ts : List WkdmToken} {bs : List UInt8}
    {base i : Nat} (hpart : (wkdmParts p ts)[i]? = some bs)
    (hbase : (([4, 4, 4, (ts.length + 3) / 4, codeCount 1 ts, codeCount 2 ts * p.partialBytes,
      codeCount 3 ts * p.wordBytes]).take i).sum = base) :
    SectionAt (wkdmEncode p ts) base bs := by
  have hparts : wkdmEncode p ts = (wkdmParts p ts).flatten := by
    simp [wkdmEncode, wkdmParts]
  rw [hparts]
  exact sectionAt_flatten hpart (by rw [length_wkdmParts, hbase])

/-- An encoding is laid out as the streams of its tokens. -/
theorem wkdmLayout_encode (p : WkdmParams) (ts : List WkdmToken) :
    WkdmLayout p (wkdmEncode p ts) (wkdmSections p ts) ts where
  tags i hi := by
    have hlen := length_wkdmEncode p ts
    obtain ⟨-, post, hdrop⟩ : SectionAt (wkdmEncode p ts) 12 (tagStream (ts.map WkdmToken.code)) :=
      sectionAt_wkdmEncode (i := 3) rfl rfl
    have hfield : tagAt ((wkdmEncode p ts).drop 12) i
        = tagAt (tagStream (ts.map WkdmToken.code)) i := by
      rw [hdrop, ← tagAt_take (k := (ts.length + 3) / 4) (by omega),
        take_append_of_length (by simp)]
    rw [wkdmSections, getTag_eq (show 12 + i / 4 < _ by omega), hfield,
      tagAt_tagStream _ (by simpa using hi)]
    intro c hc
    obtain ⟨t, _, rfl⟩ := List.mem_map.mp hc
    exact t.code_lt
  exacts := sectionAt_wkdmEncode (i := 4) rfl (by simp [wkdmSections, ← Nat.add_assoc])
  partials := sectionAt_wkdmEncode (i := 5) rfl (by simp [wkdmSections, ← Nat.add_assoc])
  misses := sectionAt_wkdmEncode (i := 6) rfl (by simp [wkdmSections, ← Nat.add_assoc])
  exactCount_eq := rfl
  partialCount_eq := rfl
  missWords_eq := rfl

/-- The header of an encoding reads back. -/
theorem readAt_header (p : WkdmParams) {ts : List WkdmToken} (hlen : ts.length < 2 ^ 32) :
    (readAt (wkdmEncode p ts) 0 4 = .ok (leBytes 4 ts.length)) ∧
    (readAt (wkdmEncode p ts) 4 4 = .ok (leBytes 4 (codeCount 1 ts))) ∧
    (readAt (wkdmEncode p ts) 8 4 = .ok (leBytes 4 (codeCount 2 ts))) ∧
    leNat (leBytes 4 ts.length) = ts.length ∧
    leNat (leBytes 4 (codeCount 1 ts)) = codeCount 1 ts ∧
    leNat (leBytes 4 (codeCount 2 ts)) = codeCount 2 ts := by
  have h1 := codeCount_le_length 1 ts
  have h2 := codeCount_le_length 2 ts
  refine ⟨?_, ?_, ?_, ?_, ?_, ?_⟩
  · exact (sectionAt_wkdmEncode (i := 0) rfl rfl).readAt_eq (length_leBytes 4 _)
  · exact (sectionAt_wkdmEncode (i := 1) rfl rfl).readAt_eq (length_leBytes 4 _)
  · exact (sectionAt_wkdmEncode (i := 2) rfl rfl).readAt_eq (length_leBytes 4 _)
  · rw [leNat_leBytes, Nat.mod_eq_of_lt (by omega)]
  · rw [leNat_leBytes, Nat.mod_eq_of_lt (by omega)]
  · rw [leNat_leBytes, Nat.mod_eq_of_lt (by omega)]

/-! ## The round trip -/

/-- The decoder reads back every source that the encoder accepts, given room for it. -/
theorem wkdmDecompressImpl_compressImpl {p : WkdmParams} {src out : List UInt8} {cap cap' : Nat}
    {scratch : WkdmScratch p} (hsrc : src.length ≤ 4096) (hcap : src.length ≤ cap')
    (h : wkdmCompressImpl p src cap scratch = .ok out) :
    wkdmDecompressImpl p out cap' = .ok src := by
  obtain ⟨hpos, hwords, rfl⟩ := wkdmCompressImpl_ok hsrc h
  have hlen := length_wkdmEncode p (wkdmSourceTokens p src)
  have hlts := length_wkdmSourceTokens p src
  have hlayout := wkdmLayout_encode p (wkdmSourceTokens p src)
  have hsmall : (wkdmSourceTokens p src).length < 2 ^ 32 := by
    have := Nat.div_le_self src.length p.wordBytes
    omega
  obtain ⟨hr0, hr4, hr8, hn0, hn4, hn8⟩ := readAt_header p hsmall
  have hcount := wkdmCountMisses_ok [] (wkdmSourceTokens p src) hlayout.tags
  have hvals : ∀ val ∈ wordsLE p.wordBytes (src.length / p.wordBytes) src,
      val < 256 ^ p.wordBytes := fun val hval => wordsLE_lt hwords hval
  obtain ⟨c, hrun, hout⟩ := wkdmDecompressWords_ok cap'
    (wordsLE p.wordBytes (src.length / p.wordBytes) src) [] [] hlayout (by simp) hvals
    (by simp [← hwords, hcap])
  rw [List.nil_append, flatten_leBytes_wordsLE hwords] at hout
  rw [length_wordsLE, ← hlts] at hrun
  simp only [List.length_nil, wkdmCursorAfter, codeCount_nil] at hrun hcount
  rw [← hlts] at hpos hwords
  generalize wkdmSourceTokens p src = ts at *
  have hsize : ts.length * p.wordBytes ≤ cap' := by omega
  have hsize0 : ts.length * p.wordBytes ≠ 0 := by
    have := Nat.mul_pos hpos p.wordBytes_pos
    omega
  have htb : (ts.length * 2 + 7) / 8 = (ts.length + 3) / 4 := by omega
  have hg1 : ¬ (wkdmEncode p ts).length < 12 := by omega
  have hg2 : ¬ (ts.length * p.wordBytes = 0 ∨ ts.length * p.wordBytes > cap') := by omega
  have hg3 : ¬ 12 + (ts.length + 3) / 4 > (wkdmEncode p ts).length := by omega
  have hg4 : ¬ 12 + (ts.length + 3) / 4 + codeCount 1 ts > (wkdmEncode p ts).length := by omega
  have hg5 : ¬ 12 + (ts.length + 3) / 4 + codeCount 1 ts + codeCount 2 ts * p.partialBytes
      > (wkdmEncode p ts).length := by omega
  have hg6 : ¬ 12 + (ts.length + 3) / 4 + codeCount 1 ts + codeCount 2 ts * p.partialBytes
      + codeCount 3 ts * p.wordBytes > (wkdmEncode p ts).length := by omega
  have hrun' : wkdmDecompressWords p (wkdmEncode p ts) cap'
      ⟨12, 12 + (ts.length + 3) / 4, 12 + (ts.length + 3) / 4 + codeCount 1 ts,
        12 + (ts.length + 3) / 4 + codeCount 1 ts + codeCount 2 ts * p.partialBytes,
        codeCount 1 ts, codeCount 2 ts, codeCount 3 ts⟩
      ⟨[], List.replicate p.dictSize 0, 0, 0, 0⟩ 0 ts.length = .ok c := hrun
  have hcount' : wkdmCountMisses (wkdmEncode p ts) 12 0 ts.length = .ok (codeCount 3 ts) := hcount
  simp only [wkdmDecompressImpl, if_neg hg1, hr0, hr4, hr8, hn0, hn4, hn8, bind, Except.bind, htb,
    if_neg hg2, if_neg hg3, if_neg hg4, if_neg hg5, hcount', if_neg hg6, hrun', hout]

/-- `minimem_wkdm_decompress` inverts `minimem_wkdm_compress`. -/
theorem wkdmDecompress_wkdmCompress {src out : List UInt8} {cap cap' : Nat}
    {scratch : WkdmScratch wkdm32} (hsrc : src.length ≤ 4096) (hcap : src.length ≤ cap')
    (h : wkdmCompressScratch src cap scratch = .ok out) : wkdmDecompress out cap' = .ok src :=
  wkdmDecompressImpl_compressImpl hsrc hcap h

/-- `minimem_wkdm64_decompress` inverts `minimem_wkdm64_compress`. -/
theorem wkdm64Decompress_wkdm64Compress {src out : List UInt8} {cap cap' : Nat}
    {scratch : WkdmScratch wkdm64} (hsrc : src.length ≤ 4096) (hcap : src.length ≤ cap')
    (h : wkdm64CompressScratch src cap scratch = .ok out) : wkdm64Decompress out cap' = .ok src :=
  wkdmDecompressImpl_compressImpl hsrc hcap h

end MiniMem
