import MiniMem.Bytes

/-!
# MiniMem.Compressors.Bdi

The base-delta-immediate compressor.  A source is a sequence of 64-byte
lines of eight 64-bit words; each line is stored as zeros, as one repeated
word, as a base word with eight 8-bit deltas, or verbatim:

```
enc(src)  =  le32(lines) ++ enc(line₀) ++ enc(line₁) ++ …
```

The classifier admits a line to the delta form by an *unsigned distance*
below 256, while the decoder reads each delta byte as *signed*.
`bdiReadBack` is the line the decoder produces, and `bdiReadBack_eq_iff`
says when it is the line that was encoded.
-/

namespace MiniMem

/-! ## The line classifier -/

/-- `BDI_LINE_SIZE`. -/
def bdiLineSize : Nat := 64

/-- `BDI_LINE_WORDS`. -/
def bdiLineWords : Nat := bdiLineSize / 8

theorem bdiLineWords_eq : bdiLineWords = 8 := rfl

/-- `enum bdi_line_type`. -/
inductive BdiLineType where
  | uncompressed
  | zeros
  | baseDelta
  | baseDelta2
  deriving DecidableEq, Repr

/-- What `bdi_classify_line` returns: the type, and its two out parameters. -/
structure BdiClass where
  type : BdiLineType
  base : Nat
  deltaBits : Nat
  deriving DecidableEq, Repr

/-- The byte that marks a line of the given type. -/
def BdiLineType.code : BdiLineType → UInt8
  | .uncompressed => 0
  | .zeros => 1
  | .baseDelta => 2
  | .baseDelta2 => 3

/-- The words of a line. -/
def bdiWords (line : List UInt8) : List Nat := wordsLE 8 bdiLineWords line

/-- The first word of a line. -/
def bdiBase (line : List UInt8) : Nat := (bdiWords line).headD 0

/-- The classifier's `delta`: an unsigned distance. -/
def bdiDistance (base w : Nat) : Nat := if w ≥ base then w - base else base - w

/-- The classifier's `max_delta` after the given words. -/
def bdiMaxDelta (base : Nat) (words : List Nat) : Nat :=
  words.foldl (fun m w => max m (bdiDistance base w)) 0

/-- `bdi_classify_line`. -/
def bdiClassifyLine (line : List UInt8) : BdiClass :=
  let words := bdiWords line
  let base := bdiBase line
  if words.all (· == 0) then ⟨.zeros, 0, 0⟩
  else if words.all (· == base) then ⟨.baseDelta, base, 0⟩
  else if bdiMaxDelta base words < 256 then ⟨.baseDelta2, base, 8⟩
  else ⟨.uncompressed, 0, 0⟩

/-! ## Delta bits -/

/-- `dst[bit_idx / 8] |= 1 << (bit_idx % 8)`. -/
def setBit (buf : List UInt8) (bitIdx : Nat) : List UInt8 :=
  buf.modify (bitIdx / 8) (· ||| UInt8.ofNat (1 <<< (bitIdx % 8)))

/-- `words[i] - base` in 64-bit two's complement. -/
def bdiDelta (base w : Nat) : Nat := (w + 2 ^ 64 - base) % 2 ^ 64

/-- The encoder's inner loop: OR the low `deltaBits` bits of delta `i` in. -/
def packDelta (deltaBits i delta : Nat) (buf : List UInt8) : List UInt8 :=
  (List.range deltaBits).foldl
    (fun buf b => if delta.testBit b then setBit buf (i * deltaBits + b) else buf) buf

/-- The encoder's delta area: zeroed, then filled word by word. -/
def packDeltas (deltaBits base : Nat) (words : List Nat) : List UInt8 :=
  words.zipIdx.foldl (fun buf wi => packDelta deltaBits wi.2 (bdiDelta base wi.1) buf)
    (List.replicate ((deltaBits * bdiLineWords + 7) / 8) 0)

/-- The decoder's inner loop: the unsigned value of delta `i`. -/
def unpackDelta (deltaBits i : Nat) (area : List UInt8) : Nat :=
  (List.range deltaBits).foldl
    (fun d b =>
      let bitIdx := i * deltaBits + b
      if (area.getD (bitIdx / 8) 0).toNat.testBit (bitIdx % 8) then d ||| 1 <<< b else d) 0

/-- The decoder's sign extension, then `base + signed_delta` modulo `2 ^ 64`. -/
def addSignedDelta (deltaBits base d : Nat) : Nat :=
  if d.testBit (deltaBits - 1) then (base + (d + 2 ^ 64 - 2 ^ deltaBits)) % 2 ^ 64
  else (base + d) % 2 ^ 64

/-! ## Compression -/

/-- One iteration of the loop of `minimem_bdi_compress`. -/
def bdiCompressLine (cap : Nat) (out line : List UInt8) : Except Stop (List UInt8) :=
  let cls := bdiClassifyLine line
  let deltasSize := (cls.deltaBits * bdiLineWords + 7) / 8
  let uncompressed :=
    if out.length + 1 + bdiLineSize > cap then .error .zero
    else emit cap out (BdiLineType.uncompressed.code :: line)
  match cls.type with
  | .zeros =>
      if out.length + 1 > cap then .error .zero else emit cap out [BdiLineType.zeros.code]
  | .baseDelta =>
      if out.length + 1 + 8 > cap then .error .zero
      else emit cap out (BdiLineType.baseDelta.code :: leBytes 8 cls.base)
  | .baseDelta2 =>
      if 1 + 8 + deltasSize ≥ bdiLineSize then uncompressed
      else if out.length + (1 + 8 + deltasSize) > cap then .error .zero
      else emit cap out (BdiLineType.baseDelta2.code :: (leBytes 8 cls.base ++
        packDeltas cls.deltaBits cls.base (bdiWords line)))
  | .uncompressed => uncompressed

/-- The loop of `minimem_bdi_compress` over the lines. -/
def bdiCompressLines (cap : Nat) : List UInt8 → List (List UInt8) → Except Stop (List UInt8)
  | out, [] => .ok out
  | out, line :: lines =>
      match bdiCompressLine cap out line with
      | .error e => .error e
      | .ok out => bdiCompressLines cap out lines

/-- `minimem_bdi_compress`: the bytes written, of which there are as many as it returns. -/
def bdiCompress (src : List UInt8) (dstCap : Nat) : Except Stop (List UInt8) :=
  if src.length = 0 ∨ src.length % bdiLineSize ≠ 0 then .error .zero
  else
    let nLines := src.length / bdiLineSize
    if 4 > dstCap then .error .zero
    else
      match emit dstCap [] (leBytes 4 nLines) with
      | .error e => .error e
      | .ok out =>
        match bdiCompressLines dstCap out (chunks bdiLineSize nLines src) with
        | .error e => .error e
        | .ok out => if out.length ≥ src.length then .error .zero else .ok out

/-! ## Decompression -/

/-- The labels of the decoder's `switch`; every other byte is the default case. -/
def BdiLineType.ofCode (c : UInt8) : BdiLineType :=
  if c = BdiLineType.zeros.code then .zeros
  else if c = BdiLineType.baseDelta.code then .baseDelta
  else if c = BdiLineType.baseDelta2.code then .baseDelta2
  else .uncompressed

@[simp] theorem BdiLineType.ofCode_code (t : BdiLineType) : ofCode t.code = t := by
  cases t <;> rfl

/-- The `switch` of `minimem_bdi_decompress`, from behind the type byte: the
new `in_pos` and the destination filled so far. -/
def bdiDecompressBody (src : List UInt8) (cap inPos : Nat) (out : List UInt8) :
    BdiLineType → Except Stop (Nat × List UInt8)
  | .zeros =>
      if out.length + bdiLineSize > cap then .error .zero
      else do
        let out ← emit cap out (List.replicate bdiLineSize 0)
        .ok (inPos, out)
  | .baseDelta =>
      if inPos + 8 > src.length then .error .zero
      else if out.length + bdiLineSize > cap then .error .zero
      else do
        let base ← readAt src inPos 8
        let out ← emit cap out (List.replicate bdiLineWords base).flatten
        .ok (inPos + 8, out)
  | .baseDelta2 =>
      if inPos + 8 > src.length then .error .zero
      else if out.length + bdiLineSize > cap then .error .zero
      else do
        let base ← readAt src inPos 8
        let inPos := inPos + 8
        let deltaBits := 8
        let deltasSize := (deltaBits * bdiLineWords + 7) / 8
        if inPos + deltasSize > src.length then .error .zero
        else do
          let area ← readAt src inPos deltasSize
          let words := (List.range bdiLineWords).map fun i =>
            addSignedDelta deltaBits (leNat base) (unpackDelta deltaBits i area)
          let out ← emit cap out (words.map (leBytes 8)).flatten
          .ok (inPos + deltasSize, out)
  | .uncompressed =>
      if inPos + bdiLineSize > src.length then .error .zero
      else if out.length + bdiLineSize > cap then .error .zero
      else do
        let line ← readAt src inPos bdiLineSize
        let out ← emit cap out line
        .ok (inPos + bdiLineSize, out)

/-- One iteration of the loop of `minimem_bdi_decompress`. -/
def bdiDecompressLine (src : List UInt8) (cap inPos : Nat) (out : List UInt8) :
    Except Stop (Nat × List UInt8) :=
  if inPos ≥ src.length then .error .zero
  else do
    let type ← readByte src inPos
    bdiDecompressBody src cap (inPos + 1) out (BdiLineType.ofCode type)

/-- The loop of `minimem_bdi_decompress`, with the lines left to read. -/
def bdiDecompressLines (src : List UInt8) (cap : Nat) :
    Nat → Nat → List UInt8 → Except Stop (List UInt8)
  | 0, _, out => .ok out
  | n + 1, inPos, out =>
      match bdiDecompressLine src cap inPos out with
      | .error e => .error e
      | .ok (inPos, out) => bdiDecompressLines src cap n inPos out

/-- `minimem_bdi_decompress`. -/
def bdiDecompress (src : List UInt8) (dstCap : Nat) : Except Stop (List UInt8) :=
  if src.length < 4 then .error .zero
  else do
    let header ← readAt src 0 4
    let nLines := leNat header
    let total := nLines * bdiLineSize
    if total = 0 ∨ dstCap < total then .error .zero
    else bdiDecompressLines src dstCap nLines 4 []

/-! ## The delta area -/

/-- The effect on one byte of setting bit `b` when bit `b` of `d` is set. -/
def orBit (d : Nat) (x : UInt8) (b : Nat) : UInt8 :=
  if d.testBit b then x ||| UInt8.ofNat (1 <<< b) else x

theorem foldl_orBit_or (d : Nat) (l : List Nat) (x y : UInt8) :
    l.foldl (orBit d) (x ||| y) = x ||| l.foldl (orBit d) y := by
  induction l generalizing y with
  | nil => rfl
  | cons b l ih =>
      have hstep : orBit d (x ||| y) b = x ||| orBit d y b := by
        unfold orBit
        cases d.testBit b with
        | false => rfl
        | true => simp [UInt8.or_assoc]
      rw [List.foldl_cons, List.foldl_cons, hstep, ih]

/-- OR-ing the low eight bits of a number in one by one ORs its low byte in. -/
theorem foldl_orBit_range (d : Nat) (x : UInt8) :
    (List.range 8).foldl (orBit d) x = x ||| UInt8.ofNat d := by
  have hlow : ∀ n < 256, (List.range 8).foldl (orBit n) 0 = UInt8.ofNat n := by decide +kernel
  have hbits : ∀ (y : UInt8), ∀ b ∈ List.range 8, orBit d y b = orBit (d % 256) y b := by
    intro y b hb
    have hb8 : b < 8 := List.mem_range.mp hb
    unfold orBit
    rw [show (256 : Nat) = 2 ^ 8 by decide, Nat.testBit_mod_two_pow]
    simp [hb8]
  have hmod : UInt8.ofNat (d % 256) = UInt8.ofNat d := by
    apply UInt8.toNat_inj.mp
    simp
  have hor := foldl_orBit_or d (List.range 8) x 0
  rw [UInt8.or_zero] at hor
  rw [hor, List.foldl_ext _ _ _ hbits, hlow _ (Nat.mod_lt _ (by decide)), hmod]

/-- With eight delta bits, delta `i` is OR-ed into byte `i` of the area. -/
theorem packDelta_eight (i d : Nat) (buf : List UInt8) :
    packDelta 8 i d buf = buf.modify i (· ||| UInt8.ofNat d) := by
  have hstep : ∀ (l : List Nat), (∀ b ∈ l, b < 8) → ∀ buf : List UInt8,
      l.foldl (fun buf b => if d.testBit b then setBit buf (i * 8 + b) else buf) buf =
        buf.modify i (fun x => l.foldl (orBit d) x) := by
    intro l hl
    induction l with
    | nil => intro buf; exact (List.modify_id i buf).symm
    | cons b l ih =>
        intro buf
        have hb : b < 8 := hl b List.mem_cons_self
        have hset : (if d.testBit b then setBit buf (i * 8 + b) else buf) =
            buf.modify i (orBit d · b) := by
          have hdiv : (i * 8 + b) / 8 = i := by omega
          have hmod : (i * 8 + b) % 8 = b := by omega
          unfold setBit orBit
          rw [hdiv, hmod]
          cases d.testBit b with
          | false => exact (List.modify_id i buf).symm
          | true => rfl
        rw [List.foldl_cons, hset, ih fun c hc => hl c (List.mem_cons_of_mem b hc)]
        rw [List.modify_modify_eq]
        rfl
  have hrange := hstep (List.range 8) (fun b hb => List.mem_range.mp hb) buf
  rw [packDelta, hrange]
  congr 1
  funext x
  exact foldl_orBit_range d x

/-- With eight delta bits the delta area holds the low byte of each delta. -/
theorem packDeltas_eight (base : Nat) {words : List Nat} (hlen : words.length = bdiLineWords) :
    packDeltas 8 base words = words.map fun w => UInt8.ofNat (bdiDelta base w) := by
  have hfill : ∀ (ws : List Nat) (pre : List UInt8),
      (ws.zipIdx pre.length).foldl
        (fun buf wi => packDelta 8 wi.2 (bdiDelta base wi.1) buf)
        (pre ++ List.replicate ws.length 0) =
      pre ++ ws.map fun w => UInt8.ofNat (bdiDelta base w) := by
    intro ws
    induction ws with
    | nil => simp
    | cons w ws ih =>
        intro pre
        have hmod : (pre ++ List.replicate (w :: ws).length 0).modify pre.length
            (· ||| UInt8.ofNat (bdiDelta base w)) =
            (pre ++ [UInt8.ofNat (bdiDelta base w)]) ++ List.replicate ws.length 0 := by
          rw [List.length_cons, List.replicate_succ, modify_append_cons]
          simp
        have hpre : (pre ++ [UInt8.ofNat (bdiDelta base w)]).length = pre.length + 1 := by simp
        rw [List.zipIdx_cons, List.foldl_cons, packDelta_eight, hmod, ← hpre, ih]
        simp
  have h := hfill words []
  rw [hlen] at h
  exact h

/-- Reading delta `i` back from an area of eight-bit deltas gives its byte. -/
theorem unpackDelta_eight (i : Nat) (area : List UInt8) :
    unpackDelta 8 i area = (area.getD i 0).toNat := by
  have hbyte : ∀ n < 256, (List.range 8).foldl
      (fun d b => if n.testBit b then d ||| 1 <<< b else d) 0 = n := by decide +kernel
  have hbits : ∀ (d : Nat), ∀ b ∈ List.range 8,
      (if (area.getD ((i * 8 + b) / 8) 0).toNat.testBit ((i * 8 + b) % 8) then d ||| 1 <<< b
        else d) = if (area.getD i 0).toNat.testBit b then d ||| 1 <<< b else d := by
    intro d b hb
    have hb8 : b < 8 := List.mem_range.mp hb
    have hdiv : (i * 8 + b) / 8 = i := by omega
    have hmod : (i * 8 + b) % 8 = b := by omega
    rw [hdiv, hmod]
  rw [unpackDelta, List.foldl_ext _ _ _ hbits]
  exact hbyte _ (UInt8.toNat_lt _)

/-! ## Lines -/

/-- The bytes a line is stored as. -/
def bdiLineBytes (line : List UInt8) : List UInt8 :=
  match (bdiClassifyLine line).type with
  | .zeros => [BdiLineType.zeros.code]
  | .baseDelta => BdiLineType.baseDelta.code :: leBytes 8 (bdiBase line)
  | .baseDelta2 => BdiLineType.baseDelta2.code :: (leBytes 8 (bdiBase line) ++
      (bdiWords line).map fun w => UInt8.ofNat (bdiDelta (bdiBase line) w))
  | .uncompressed => BdiLineType.uncompressed.code :: line

/-- The line the decoder makes of `bdiLineBytes`: the low byte of each delta,
sign-extended and added to the base. -/
def bdiReadBack (line : List UInt8) : List UInt8 :=
  match (bdiClassifyLine line).type with
  | .baseDelta2 => ((bdiWords line).map fun w =>
      leBytes 8 (addSignedDelta 8 (bdiBase line) (bdiDelta (bdiBase line) w % 256))).flatten
  | _ => line

theorem bdiDistance_le_foldl (base : Nat) (words : List Nat) (m : Nat) :
    m ≤ words.foldl (fun m w => max m (bdiDistance base w)) m ∧
      ∀ w ∈ words, bdiDistance base w ≤ words.foldl (fun m w => max m (bdiDistance base w)) m := by
  induction words generalizing m with
  | nil => simp
  | cons v words ih =>
      obtain ⟨hm, hws⟩ := ih (max m (bdiDistance base v))
      simp only [List.foldl_cons, List.forall_mem_cons]
      exact ⟨by omega, by omega, hws⟩

/-- Every word lies within `bdiMaxDelta` of the base. -/
theorem bdiDistance_le_bdiMaxDelta {base w : Nat} {words : List Nat} (hw : w ∈ words) :
    bdiDistance base w ≤ bdiMaxDelta base words :=
  (bdiDistance_le_foldl base words 0).2 w hw

/-- What the classifier knows of a line, and the other two results it returns. -/
theorem bdiClassifyLine_cases (line : List UInt8) :
    (bdiClassifyLine line = ⟨.zeros, 0, 0⟩ ∧ ∀ w ∈ bdiWords line, w = 0) ∨
    (bdiClassifyLine line = ⟨.baseDelta, bdiBase line, 0⟩ ∧
      ∀ w ∈ bdiWords line, w = bdiBase line) ∨
    (bdiClassifyLine line = ⟨.baseDelta2, bdiBase line, 8⟩ ∧
      ∀ w ∈ bdiWords line, w < bdiBase line + 256 ∧ bdiBase line < w + 256) ∨
    bdiClassifyLine line = ⟨.uncompressed, 0, 0⟩ := by
  unfold bdiClassifyLine
  by_cases hz : (bdiWords line).all (· == 0)
  · left
    rw [if_pos hz]
    exact ⟨rfl, by simpa using hz⟩
  · rw [if_neg hz]
    by_cases hs : (bdiWords line).all (· == bdiBase line)
    · right; left
      rw [if_pos hs]
      exact ⟨rfl, by simpa using hs⟩
    · rw [if_neg hs]
      by_cases hd : bdiMaxDelta (bdiBase line) (bdiWords line) < 256
      · right; right; left
        rw [if_pos hd]
        refine ⟨rfl, fun w hw => ?_⟩
        have hle : bdiDistance (bdiBase line) w ≤ _ := bdiDistance_le_bdiMaxDelta hw
        unfold bdiDistance at hle
        split at hle <;> omega
      · right; right; right
        rw [if_neg hd]

/-- The loop body of the encoder appends the stored form of the line when it fits. -/
theorem bdiCompressLine_eq (cap : Nat) (out : List UInt8) {line : List UInt8}
    (hlen : line.length = bdiLineSize) :
    bdiCompressLine cap out line =
      if out.length + (bdiLineBytes line).length ≤ cap then .ok (out ++ bdiLineBytes line)
      else .error .zero := by
  have hput : ∀ bs : List UInt8, ∀ n, n = bs.length →
      (if out.length + n > cap then .error .zero else emit cap out bs) =
        if out.length + bs.length ≤ cap then Except.ok (out ++ bs) else .error Stop.zero := by
    intro bs n hn
    by_cases h : out.length + bs.length ≤ cap
    · rw [if_neg (by omega), if_pos h, emit_ok h]
    · rw [if_pos (by omega), if_neg h]
  have hwords : (bdiWords line).length = bdiLineWords := length_wordsLE 8 bdiLineWords line
  obtain ⟨hc, -⟩ | ⟨hc, -⟩ | ⟨hc, -⟩ | hc := bdiClassifyLine_cases line
  · simp only [bdiCompressLine, bdiLineBytes, hc]
    exact hput _ 1 rfl
  · simp only [bdiCompressLine, bdiLineBytes, hc, Nat.add_assoc]
    exact hput _ (1 + 8) (by simp)
  · simp only [bdiCompressLine, bdiLineBytes, hc]
    rw [if_neg (by decide), packDeltas_eight _ hwords]
    exact hput _ _ (by simp [hwords]; decide)
  · simp only [bdiCompressLine, bdiLineBytes, hc, Nat.add_assoc]
    exact hput _ (1 + bdiLineSize) (by simp [hlen]; omega)

theorem length_bdiReadBack {line : List UInt8} (hlen : line.length = bdiLineSize) :
    (bdiReadBack line).length = line.length := by
  unfold bdiReadBack
  split
  · simp [List.length_flatten, Function.comp_def, hlen, bdiWords]
    decide
  · rfl

theorem bdiBase_lt {line : List UInt8} (hlen : line.length = bdiLineSize) :
    bdiBase line < 256 ^ 8 := by
  have hlen' : line.length = bdiLineWords * 8 := hlen
  have hwords : (bdiWords line).length = bdiLineWords := length_wordsLE 8 bdiLineWords line
  unfold bdiBase
  cases hw : bdiWords line with
  | nil => simp
  | cons w ws => exact wordsLE_lt hlen' (w := w) (by rw [← bdiWords, hw]; exact List.mem_cons_self)

/-- A line whose words are all equal is one word repeated. -/
theorem eq_flatten_of_bdiWords {line : List UInt8} (hlen : line.length = bdiLineSize) {v : Nat}
    (h : ∀ w ∈ bdiWords line, w = v) :
    line = (List.replicate bdiLineWords (leBytes 8 v)).flatten := by
  have hlen' : line.length = bdiLineWords * 8 := hlen
  have hwords : bdiWords line = List.replicate bdiLineWords v :=
    List.eq_replicate_iff.mpr ⟨length_wordsLE 8 bdiLineWords line, h⟩
  have hback := flatten_leBytes_wordsLE hlen'
  rw [← bdiWords, hwords, List.map_replicate] at hback
  exact hback.symm

/-- A line's words read back from the delta area, one by one. -/
theorem map_unpackDelta {base : Nat} {words : List Nat} (hlen : words.length = bdiLineWords) :
    ((List.range bdiLineWords).map fun i => addSignedDelta 8 base
        (unpackDelta 8 i (words.map fun w => UInt8.ofNat (bdiDelta base w)))) =
      words.map fun w => addSignedDelta 8 base (bdiDelta base w % 256) := by
  apply List.ext_getElem
  · simp [hlen]
  · intro i h₁ h₂
    have hi : i < words.length := by simpa using h₂
    simp only [List.getElem_map, List.getElem_range, unpackDelta_eight]
    simp [List.getD_eq_getElem?_getD, hi]

/-- A section of what follows a line's code reads back. -/
theorem readAt_bdiBody (pre post : List UInt8) (c : UInt8) (xs ys zs : List UInt8) (n k : Nat)
    (hn : xs.length + 1 = n) (hk : ys.length = k) :
    readAt (pre ++ (c :: (xs ++ (ys ++ zs)) ++ post)) (pre.length + n) k = .ok ys := by
  have h := readAt_append (pre ++ (c :: xs)) ys (zs ++ post)
    (by simp [← hn] : _ = pre.length + n) hk
  simpa using h

/-- The loop body of the decoder at a line's code. -/
theorem bdiDecompressLine_cons (pre post out bs : List UInt8) (cap : Nat) (t : UInt8) :
    bdiDecompressLine (pre ++ (t :: bs ++ post)) cap pre.length out =
      bdiDecompressBody (pre ++ (t :: bs ++ post)) cap (pre.length + 1) out
        (BdiLineType.ofCode t) := by
  rw [bdiDecompressLine, if_neg (by simp), List.cons_append, readByte_append]
  rfl

/-- The words that the decoder makes of a line's deltas. -/
theorem map_addSignedDelta_bdiBase {line : List UInt8} (hlen : line.length = bdiLineSize) :
    ((List.range bdiLineWords).map fun i => addSignedDelta 8
        (leNat (leBytes 8 (bdiBase line))) (unpackDelta 8 i
          ((bdiWords line).map fun w => UInt8.ofNat (bdiDelta (bdiBase line) w)))) =
      (bdiWords line).map fun w =>
        addSignedDelta 8 (bdiBase line) (bdiDelta (bdiBase line) w % 256) := by
  rw [leNat_leBytes, Nat.mod_eq_of_lt (bdiBase_lt hlen)]
  exact map_unpackDelta (length_wordsLE 8 bdiLineWords line)

/-- The loop body of the decoder reads a stored line from the middle of the source. -/
theorem bdiDecompressLine_append (pre post out : List UInt8) {line : List UInt8} {cap : Nat}
    (hlen : line.length = bdiLineSize) (hcap : out.length + bdiLineSize ≤ cap) :
    bdiDecompressLine (pre ++ (bdiLineBytes line ++ post)) cap pre.length out =
      .ok (pre.length + (bdiLineBytes line).length, out ++ bdiReadBack line) := by
  have hroom : ¬ out.length + bdiLineSize > cap := by omega
  have hwords : (bdiWords line).length = bdiLineWords := length_wordsLE 8 bdiLineWords line
  obtain ⟨hc, hz⟩ | ⟨hc, hs⟩ | ⟨hc, -⟩ | hc := bdiClassifyLine_cases line
  · have heq : line = List.replicate bdiLineSize 0 := eq_flatten_of_bdiWords hlen hz
    simp only [bdiLineBytes, bdiReadBack, hc]
    rw [bdiDecompressLine_cons, BdiLineType.ofCode_code, bdiDecompressBody, if_neg hroom,
      emit_ok (by simpa using hcap), ← heq]
    rfl
  · have heq := eq_flatten_of_bdiWords hlen hs
    have hbase := readAt_bdiBody pre post BdiLineType.baseDelta.code [] (leBytes 8 (bdiBase line))
      [] 1 8 rfl (length_leBytes 8 _)
    rw [List.append_nil, List.nil_append] at hbase
    simp only [bdiLineBytes, bdiReadBack, hc]
    rw [bdiDecompressLine_cons, BdiLineType.ofCode_code, bdiDecompressBody,
      if_neg (by simp; omega), if_neg hroom, hbase]
    simp only [bind, Except.bind]
    rw [← heq, emit_ok (by rw [hlen]; exact hcap)]
    simp [Nat.add_assoc]
  · have hbase := readAt_bdiBody pre post BdiLineType.baseDelta2.code [] (leBytes 8 (bdiBase line))
      ((bdiWords line).map fun w => UInt8.ofNat (bdiDelta (bdiBase line) w)) 1 8 rfl
      (length_leBytes 8 _)
    have harea := readAt_bdiBody pre post BdiLineType.baseDelta2.code (leBytes 8 (bdiBase line))
      ((bdiWords line).map fun w => UInt8.ofNat (bdiDelta (bdiBase line) w)) [] 9 8
      (by simp) ((List.length_map _).trans hwords)
    rw [List.append_nil] at harea
    rw [List.nil_append] at hbase
    simp only [bdiLineBytes, bdiReadBack, hc]
    rw [bdiDecompressLine_cons, BdiLineType.ofCode_code, bdiDecompressBody,
      if_neg (by simp; omega), if_neg hroom, hbase]
    simp only [bind, Except.bind]
    rw [if_neg (by simp [hwords, bdiLineWords_eq]; omega), bdiLineWords_eq]
    simp only [Nat.add_assoc, Nat.reduceAdd, Nat.reduceMul, Nat.reduceDiv, harea]
    have hback := map_addSignedDelta_bdiBase hlen
    rw [bdiLineWords_eq] at hback
    have hfit : out.length + bdiLineWords * 8 ≤ cap := hcap
    rw [hback, List.map_map, emit_ok (by simpa [List.length_flatten, Function.comp_def, hwords]
      using hfit)]
    simp [hwords, bdiLineWords_eq, Function.comp_def]
  · have hverb := readAt_bdiBody pre post BdiLineType.uncompressed.code [] line [] 1 bdiLineSize
      rfl hlen
    rw [List.append_nil, List.nil_append] at hverb
    simp only [bdiLineBytes, bdiReadBack, hc]
    rw [bdiDecompressLine_cons, BdiLineType.ofCode_code, bdiDecompressBody,
      if_neg (by simp [hlen]; omega), if_neg hroom, hverb]
    simp only [bind, Except.bind]
    rw [emit_ok (by rw [hlen]; exact hcap)]
    simp [hlen]
    omega

/-- **Signed reading**: a delta byte reads back to its word exactly when the word
is at most 127 above and at most 128 below the base. -/
theorem addSignedDelta_eq_iff {base w : Nat} (_ : base < 2 ^ 64) (_ : w < 2 ^ 64)
    (hnear : w < base + 256 ∧ base < w + 256) :
    addSignedDelta 8 base (bdiDelta base w % 256) = w ↔ w ≤ base + 127 ∧ base ≤ w + 128 := by
  have hsign : ∀ d < 256, d.testBit (8 - 1) = decide (128 ≤ d) := by decide +kernel
  unfold addSignedDelta bdiDelta
  rw [hsign _ (Nat.mod_lt _ (by decide))]
  by_cases hle : base ≤ w
  · rw [show (w + 2 ^ 64 - base) % 2 ^ 64 = w - base by omega]
    split
    · next h => simp only [decide_eq_true_eq] at h; omega
    · next h => simp only [decide_eq_true_eq] at h; omega
  · rw [show (w + 2 ^ 64 - base) % 2 ^ 64 = w + 2 ^ 64 - base by omega]
    split
    · next h => simp only [decide_eq_true_eq] at h; omega
    · next h => simp only [decide_eq_true_eq] at h; omega

/-- Every word of the line is within reach of a signed delta byte. -/
def BdiFits (line : List UInt8) : Prop :=
  (bdiClassifyLine line).type = .baseDelta2 →
    ∀ w ∈ bdiWords line, w ≤ bdiBase line + 127 ∧ bdiBase line ≤ w + 128

instance (line : List UInt8) : Decidable (BdiFits line) :=
  inferInstanceAs (Decidable (_ → _))

theorem addSignedDelta_lt (deltaBits base d : Nat) : addSignedDelta deltaBits base d < 256 ^ 8 := by
  unfold addSignedDelta
  split <;> exact Nat.mod_lt _ (by decide)

/-- The decoder returns the line that was encoded exactly when it fits. -/
theorem bdiReadBack_eq_iff {line : List UInt8} (hlen : line.length = bdiLineSize) :
    bdiReadBack line = line ↔ BdiFits line := by
  have hlen' : line.length = bdiLineWords * 8 := hlen
  unfold bdiReadBack BdiFits
  obtain ⟨hc, -⟩ | ⟨hc, -⟩ | ⟨hc, hnear⟩ | hc := bdiClassifyLine_cases line
  · simp [hc]
  · simp [hc]
  · have hchunk : ∀ c ∈ chunks 8 bdiLineWords line,
        leBytes 8 (addSignedDelta 8 (bdiBase line) (bdiDelta (bdiBase line) (leNat c) % 256)) = c ↔
          leNat c ≤ bdiBase line + 127 ∧ bdiBase line ≤ leNat c + 128 := by
      intro c hcm
      have hclen : c.length = 8 := length_mem_chunks hlen' hcm
      have hmem : leNat c ∈ bdiWords line := List.mem_map.mpr ⟨c, hcm, rfl⟩
      rw [← addSignedDelta_eq_iff (bdiBase_lt hlen) (wordsLE_lt hlen' hmem) (hnear _ hmem)]
      constructor
      · intro h
        have hval := congrArg leNat h
        rwa [leNat_leBytes, Nat.mod_eq_of_lt (addSignedDelta_lt _ _ _)] at hval
      · intro h
        rw [h, leBytes_leNat c hclen]
    have hflat := flatten_map_eq_iff (fun c =>
        leBytes 8 (addSignedDelta 8 (bdiBase line) (bdiDelta (bdiBase line) (leNat c) % 256)))
      (chunks 8 bdiLineWords line) (fun c hcm => by rw [length_leBytes, length_mem_chunks hlen' hcm])
    rw [flatten_chunks 8 bdiLineWords hlen'] at hflat
    simp only [hc, forall_const, bdiWords, wordsLE, List.map_map, List.forall_mem_map]
    exact hflat.trans (forall₂_congr hchunk)
  · simp [hc]

/-! ## Whole sources -/

/-- The lines of a source. -/
def bdiLines (src : List UInt8) : List (List UInt8) :=
  chunks bdiLineSize (src.length / bdiLineSize) src

/-- The size of the stored form of a source. -/
def bdiEncodedSize (src : List UInt8) : Nat :=
  4 + ((bdiLines src).map fun line => (bdiLineBytes line).length).sum

theorem length_mem_bdiLines {src line : List UInt8} (hd : src.length % bdiLineSize = 0)
    (h : line ∈ bdiLines src) : line.length = bdiLineSize :=
  length_mem_chunks (Nat.div_mul_cancel (Nat.dvd_of_mod_eq_zero hd)).symm h

/-- The encoder's loop appends the stored lines when all of them fit. -/
theorem bdiCompressLines_eq (cap : Nat) {lines : List (List UInt8)} (out : List UInt8)
    (hlen : ∀ line ∈ lines, line.length = bdiLineSize) (hout : out.length ≤ cap) :
    bdiCompressLines cap out lines =
      if out.length + (lines.map fun line => (bdiLineBytes line).length).sum ≤ cap then
        .ok (out ++ (lines.map bdiLineBytes).flatten)
      else .error .zero := by
  induction lines generalizing out with
  | nil => simp [bdiCompressLines, hout]
  | cons line lines ih =>
      rw [bdiCompressLines, bdiCompressLine_eq cap out (hlen line List.mem_cons_self)]
      by_cases h : out.length + (bdiLineBytes line).length ≤ cap
      · rw [if_pos h]
        dsimp only
        rw [ih _ (fun l hl => hlen l (List.mem_cons_of_mem line hl)) (by simpa using h)]
        simp [Nat.add_assoc]
      · rw [if_neg h, if_neg (by simp only [List.map_cons, List.sum_cons]; omega)]

/-- **Encoder**: the stored lines behind their count, whenever that fits the
destination and is shorter than the source. -/
theorem bdiCompress_eq (src : List UInt8) (cap : Nat) :
    bdiCompress src cap =
      if src.length ≠ 0 ∧ src.length % bdiLineSize = 0 ∧ bdiEncodedSize src ≤ cap ∧
          bdiEncodedSize src < src.length then
        .ok (leBytes 4 (src.length / bdiLineSize) ++ ((bdiLines src).map bdiLineBytes).flatten)
      else .error .zero := by
  unfold bdiCompress
  by_cases hsrc : src.length = 0 ∨ src.length % bdiLineSize ≠ 0
  · rw [if_pos hsrc, if_neg (by omega)]
  · rw [if_neg hsrc]
    have hlines : ∀ line ∈ bdiLines src, line.length = bdiLineSize :=
      fun line h => length_mem_bdiLines (by omega) h
    by_cases hcap : 4 > cap
    · rw [if_pos hcap, if_neg (by unfold bdiEncodedSize; omega)]
    · have hhead : (leBytes 4 (src.length / bdiLineSize)).length ≤ cap := by simp; omega
      have hloop := bdiCompressLines_eq cap _ hlines hhead
      rw [length_leBytes, ← bdiEncodedSize] at hloop
      dsimp only
      rw [if_neg hcap, emit_ok (by simpa using hhead), List.nil_append, ← bdiLines]
      dsimp only
      rw [hloop]
      by_cases hfit : bdiEncodedSize src ≤ cap
      · rw [if_pos hfit]
        have hsize : (leBytes 4 (src.length / bdiLineSize) ++
            ((bdiLines src).map bdiLineBytes).flatten).length = bdiEncodedSize src := by
          simp [bdiEncodedSize, List.length_flatten, Function.comp_def]
        dsimp only
        rw [hsize]
        by_cases hshort : bdiEncodedSize src < src.length
        · rw [if_neg (by omega), if_pos (by omega)]
        · rw [if_pos (by omega), if_neg (by omega)]
      · rw [if_neg hfit, if_neg (by omega)]

/-- The decoder's loop reads stored lines from the middle of the source. -/
theorem bdiDecompressLines_append {lines : List (List UInt8)} (pre out : List UInt8) (cap : Nat)
    (hlen : ∀ line ∈ lines, line.length = bdiLineSize)
    (hcap : out.length + lines.length * bdiLineSize ≤ cap) :
    bdiDecompressLines (pre ++ (lines.map bdiLineBytes).flatten) cap lines.length pre.length out =
      .ok (out ++ (lines.map bdiReadBack).flatten) := by
  induction lines generalizing pre out with
  | nil => simp [bdiDecompressLines]
  | cons line lines ih =>
      have hl : line.length = bdiLineSize := hlen line List.mem_cons_self
      rw [List.length_cons, Nat.succ_mul] at hcap
      have hback : (bdiReadBack line).length = bdiLineSize := (length_bdiReadBack hl).trans hl
      have hnext := ih (pre ++ bdiLineBytes line) (out ++ bdiReadBack line)
        (fun l h => hlen l (List.mem_cons_of_mem line h)) (by simp [hback]; omega)
      rw [List.append_assoc, List.length_append] at hnext
      rw [List.map_cons, List.flatten_cons, List.length_cons, bdiDecompressLines,
        bdiDecompressLine_append pre _ out hl (by omega)]
      dsimp only
      rw [hnext]
      simp

/-- **Decoder after encoder**: decompressing what `bdiCompress` stored gives every
line as the decoder reads it back. -/
theorem bdiDecompress_bdiCompress {src out : List UInt8} {cap cap' : Nat}
    (hn : src.length / bdiLineSize < 2 ^ 32) (h : bdiCompress src cap = .ok out)
    (hcap' : src.length ≤ cap') :
    bdiDecompress out cap' = .ok ((bdiLines src).map bdiReadBack).flatten := by
  rw [bdiCompress_eq] at h
  split at h
  case isFalse => contradiction
  case isTrue hok =>
    obtain ⟨hpos, hd, -, -⟩ := hok
    injection h with hout
    have hmul : src.length / bdiLineSize * bdiLineSize = src.length :=
      Nat.div_mul_cancel (Nat.dvd_of_mod_eq_zero hd)
    have hlines : ∀ line ∈ bdiLines src, line.length = bdiLineSize :=
      fun line hl => length_mem_bdiLines hd hl
    have hnum : (bdiLines src).length = src.length / bdiLineSize := length_chunks _ _ _
    have hread : readAt out 0 4 = .ok (leBytes 4 (src.length / bdiLineSize)) := by
      rw [← hout]
      exact readAt_append [] _ _ rfl (length_leBytes 4 _)
    have hval : leNat (leBytes 4 (src.length / bdiLineSize)) = src.length / bdiLineSize := by
      rw [leNat_leBytes, Nat.mod_eq_of_lt (by simpa using hn)]
    have hloop := bdiDecompressLines_append (leBytes 4 (src.length / bdiLineSize)) []
      cap' hlines (by rw [hnum, hmul]; simpa using hcap')
    rw [hout, hnum, length_leBytes, List.nil_append] at hloop
    rw [bdiDecompress, if_neg (by simp [← hout]), hread]
    simp only [bind, Except.bind]
    rw [hval, hmul, if_neg (by omega), hloop]

/-- **Round trip**: a stored source decompresses to itself exactly when each of its
lines fits. -/
theorem bdiDecompress_eq_iff {src out : List UInt8} {cap cap' : Nat}
    (hn : src.length / bdiLineSize < 2 ^ 32) (h : bdiCompress src cap = .ok out)
    (hcap' : src.length ≤ cap') :
    bdiDecompress out cap' = .ok src ↔ ∀ line ∈ bdiLines src, BdiFits line := by
  have hd : src.length % bdiLineSize = 0 := by
    rw [bdiCompress_eq] at h
    split at h
    case isFalse => contradiction
    case isTrue hok => exact hok.2.1
  have hmul : src.length / bdiLineSize * bdiLineSize = src.length :=
    Nat.div_mul_cancel (Nat.dvd_of_mod_eq_zero hd)
  have hflat : (bdiLines src).flatten = src := flatten_chunks _ _ hmul.symm
  have hmap := flatten_map_eq_iff bdiReadBack (bdiLines src)
    (fun line hl => length_bdiReadBack (length_mem_bdiLines hd hl))
  rw [hflat] at hmap
  rw [bdiDecompress_bdiCompress hn h hcap', Except.ok.injEq, hmap]
  exact forall₂_congr fun line hl => bdiReadBack_eq_iff (length_mem_bdiLines hd hl)

/-! ## Sources of any length -/

/-- Whatever a line is stored as, the decoder makes one line of it. -/
theorem length_of_bdiDecompressBody {src out out' : List UInt8} {cap inPos pos : Nat}
    {type : BdiLineType} (h : bdiDecompressBody src cap inPos out type = .ok (pos, out')) :
    out'.length = out.length + bdiLineSize := by
  cases type with
  | zeros =>
      simp only [bdiDecompressBody] at h
      split at h
      · cases h
      obtain ⟨_, hemit, h⟩ := bind_eq_ok.1 h
      injection h with h
      injection h with _ h
      rw [← h, length_of_emit hemit, List.length_replicate]
  | baseDelta =>
      simp only [bdiDecompressBody] at h
      split at h
      · cases h
      split at h
      · cases h
      obtain ⟨base, hread, h⟩ := bind_eq_ok.1 h
      obtain ⟨_, hemit, h⟩ := bind_eq_ok.1 h
      injection h with h
      injection h with _ h
      rw [← h, length_of_emit hemit]
      simp [length_of_readAt hread, bdiLineWords, bdiLineSize]
  | baseDelta2 =>
      simp only [bdiDecompressBody] at h
      split at h
      · cases h
      split at h
      · cases h
      obtain ⟨base, -, h⟩ := bind_eq_ok.1 h
      split at h
      · cases h
      obtain ⟨area, -, h⟩ := bind_eq_ok.1 h
      obtain ⟨_, hemit, h⟩ := bind_eq_ok.1 h
      injection h with h
      injection h with _ h
      rw [← h, length_of_emit hemit]
      simp [List.length_flatten, Function.comp_def, bdiLineWords, bdiLineSize]
  | uncompressed =>
      simp only [bdiDecompressBody] at h
      split at h
      · cases h
      split at h
      · cases h
      obtain ⟨line, hread, h⟩ := bind_eq_ok.1 h
      obtain ⟨_, hemit, h⟩ := bind_eq_ok.1 h
      injection h with h
      injection h with _ h
      rw [← h, length_of_emit hemit, length_of_readAt hread]

/-- The decoder's loop makes as many lines as it is told. -/
theorem length_of_bdiDecompressLines {src out out' : List UInt8} {cap inPos n : Nat}
    (h : bdiDecompressLines src cap n inPos out = .ok out') :
    out'.length = out.length + n * bdiLineSize := by
  induction n generalizing inPos out with
  | zero =>
      injection h with h
      rw [← h, Nat.zero_mul, Nat.add_zero]
  | succ n ih =>
      rw [bdiDecompressLines] at h
      split at h
      · cases h
      next pos out₁ hline =>
        unfold bdiDecompressLine at hline
        split at hline
        · cases hline
        obtain ⟨type, -, hbody⟩ := bind_eq_ok.1 hline
        rw [ih h, length_of_bdiDecompressBody hbody, Nat.succ_mul]
        omega

/-- **Round trip** at any length: the decoder reproduces a stored source exactly when the count
of its lines is that of a 32-bit header and each of its lines fits. -/
theorem bdiDecompress_eq_ok_iff {src out : List UInt8} {cap cap' : Nat}
    (h : bdiCompress src cap = .ok out) (hcap' : src.length ≤ cap') :
    bdiDecompress out cap' = .ok src ↔
      src.length / bdiLineSize < 2 ^ 32 ∧ ∀ line ∈ bdiLines src, BdiFits line := by
  by_cases hn : src.length / bdiLineSize < 2 ^ 32
  · rw [bdiDecompress_eq_iff hn h hcap']
    exact ⟨fun hfits => ⟨hn, hfits⟩, And.right⟩
  refine iff_of_false ?_ fun hcond => hn hcond.1
  intro hback
  rw [bdiCompress_eq] at h
  split at h
  case isFalse => cases h
  case isTrue hok =>
    obtain ⟨-, hmod, -, -⟩ := hok
    injection h with hout
    have hmul : src.length / bdiLineSize * bdiLineSize = src.length :=
      Nat.div_mul_cancel (Nat.dvd_of_mod_eq_zero hmod)
    have hread : readAt out 0 4 = .ok (leBytes 4 (src.length / bdiLineSize)) := by
      rw [← hout]
      exact readAt_append [] _ _ rfl (length_leBytes 4 _)
    unfold bdiDecompress at hback
    split at hback
    · cases hback
    rw [hread] at hback
    simp only [bind, Except.bind] at hback
    split at hback
    · cases hback
    have hlen := length_of_bdiDecompressLines hback
    have hlt : leNat (leBytes 4 (src.length / bdiLineSize)) < src.length / bdiLineSize := by
      have hword := leNat_lt (leBytes 4 (src.length / bdiLineSize))
      rw [length_leBytes] at hword
      omega
    have hless := Nat.mul_lt_mul_of_pos_right hlt (show 0 < bdiLineSize by decide)
    rw [List.length_nil, Nat.zero_add] at hlen
    omega

/-- A line of zeros, one of a repeated word, one of a base and its deltas, and one that is
stored verbatim. -/
def lineOfEachType : List UInt8 :=
  List.replicate 64 0 ++ (List.replicate 8 [1, 2, 3, 4, 5, 6, 7, 8]).flatten ++
    [0x80, 0x81, 0xff, 0x7f, 0, 0x80, 0x90, 0x70].flatMap (fun low => [low, 0, 1, 0, 0, 0, 0, 0]) ++
    (List.range 64).map UInt8.ofNat

theorem bdiDecompress_lineOfEachType :
    bdiDecompress ([4, 0, 0, 0, 1, 2, 1, 2, 3, 4, 5, 6, 7, 8, 3, 0x80, 0, 1, 0, 0, 0, 0, 0,
      0, 1, 127, 255, 128, 0, 16, 240, 0] ++ (List.range 64).map UInt8.ofNat) 256
        = .ok lineOfEachType :=
  (@bdiDecompress_eq_ok_iff lineOfEachType _ 256 _ (by decide +kernel) (by decide +kernel)).2
    (by decide +kernel)

/-- A word that is 128 above its base comes back 128 below it. -/
theorem not_bdiRoundTrip :
    ¬ ∀ (src out : List UInt8) (cap cap' : Nat), src.length ≠ 0 → src.length % bdiLineSize = 0 →
      bdiCompress src cap = .ok out → src.length ≤ cap' → bdiDecompress out cap' = .ok src := by
  intro h
  have hstored : bdiCompress (List.replicate 8 0 ++ 128 :: List.replicate 55 0) 64 =
      .ok ([1, 0, 0, 0, 3] ++ List.replicate 9 0 ++ 128 :: List.replicate 6 0) := by decide +kernel
  have hback := h _ _ 64 64 (by decide) (by decide) hstored (by decide)
  exact absurd hback (by decide +kernel)

end MiniMem
