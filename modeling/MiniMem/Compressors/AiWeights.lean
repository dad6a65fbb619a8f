import MiniMem.Compressors.BlockClass

/-!
# MiniMem.Compressors.AiWeights

The compressors for model weights, `ai_weights.c`.  Sixteen-bit values are
split into a stream of their low bytes and a stream of their high bytes,
each half block being stored as a block of its own; eight-bit values are
XOR-ed with the row before and stored as one stream of blocks:

```
split16(src)  =  le16(n) ++ le16(h) ++ types(lo) ++ gap ++ types(hi) ++ gap
                   ++ enc(lo₀) ++ enc(hi₀) ++ enc(lo₁) ++ …
```

The header size `h` that `compress_split16` computes is that of both tables
together, and it leaves that much room for each of them.  The bytes between
the tables keep what the destination held before.
-/

namespace MiniMem

/-! ## Sixteen-bit values -/

/-- `bits_needed`. -/
def bitsNeeded (range : Nat) : Nat :=
  if range = 0 then 0
  else if range ≤ 1 then 1
  else if range ≤ 3 then 2
  else if range ≤ 7 then 3
  else if range ≤ 15 then 4
  else if range ≤ 31 then 5
  else if range ≤ 63 then 6
  else 8

/-- The widths of `ai_weights.c`. -/
def aiBits : RangeBits where
  bits := bitsNeeded
  lt_two_pow := by decide +kernel

/-- `lo_buf`: the bytes of a block at even offsets. -/
def loBytes : List UInt8 → List UInt8
  | lo :: _ :: block => lo :: loBytes block
  | [_] => []
  | [] => []

/-- `hi_buf`: the bytes of a block at odd offsets. -/
def hiBytes : List UInt8 → List UInt8
  | _ :: hi :: block => hi :: hiBytes block
  | [_] => []
  | [] => []

/-- The decoder's interleaving of a low and a high half. -/
def interleave : List UInt8 → List UInt8 → List UInt8
  | lo :: los, hi :: his => lo :: hi :: interleave los his
  | _, _ => []

/-- The halves of the blocks with their classes, encoded one after the other. -/
def encodeHalves : List (List UInt8 × BlockClass × BlockClass) → OutCursor → Except Stop OutCursor
  | [], c => .ok c
  | (block, lo, hi) :: blocks, c => do
      let c ← encodeBlock aiBits (loBytes block) lo c
      let c ← encodeBlock aiBits (hiBytes block) hi c
      encodeHalves blocks c

/-- `compress_split16`. -/
def compressSplit16 (src dst : List UInt8) (dstCap : Nat) : Except Stop OutCursor :=
  if src.length = 0 ∨ src.length % streamBlockSize ≠ 0 then .error .zero
  else do
    let nBlocks := src.length / streamBlockSize
    let blocks := streamBlocks src
    let loClasses ← classifyBlocks aiBits blocksPerPage 0 (blocks.map loBytes)
    let hiClasses ← classifyBlocks aiBits blocksPerPage 0 (blocks.map hiBytes)
    let headerBytes := (nBlocks * 3 * 2 + 7) / 8
    let c ← OutCursor.put ⟨dst, 0⟩ (leBytes 2 nBlocks)
    let c ← c.put (leBytes 2 headerBytes)
    let c ← packTypes (loClasses.map BlockClass.code) c
    let c ← packTypes (hiClasses.map BlockClass.code) (c.skip headerBytes)
    let c ← encodeHalves (blocks.zip (loClasses.zip hiClasses)) (c.skip headerBytes)
    if c.out ≥ src.length ∨ c.out > dstCap then .error .zero else .ok c

/-- The loop of `decompress_split16`: `n` blocks from block `b` on. -/
def decompressHalves (src : List UInt8) (cap loBase hiBase : Nat) :
    Nat → Nat → Nat → List UInt8 → Except Stop (List UInt8)
  | _, 0, _, out => .ok out
  | b, n + 1, inPos, out => do
      let loType ← unpackType src loBase b
      let hiType ← unpackType src hiBase b
      let (inPos, lo) ← decodeBlock aiBits src (streamBlockSize / 2) inPos loType
      let (inPos, hi) ← decodeBlock aiBits src (streamBlockSize / 2) inPos hiType
      let out ← emit cap out (interleave lo hi)
      decompressHalves src cap loBase hiBase (b + 1) n inPos out

/-- `decompress_split16`. -/
def decompressSplit16 (src : List UInt8) (dstCap : Nat) : Except Stop (List UInt8) :=
  if src.length < 4 then .error .zero
  else do
    let nBlocks := leNat (← readAt src 0 2)
    let headerBytes := leNat (← readAt src 2 2)
    if nBlocks = 0 ∨ nBlocks > blocksPerPage then .error .zero
    else if 4 + headerBytes * 2 > src.length then .error .zero
    else if nBlocks * streamBlockSize > dstCap then .error .zero
    else
      decompressHalves src dstCap 4 (4 + headerBytes) 0 nBlocks (4 + headerBytes + headerBytes) []

/-! ## Eight-bit values -/

/-- The XOR of a row with the row before it, which the first row does not have. -/
def xorPrev : Option (List UInt8) → List UInt8 → List UInt8
  | none, row => row
  | some prev, row => List.zipWith (· ^^^ ·) row prev

/-- The rows of a source as `compress_int8` stores them. -/
def int8Rows (src : List UInt8) : List (List UInt8) := rawRows xorPrev none (streamBlocks src)

/-- `compress_int8`. -/
def compressInt8 (src dst : List UInt8) (dstCap : Nat) : Except Stop OutCursor :=
  if src.length = 0 ∨ src.length % streamBlockSize ≠ 0 then .error .zero
  else compressBlocks aiBits (int8Rows src) src.length dst dstCap

/-- `decompress_int8`. -/
def decompressInt8 (src : List UInt8) (dstCap : Nat) : Except Stop (List UInt8) :=
  decompressBlocks aiBits xorPrev src dstCap

/-! ## Weight formats -/

/-- `MINIMEM_AI_FMT_*`. -/
inductive AiFormat where
  | fp16
  | bf16
  | int8
  | int4
  deriving DecidableEq, Repr

/-- `minimem_ai_weights_compress`. -/
def aiWeightsCompress (src dst : List UInt8) (dstCap : Nat) (format : AiFormat) :
    Except Stop OutCursor :=
  if src.length = 0 ∨ src.length % streamBlockSize ≠ 0 then .error .zero
  else
    match format with
    | .fp16 | .bf16 => compressSplit16 src dst dstCap
    | .int8 => compressInt8 src dst dstCap
    | _ => .error .zero

/-- `minimem_ai_weights_decompress`. -/
def aiWeightsDecompress (src : List UInt8) (dstCap : Nat) (format : AiFormat) :
    Except Stop (List UInt8) :=
  match format with
  | .fp16 | .bf16 => decompressSplit16 src dstCap
  | .int8 => decompressInt8 src dstCap
  | _ => .error .zero

/-- `minimem_ai_weights_compress_bound`. -/
def aiWeightsCompressBound (srcLen : Nat) : Nat := srcLen + 256

/-! ## Rows -/

/-- XOR with the row before undoes itself. -/
theorem zipWith_xor_cancel {row prev : List UInt8} (h : row.length = prev.length) :
    List.zipWith (· ^^^ ·) (List.zipWith (· ^^^ ·) row prev) prev = row := by
  induction row generalizing prev with
  | nil => simp
  | cons b row ih =>
      cases prev with
      | nil => cases h
      | cons d prev =>
          rw [List.zipWith_cons_cons, List.zipWith_cons_cons, ih (by simpa using h),
            UInt8.xor_assoc, UInt8.xor_self, UInt8.xor_zero]

/-- XOR-ing with the row before is its own inverse. -/
theorem rowCoding_xorPrev : RowCoding xorPrev xorPrev where
  length_step prev row hprev hrow := by
    cases prev with
    | none => exact hrow
    | some q =>
        have hq : q.length = streamBlockSize := hprev q rfl
        simp [xorPrev, hrow, hq]
  undo_step prev row hprev hrow := by
    cases prev with
    | none => rfl
    | some q => exact zipWith_xor_cancel (hrow.trans (hprev q rfl).symm)

/-- The size of what `compress_int8` stores for a source. -/
def int8Size (src : List UInt8) : Nat := streamSize aiBits (int8Rows src)

/-- An output is never empty: it has its header. -/
theorem int8Size_pos (src : List UInt8) : 0 < int8Size src := by
  unfold int8Size streamSize
  omega

/-- What `compress_int8` stores is larger than the source by its tables at most. -/
theorem int8Size_le {src : List UInt8} (h : StreamSource src)
    (hfit : src.length / streamBlockSize ≤ blocksPerPage) : int8Size src ≤ src.length + 28 :=
  h.streamSize_le (by rw [int8Rows, length_rawRows, length_streamBlocks])
    (rowCoding_xorPrev.length_mem_rawRows (by simp) fun _ hb => h.length_mem hb) hfit

/-- Everything `compress_int8` can do. -/
theorem compressInt8_eq (src dst : List UInt8) (dstCap : Nat) :
    compressInt8 src dst dstCap =
      if ¬ StreamSource src then .error .zero
      else if blocksPerPage < src.length / streamBlockSize then .error .oob
      else if dst.length < int8Size src then .error .oob
      else if int8Size src ≥ src.length ∨ int8Size src > dstCap then .error .zero
      else .ok ⟨streamBytes aiBits (int8Rows src) ++ dst.drop (int8Size src), int8Size src⟩ :=
  rowCoding_xorPrev.compressBlocks_rows aiBits src dst dstCap rfl

/-- What `compress_int8` stores, `decompress_int8` reads back. -/
theorem decompressInt8_compressInt8 {src dst : List UInt8} {c : OutCursor} {dstCap cap : Nat}
    (h : compressInt8 src dst dstCap = .ok c) (hcap : src.length ≤ cap) :
    decompressInt8 c.bytes cap = .ok src :=
  rowCoding_xorPrev.decompressBlocks_compressBlocks rfl h hcap

/-! ## Halves -/

theorem length_loBytes (block : List UInt8) : (loBytes block).length = block.length / 2 := by
  fun_induction loBytes block with
  | case1 lo hi block ih =>
      simp only [List.length_cons, ih]
      omega
  | case2 b => simp
  | case3 => rfl

theorem length_hiBytes (block : List UInt8) : (hiBytes block).length = block.length / 2 := by
  fun_induction hiBytes block with
  | case1 lo hi block ih =>
      simp only [List.length_cons, ih]
      omega
  | case2 b => simp
  | case3 => rfl

/-- A block of even size is the interleaving of its halves. -/
theorem interleave_halves {block : List UInt8} (h : block.length % 2 = 0) :
    interleave (loBytes block) (hiBytes block) = block := by
  fun_induction loBytes block with
  | case1 lo hi block ih =>
      simp only [List.length_cons] at h
      rw [hiBytes, interleave, ih (by omega)]
  | case2 b => simp at h
  | case3 => rfl

/-- The stored form of a block's two halves. -/
def halvesBytes (blocks : List (List UInt8)) : List UInt8 :=
  blocks.flatMap fun block =>
    blockBytes aiBits (loBytes block) (classifyBlock aiBits (loBytes block)) ++
      blockBytes aiBits (hiBytes block) (classifyBlock aiBits (hiBytes block))

/-- A block is the encoding of its low bytes, then that of its high bytes. -/
theorem halvesBytes_cons (block : List UInt8) (blocks : List (List UInt8)) :
    halvesBytes (block :: blocks) =
      blockBytes aiBits (loBytes block) (classifyBlock aiBits (loBytes block)) ++
        (blockBytes aiBits (hiBytes block) (classifyBlock aiBits (hiBytes block)) ++
          halvesBytes blocks) := by
  rw [halvesBytes, List.flatMap_cons, List.append_assoc]
  rfl

/-- The loop over the blocks writes exactly these bytes, by induction on the blocks. -/
theorem encodeHalves_eq {blocks : List (List UInt8)}
    (hlen : ∀ block ∈ blocks, block.length ≤ 64) (c : OutCursor) :
    encodeHalves (blocks.zip ((blocks.map fun block => classifyBlock aiBits (loBytes block)).zip
      (blocks.map fun block => classifyBlock aiBits (hiBytes block)))) c =
      c.put (halvesBytes blocks) := by
  induction blocks generalizing c with
  | nil => rfl
  | cons block blocks ih =>
      have hblock : block.length ≤ 64 := hlen block List.mem_cons_self
      have hlo : ∀ c, _ := fun c => encodeBlock_eq c
        (by rw [length_loBytes]; omega) (classifiedAs_classifyBlock aiBits (loBytes block))
      have hhi : ∀ c, _ := fun c => encodeBlock_eq c
        (by rw [length_hiBytes]; omega) (classifiedAs_classifyBlock aiBits (hiBytes block))
      simp only [List.map_cons, List.zip_cons_cons, encodeHalves]
      rw [halvesBytes_cons, OutCursor.put_append, hlo]
      refine bind_congr fun c => ?_
      rw [OutCursor.put_append, hhi]
      exact bind_congr fun c => ih (fun b hb => hlen b (List.mem_cons_of_mem block hb)) c

/-! ## The layout of a split source -/

/-- `header_bytes` of `compress_split16`. -/
def split16Header (src : List UInt8) : Nat := (src.length / streamBlockSize * 3 * 2 + 7) / 8

/-- The bytes that the types of one half take. -/
def split16Types (src : List UInt8) : Nat := (src.length / streamBlockSize * 3 + 7) / 8

/-- The packed types of the low halves. -/
def loTypes (src : List UInt8) : List UInt8 := typeBytes aiBits ((streamBlocks src).map loBytes)

/-- The packed types of the high halves. -/
def hiTypes (src : List UInt8) : List UInt8 := typeBytes aiBits ((streamBlocks src).map hiBytes)

/-- The two counts in front of a split source. -/
def split16Counts (src : List UInt8) : List UInt8 :=
  leBytes 2 (src.length / streamBlockSize) ++ leBytes 2 (split16Header src)

/-- The size that `compress_split16` computes for a source. -/
def split16Size (src : List UInt8) : Nat :=
  4 + split16Header src + split16Header src + (halvesBytes (streamBlocks src)).length

/-- The end of the last byte that `compress_split16` writes for a source. -/
def split16Extent (src : List UInt8) : Nat :=
  if halvesBytes (streamBlocks src) = [] then 4 + split16Header src + split16Types src
  else split16Size src

/-- A type table takes no more than the room that is left for it. -/
theorem split16Types_le (src : List UInt8) : split16Types src ≤ split16Header src := by
  unfold split16Types split16Header
  omega

/-- What is written lies within the size that is returned. -/
theorem split16Extent_le (src : List UInt8) : split16Extent src ≤ split16Size src := by
  have hle := split16Types_le src
  unfold split16Extent split16Size
  split <;> omega

theorem split16Size_pos (src : List UInt8) : 0 < split16Size src := by
  unfold split16Size
  omega

/-- What `compress_split16` stores is larger than the source by its tables at most. -/
theorem split16Size_le {src : List UInt8} (h : StreamSource src)
    (hfit : src.length / streamBlockSize ≤ blocksPerPage) : split16Size src ≤ src.length + 100 := by
  have hhalves : (halvesBytes (streamBlocks src)).length ≤
      (streamBlocks src).length * streamBlockSize := by
    rw [halvesBytes, List.length_flatMap]
    refine sum_map_le _ _ fun block hb => ?_
    have hblock : block.length = 64 := h.length_mem hb
    have hlo := blockSize_le (by rw [length_loBytes]; omega)
      (classifiedAs_classifyBlock aiBits (loBytes block))
    have hhi := blockSize_le (by rw [length_hiBytes]; omega)
      (classifiedAs_classifyBlock aiBits (hiBytes block))
    have hsize : streamBlockSize = 64 := rfl
    rw [length_loBytes] at hlo
    rw [length_hiBytes] at hhi
    rw [List.length_append, length_blockBytes, length_blockBytes]
    omega
  have hpage : blocksPerPage = 64 := rfl
  rw [length_streamBlocks, h.mul_eq] at hhalves
  unfold split16Size split16Header
  omega

/-- The bytes from `pos` on that the tables leave as the destination had them. -/
def split16Gap (src dst : List UInt8) (pos : Nat) : List UInt8 :=
  (dst.drop (pos + split16Types src)).take (split16Header src - split16Types src)

/-- What `compress_split16` leaves below its result. -/
def split16Bytes (src dst : List UInt8) : List UInt8 :=
  split16Counts src ++ (loTypes src ++ (split16Gap src dst 4 ++ (hiTypes src ++
    (split16Gap src dst (4 + split16Header src) ++ halvesBytes (streamBlocks src)))))

@[simp] theorem length_split16Counts (src : List UInt8) : (split16Counts src).length = 4 := by
  simp [split16Counts]

@[simp] theorem length_loTypes (src : List UInt8) : (loTypes src).length = split16Types src := by
  rw [loTypes, length_typeBytes, List.length_map, length_streamBlocks, split16Types, Nat.mul_comm]

@[simp] theorem length_hiTypes (src : List UInt8) : (hiTypes src).length = split16Types src := by
  rw [hiTypes, length_typeBytes, List.length_map, length_streamBlocks, split16Types, Nat.mul_comm]

/-- The rest of the room for a table. -/
theorem length_split16Gap {src dst : List UInt8} {pos : Nat}
    (h : pos + split16Header src ≤ dst.length) :
    (split16Gap src dst pos).length = split16Header src - split16Types src := by
  have hle := split16Types_le src
  rw [split16Gap, List.length_take_of_le (by rw [List.length_drop]; omega)]

/-- What stands in front of the halves. -/
def split16Tables (src dst : List UInt8) : List UInt8 :=
  split16Counts src ++ (loTypes src ++ (split16Gap src dst 4 ++ (hiTypes src ++
    split16Gap src dst (4 + split16Header src))))

/-- The output is the header with the tables, then the blocks. -/
theorem split16Bytes_eq (src dst : List UInt8) :
    split16Bytes src dst = split16Tables src dst ++ halvesBytes (streamBlocks src) := by
  simp only [split16Bytes, split16Tables, List.append_assoc]

/-- The header, and the room for both tables. -/
theorem length_split16Tables {src dst : List UInt8}
    (h : 4 + split16Header src + split16Header src ≤ dst.length) :
    (split16Tables src dst).length = 4 + split16Header src + split16Header src := by
  have hle := split16Types_le src
  simp only [split16Tables, List.length_append, length_split16Counts, length_loTypes,
    length_hiTypes]
  rw [length_split16Gap (by omega), length_split16Gap h]
  omega

/-- The output has the size that is returned. -/
theorem length_split16Bytes {src dst : List UInt8} (h : split16Size src ≤ dst.length) :
    (split16Bytes src dst).length = split16Size src := by
  have htables : 4 + split16Header src + split16Header src ≤ dst.length := by
    unfold split16Size at h
    omega
  rw [split16Bytes_eq, List.length_append, length_split16Tables htables, split16Size]

/-- The first table holds the classes of the low bytes, three bits each. -/
theorem loTypes_eq (src : List UInt8) : loTypes src =
    fieldBytes 3 ((streamBlocks src).map fun block =>
      (classifyBlock aiBits (loBytes block)).code) := by
  rw [loTypes, typeBytes, List.map_map]
  rfl

/-- The second holds those of the high bytes. -/
theorem hiTypes_eq (src : List UInt8) : hiTypes src =
    fieldBytes 3 ((streamBlocks src).map fun block =>
      (classifyBlock aiBits (hiBytes block)).code) := by
  rw [hiTypes, typeBytes, List.map_map]
  rfl

/-- A class fits three bits. -/
theorem halfCodes_lt (half : List UInt8 → List UInt8) (blocks : List (List UInt8)) :
    ∀ t ∈ blocks.map (fun block => (classifyBlock aiBits (half block)).code), t < 2 ^ 3 := by
  intro t ht
  obtain ⟨block, -, rfl⟩ := List.mem_map.1 ht
  exact BlockClass.code_lt _

/-- A list in two parts, the first of a given length. -/
theorem exists_append_of_le {α : Type} {l : List α} {n : Nat} (h : n ≤ l.length) :
    ∃ xs ys, l = xs ++ ys ∧ xs.length = n :=
  ⟨l.take n, l.drop n, (List.take_append_drop n l).symm, List.length_take_of_le h⟩

/-- The tables of a split source, written over the front of the destination. -/
theorem put_tables (src dst : List UInt8) :
    (OutCursor.put ⟨dst, 0⟩ (split16Counts src) >>= fun c =>
      packTypes ((streamBlocks src).map fun block => (classifyBlock aiBits (loBytes block)).code) c
        >>= fun c =>
      packTypes ((streamBlocks src).map fun block => (classifyBlock aiBits (hiBytes block)).code)
        (c.skip (split16Header src))) =
      if dst.length < 4 + split16Header src + split16Types src then .error .oob
      else .ok ⟨split16Counts src ++ (loTypes src ++ (split16Gap src dst 4 ++ (hiTypes src ++
        dst.drop (4 + split16Header src + split16Types src)))), 4 + split16Header src⟩ := by
  have hcounts : (split16Counts src).length = 4 := length_split16Counts src
  have hle := split16Types_le src
  have hlo := length_loTypes src
  have hhi := length_hiTypes src
  rw [loTypes_eq] at hlo ⊢
  rw [hiTypes_eq] at hhi ⊢
  by_cases h₀ : dst.length < 4
  · have hne : split16Counts src ≠ [] := by
      rw [← List.length_pos_iff, hcounts]
      decide
    rw [if_pos (by omega), OutCursor.put_oob hne (by simpa [hcounts] using h₀)]
    rfl
  obtain ⟨d₀, rest, rfl, hd₀⟩ := exists_append_of_le (Nat.le_of_not_lt h₀)
  have hput := OutCursor.put_mid [] rest (hd₀.trans hcounts.symm)
  simp only [List.nil_append, List.length_nil, Nat.zero_add, hcounts] at hput
  rw [hput, ok_bind]
  rw [List.length_append, hd₀]
  by_cases h₁ : rest.length < split16Types src
  · rw [if_pos (by omega), packTypes_oob (by
      rw [hlo, List.length_append, hcounts]
      dsimp only
      omega)]
    rfl
  obtain ⟨d₁, rest, rfl, hd₁⟩ := exists_append_of_le (Nat.le_of_not_lt h₁)
  have hpack := packTypes_mid (halfCodes_lt loBytes (streamBlocks src)) (split16Counts src) rest
    (hd₁.trans hlo.symm)
  rw [hcounts] at hpack
  rw [hpack, ok_bind]
  rw [List.length_append, hd₁]
  by_cases h₂ : rest.length < split16Header src
  · rw [if_pos (by omega), packTypes_oob (by
      simp only [OutCursor.skip, List.length_append, hcounts, hlo, hhi]
      omega)]
  obtain ⟨gap, rest, rfl, hgap⟩ := exists_append_of_le
    (show split16Header src - split16Types src ≤ rest.length by omega)
  obtain ⟨d₂, rest, rfl, hd₂⟩ := exists_append_of_le
    (show split16Types src ≤ rest.length by simp only [List.length_append] at h₂; omega)
  have hpre : (split16Counts src ++ (fieldBytes 3 ((streamBlocks src).map fun block =>
      (classifyBlock aiBits (loBytes block)).code) ++ gap)).length = 4 + split16Header src := by
    simp only [List.length_append, hcounts, hlo, hgap]
    omega
  have hpack₂ := packTypes_mid (halfCodes_lt hiBytes (streamBlocks src))
    (split16Counts src ++ (fieldBytes 3 ((streamBlocks src).map fun block =>
      (classifyBlock aiBits (loBytes block)).code) ++ gap)) rest (hd₂.trans hhi.symm)
  rw [hpre] at hpack₂
  have hgapEq : split16Gap src (d₀ ++ (d₁ ++ (gap ++ (d₂ ++ rest)))) 4 = gap := by
    rw [split16Gap, ← List.append_assoc, drop_append_of_length (by simp [hd₀, hd₁]),
      take_append_of_length hgap]
  have hrest : (d₀ ++ (d₁ ++ (gap ++ (d₂ ++ rest)))).drop
      (4 + split16Header src + split16Types src) = rest := by
    rw [← List.append_assoc, ← List.append_assoc, ← List.append_assoc]
    apply drop_append_of_length
    simp only [List.length_append, hd₀, hd₁, hgap, hd₂]
    omega
  rw [if_neg (by simp only [List.length_append, hgap, hd₂]; omega), hgapEq, hrest, OutCursor.skip]
  simpa [List.append_assoc] using hpack₂

/-- The destination behind the tables. -/
theorem length_overTables {src dst : List UInt8}
    (h : 4 + split16Header src + split16Types src ≤ dst.length) :
    (split16Counts src ++ (loTypes src ++ (split16Gap src dst 4 ++ (hiTypes src ++
      dst.drop (4 + split16Header src + split16Types src))))).length = dst.length := by
  have hle := split16Types_le src
  simp only [List.length_append, length_split16Counts, length_loTypes, length_hiTypes,
    List.length_drop]
  rw [length_split16Gap (by omega)]
  omega

/-- The halves of a split source, written behind the tables. -/
theorem put_halves {src dst : List UInt8} (h : split16Size src ≤ dst.length) :
    OutCursor.put ⟨split16Counts src ++ (loTypes src ++ (split16Gap src dst 4 ++ (hiTypes src ++
        dst.drop (4 + split16Header src + split16Types src)))),
          4 + split16Header src + split16Header src⟩ (halvesBytes (streamBlocks src)) =
      .ok ⟨split16Bytes src dst ++ dst.drop (split16Size src), split16Size src⟩ := by
  have hle := split16Types_le src
  have hsum : 4 + split16Header src + split16Header src +
      (halvesBytes (streamBlocks src)).length = split16Size src := rfl
  have hold : ((dst.drop (4 + split16Header src + split16Header src)).take
      (halvesBytes (streamBlocks src)).length).length = (halvesBytes (streamBlocks src)).length :=
    List.length_take_of_le (by rw [List.length_drop]; omega)
  have hput := OutCursor.put_mid (split16Tables src dst) (dst.drop (split16Size src)) hold
  rw [length_split16Tables (by omega), hsum] at hput
  -- behind the types: the second gap, what the halves go over, and the rest
  have hsecond : dst.drop (4 + split16Header src + split16Header src) =
      (dst.drop (4 + split16Header src + split16Types src)).drop
        (split16Header src - split16Types src) := by
    rw [List.drop_drop]
    congr 1
    omega
  have hthird : dst.drop (split16Size src) =
      (dst.drop (4 + split16Header src + split16Header src)).drop
        (halvesBytes (streamBlocks src)).length := by
    rw [List.drop_drop, hsum]
  have hsplit : dst.drop (4 + split16Header src + split16Types src) =
      split16Gap src dst (4 + split16Header src) ++
        ((dst.drop (4 + split16Header src + split16Header src)).take
          (halvesBytes (streamBlocks src)).length ++ dst.drop (split16Size src)) := by
    rw [split16Gap, hthird, List.take_append_drop, hsecond, List.take_append_drop]
  rw [hsplit, split16Bytes]
  simp only [split16Tables, List.append_assoc] at hput ⊢
  exact hput

/-- The encoder as a sequence of writes and a check. -/
theorem compressSplit16_run {src : List UInt8} (h : StreamSource src)
    (hfit : src.length / streamBlockSize ≤ blocksPerPage) (dst : List UInt8) (dstCap : Nat) :
    compressSplit16 src dst dstCap =
      (OutCursor.put ⟨dst, 0⟩ (split16Counts src) >>= fun c =>
        packTypes
          ((streamBlocks src).map fun block => (classifyBlock aiBits (loBytes block)).code) c
          >>= fun c =>
        packTypes ((streamBlocks src).map fun block => (classifyBlock aiBits (hiBytes block)).code)
          (c.skip (split16Header src))) >>= fun c =>
        (c.skip (split16Header src)).put (halvesBytes (streamBlocks src)) >>=
          checkSize src.length dstCap := by
  have hlen : ∀ block ∈ streamBlocks src, block.length ≤ 64 := fun b hb =>
    Nat.le_of_eq (h.length_mem hb)
  have htables : ∀ half : List UInt8 → List UInt8,
      classifyBlocks aiBits blocksPerPage 0 ((streamBlocks src).map half) =
        .ok ((streamBlocks src).map fun block => classifyBlock aiBits (half block)) := by
    intro half
    rw [classifyBlocks_eq, if_pos (.inr (by simpa [length_streamBlocks] using hfit)), List.map_map]
    rfl
  unfold compressSplit16
  rw [if_neg (not_streamSource.not.1 (not_not_intro h))]
  dsimp only
  rw [htables loBytes, ok_bind, htables hiBytes, ok_bind, split16Counts, OutCursor.put_append,
    bind_assoc, bind_assoc, List.map_map, List.map_map]
  refine bind_congr fun c => bind_congr fun c => ?_
  rw [bind_assoc]
  refine bind_congr fun c => bind_congr fun c => ?_
  rw [encodeHalves_eq hlen]
  rfl

/-- Everything `compress_split16` can do on a destination that has the capacity passed. -/
theorem compressSplit16_eq (src : List UInt8) {dst : List UInt8} {dstCap : Nat}
    (hcap : dstCap ≤ dst.length) :
    compressSplit16 src dst dstCap =
      if ¬ StreamSource src then .error .zero
      else if blocksPerPage < src.length / streamBlockSize then .error .oob
      else if dst.length < split16Extent src then .error .oob
      else if split16Size src ≥ src.length ∨ split16Size src > dstCap then .error .zero
      else .ok ⟨split16Bytes src dst ++ dst.drop (split16Size src), split16Size src⟩ := by
  by_cases h : StreamSource src
  swap
  · rw [if_pos h, compressSplit16, if_pos (not_streamSource.1 h)]
  rw [if_neg (not_not_intro h)]
  by_cases hfit : blocksPerPage < src.length / streamBlockSize
  · have hne : (streamBlocks src).map loBytes ≠ [] := by
      simpa using h.streamBlocks_ne_nil
    rw [if_pos hfit, compressSplit16, if_neg (not_streamSource.not.1 (not_not_intro h))]
    dsimp only
    have hfull : ¬ ((streamBlocks src).map loBytes = [] ∨
        0 + ((streamBlocks src).map loBytes).length ≤ blocksPerPage) := by
      rintro (hnil | hle)
      · exact hne hnil
      · rw [List.length_map, length_streamBlocks] at hle
        omega
    rw [classifyBlocks_eq, if_neg hfull]
    rfl
  rw [if_neg hfit, compressSplit16_run h (Nat.le_of_not_lt hfit), put_tables]
  have hle := split16Types_le src
  by_cases hroom : dst.length < 4 + split16Header src + split16Types src
  · have hextent : dst.length < split16Extent src := by
      unfold split16Extent split16Size
      split <;> omega
    rw [if_pos hroom, if_pos hextent]
    rfl
  rw [if_neg hroom, ok_bind]
  by_cases hsize : split16Size src ≤ dst.length
  · have hextent : ¬ dst.length < split16Extent src := by
      unfold split16Extent
      split <;> omega
    rw [if_neg hextent, OutCursor.skip]
    dsimp only
    rw [put_halves hsize, ok_bind, checkSize]
  · by_cases hhalves : halvesBytes (streamBlocks src) = []
    · have hextent : ¬ dst.length < split16Extent src := by
        rw [split16Extent, if_pos hhalves]
        omega
      have hout : 4 + split16Header src + split16Header src > dstCap := by
        rw [split16Size, hhalves, List.length_nil] at hsize
        omega
      rw [if_neg hextent, hhalves, OutCursor.put, ok_bind, checkSize, if_pos (.inr hout),
        if_pos (.inr (by omega))]
    · have hextent : dst.length < split16Extent src := by
        rw [split16Extent, if_neg hhalves]
        omega
      have hlen := length_overTables (Nat.le_of_not_lt hroom)
      rw [if_pos hextent, OutCursor.put_oob hhalves (by
        rw [split16Size] at hsize
        simp only [OutCursor.skip]
        omega)]
      rfl

/-! ## Reading a split source back -/

/-- The decoder's loop reads the halves of the blocks from the middle of its source. -/
theorem decompressHalves_append {src post : List UInt8} {cap loBase hiBase : Nat}
    {blocks : List (List UInt8)} (pre out : List UInt8) (b : Nat)
    (hblocks : ∀ block ∈ blocks, block.length = streamBlockSize)
    (hlo : ∀ i block, blocks[i]? = some block →
      unpackType src loBase (b + i) = .ok (classifyBlock aiBits (loBytes block)).code)
    (hhi : ∀ i block, blocks[i]? = some block →
      unpackType src hiBase (b + i) = .ok (classifyBlock aiBits (hiBytes block)).code)
    (hsrc : src = pre ++ (halvesBytes blocks ++ post))
    (hcap : out.length + blocks.length * streamBlockSize ≤ cap) :
    decompressHalves src cap loBase hiBase b blocks.length pre.length out =
      .ok (out ++ blocks.flatten) := by
  induction blocks generalizing pre out b with
  | nil => simp [decompressHalves]
  | cons block blocks ih =>
      have hblock : block.length = streamBlockSize := hblocks block List.mem_cons_self
      have hhalf : (loBytes block).length = streamBlockSize / 2 := by
        rw [length_loBytes, hblock]
      have hhalf' : (hiBytes block).length = streamBlockSize / 2 := by
        rw [length_hiBytes, hblock]
      rw [List.length_cons, Nat.succ_mul] at hcap
      have htype := hlo 0 block (by simp)
      have htype' := hhi 0 block (by simp)
      rw [Nat.add_zero] at htype htype'
      rw [halvesBytes_cons] at hsrc
      have hread := decodeBlock_append pre
        (blockBytes aiBits (hiBytes block) (classifyBlock aiBits (hiBytes block)) ++
          (halvesBytes blocks ++ post)) (classifiedAs_classifyBlock aiBits (loBytes block))
      have hread' := decodeBlock_append
        (pre ++ blockBytes aiBits (loBytes block) (classifyBlock aiBits (loBytes block)))
        (halvesBytes blocks ++ post) (classifiedAs_classifyBlock aiBits (hiBytes block))
      have hnext := ih ((pre ++ blockBytes aiBits (loBytes block)
          (classifyBlock aiBits (loBytes block))) ++ blockBytes aiBits (hiBytes block)
            (classifyBlock aiBits (hiBytes block))) (out ++ block) (b + 1)
        (fun c hc => hblocks c (List.mem_cons_of_mem block hc))
        (fun i c hi => by
          rw [Nat.add_assoc, Nat.add_comm 1]
          exact hlo (i + 1) c (by simpa using hi))
        (fun i c hi => by
          rw [Nat.add_assoc, Nat.add_comm 1]
          exact hhi (i + 1) c (by simpa using hi))
        (by rw [hsrc]; simp only [List.append_assoc])
        (by rw [List.length_append, hblock]; omega)
      simp only [List.append_assoc] at hsrc hread' hnext
      rw [← hsrc, hhalf] at hread
      rw [← hsrc, hhalf', List.length_append] at hread'
      rw [List.length_append, List.length_append, ← Nat.add_assoc] at hnext
      rw [List.length_cons, decompressHalves, htype, ok_bind, htype', ok_bind, hread, ok_bind]
      dsimp only
      rw [hread', ok_bind]
      dsimp only
      rw [interleave_halves (by rw [hblock]; decide), emit_ok (by rw [hblock]; omega), ok_bind,
        hnext]
      simp

/-- The decoder reads the type of a low half in the first table. -/
theorem unpackType_loTypes {src block : List UInt8} {i : Nat} (dst : List UInt8)
    (hi : (streamBlocks src)[i]? = some block) :
    unpackType (split16Bytes src dst) 4 i = .ok (classifyBlock aiBits (loBytes block)).code := by
  obtain ⟨hlt, hblock⟩ := List.getElem?_eq_some_iff.1 hi
  have hfield := readField_fieldBytes (w := 3) (by decide) (by decide)
    (halfCodes_lt loBytes (streamBlocks src)) (split16Counts src)
    (split16Gap src dst 4 ++ (hiTypes src ++ (split16Gap src dst (4 + split16Header src) ++
      halvesBytes (streamBlocks src)))) (i := i) (by simpa using hlt)
  rw [List.getElem_map, hblock, length_split16Counts, ← loTypes_eq] at hfield
  rw [split16Bytes, unpackType, Nat.mul_comm i]
  exact hfield

/-- It reads the type of a high half in the second table, behind the gap. -/
theorem unpackType_hiTypes {src dst block : List UInt8} {i : Nat}
    (hdst : 4 + split16Header src ≤ dst.length) (hi : (streamBlocks src)[i]? = some block) :
    unpackType (split16Bytes src dst) (4 + split16Header src) i =
      .ok (classifyBlock aiBits (hiBytes block)).code := by
  obtain ⟨hlt, hblock⟩ := List.getElem?_eq_some_iff.1 hi
  have hfield := readField_fieldBytes (w := 3) (by decide) (by decide)
    (halfCodes_lt hiBytes (streamBlocks src))
    (split16Counts src ++ (loTypes src ++ split16Gap src dst 4))
    (split16Gap src dst (4 + split16Header src) ++ halvesBytes (streamBlocks src))
    (i := i) (by simpa using hlt)
  have hbase : (split16Counts src ++ (loTypes src ++ split16Gap src dst 4)).length =
      4 + split16Header src := by
    have hle := split16Types_le src
    simp only [List.length_append, length_split16Counts, length_loTypes]
    rw [length_split16Gap hdst]
    omega
  rw [List.getElem_map, hblock, hbase, ← hiTypes_eq] at hfield
  rw [split16Bytes, unpackType, Nat.mul_comm i]
  simpa only [List.append_assoc] using hfield

/-- What `compress_split16` stores, `decompress_split16` reads back, whatever the bytes
between the tables are. -/
theorem decompressSplit16_compressSplit16 {src dst : List UInt8} {c : OutCursor} {dstCap cap : Nat}
    (hdst : dstCap ≤ dst.length) (h : compressSplit16 src dst dstCap = .ok c)
    (hcap : src.length ≤ cap) : decompressSplit16 c.bytes cap = .ok src := by
  rw [compressSplit16_eq src hdst] at h
  by_cases hsrc : StreamSource src
  swap
  · rw [if_pos hsrc] at h
    cases h
  rw [if_neg (not_not_intro hsrc)] at h
  split at h
  · cases h
  next hfit =>
  split at h
  · cases h
  split at h
  · cases h
  next hsize =>
  injection h with h
  have hpage : blocksPerPage = 64 := rfl
  have hroom : split16Size src ≤ dst.length := by omega
  have htables : 4 + split16Header src + split16Header src ≤ dst.length := by
    unfold split16Size at hroom
    omega
  have hlen := length_split16Bytes hroom
  have hsum : split16Size src = 4 + split16Header src + split16Header src +
    (halvesBytes (streamBlocks src)).length := rfl
  have hbytes : c.bytes = split16Bytes src dst := by
    rw [← h, OutCursor.bytes]
    exact take_append_of_length hlen
  have hpos : 0 < src.length / streamBlockSize := by
    rw [← length_streamBlocks, List.length_pos_iff]
    exact hsrc.streamBlocks_ne_nil
  have hn : leNat (leBytes 2 (src.length / streamBlockSize)) = src.length / streamBlockSize := by
    rw [leNat_leBytes, Nat.mod_eq_of_lt (by omega)]
  have hheader : leNat (leBytes 2 (split16Header src)) = split16Header src := by
    have hlt : split16Header src < 256 ^ 2 := by
      unfold split16Header
      omega
    rw [leNat_leBytes, Nat.mod_eq_of_lt hlt]
  have hread : readAt (split16Bytes src dst) 0 2 =
      .ok (leBytes 2 (src.length / streamBlockSize)) := by
    rw [split16Bytes, split16Counts, List.append_assoc]
    exact readAt_append [] _ _ rfl (length_leBytes 2 _)
  have hread' : readAt (split16Bytes src dst) 2 2 = .ok (leBytes 2 (split16Header src)) := by
    rw [split16Bytes, split16Counts, List.append_assoc]
    exact readAt_append _ _ _ (length_leBytes 2 _) (length_leBytes 2 _)
  have hloop := @decompressHalves_append _ [] cap 4 (4 + split16Header src) _
    (split16Tables src dst) [] 0 (fun b hb => hsrc.length_mem hb)
    (fun i block hi => by rw [Nat.zero_add]; exact unpackType_loTypes dst hi)
    (fun i block hi => by rw [Nat.zero_add]; exact unpackType_hiTypes (by omega) hi)
    (by rw [split16Bytes_eq, List.append_nil])
    (by rw [length_streamBlocks, hsrc.mul_eq]; simpa using hcap)
  rw [length_split16Tables htables, length_streamBlocks, List.nil_append,
    hsrc.flatten_streamBlocks] at hloop
  have hmul := hsrc.mul_eq
  rw [hbytes, decompressSplit16, if_neg (by omega), hread, ok_bind, hread', ok_bind, hn, hheader,
    if_neg (by omega), if_neg (by omega), if_neg (by omega)]
  exact hloop

/-- What the weight codec stores, it reads back in the same format. -/
theorem aiWeightsDecompress_aiWeightsCompress {src dst : List UInt8} {c : OutCursor}
    {dstCap cap : Nat} {format : AiFormat} (hdst : dstCap ≤ dst.length)
    (h : aiWeightsCompress src dst dstCap format = .ok c) (hcap : src.length ≤ cap) :
    aiWeightsDecompress c.bytes cap format = .ok src := by
  unfold aiWeightsCompress at h
  split at h
  · cases h
  · cases format with
    | fp16 => exact decompressSplit16_compressSplit16 hdst h hcap
    | bf16 => exact decompressSplit16_compressSplit16 hdst h hcap
    | int8 => exact decompressInt8_compressInt8 h hcap
    | int4 => cases h

/-! ## What the decoders yield -/

/-- Two halves make a block of both lengths. -/
theorem length_interleave {lo hi : List UInt8} (h : lo.length = hi.length) :
    (interleave lo hi).length = lo.length + hi.length := by
  induction lo generalizing hi with
  | nil =>
      rw [List.length_nil] at h
      rw [List.length_eq_zero_iff.1 h.symm]
      rfl
  | cons b lo ih =>
      cases hi with
      | nil => cases h
      | cons d hi =>
          have hlen : lo.length = hi.length := Nat.succ.inj h
          rw [interleave, List.length_cons, List.length_cons, ih hlen, List.length_cons,
            List.length_cons]
          omega

/-- Each pass of the loop of `decompress_split16` yields one block. -/
theorem length_of_decompressHalves {src out out' : List UInt8} {cap loBase hiBase n b inPos : Nat}
    (h : decompressHalves src cap loBase hiBase b n inPos out = .ok out') :
    out'.length = out.length + n * streamBlockSize := by
  induction n generalizing b inPos out with
  | zero =>
      injection h with h
      rw [← h, Nat.zero_mul, Nat.add_zero]
  | succ n ih =>
      rw [decompressHalves] at h
      obtain ⟨loType, -, h⟩ := bind_eq_ok.1 h
      obtain ⟨hiType, -, h⟩ := bind_eq_ok.1 h
      obtain ⟨⟨pos, lo⟩, hlo, h⟩ := bind_eq_ok.1 h
      obtain ⟨⟨pos', hi⟩, hhi, h⟩ := bind_eq_ok.1 h
      obtain ⟨next, hemit, h⟩ := bind_eq_ok.1 h
      have hloLen := length_of_decodeBlock hlo
      have hhiLen := length_of_decodeBlock hhi
      have hsize : streamBlockSize = 64 := rfl
      have hnext : next.length = out.length + streamBlockSize := by
        rw [length_of_emit hemit, length_interleave (hloLen.trans hhiLen.symm), hloLen, hhiLen]
        omega
      rw [ih h, hnext, Nat.succ_mul]
      omega

/-- The decoders yield a page at most. -/
theorem length_of_aiWeightsDecompress {src out : List UInt8} {dstCap : Nat} {format : AiFormat}
    (h : aiWeightsDecompress src dstCap format = .ok out) :
    out.length ≤ blocksPerPage * streamBlockSize := by
  have hsplit : ∀ {out}, decompressSplit16 src dstCap = .ok out →
      out.length ≤ blocksPerPage * streamBlockSize := by
    intro out h
    unfold decompressSplit16 at h
    split at h
    · cases h
    obtain ⟨count, -, h⟩ := bind_eq_ok.1 h
    obtain ⟨header, -, h⟩ := bind_eq_ok.1 h
    dsimp only at h
    split at h
    · cases h
    next hcount =>
      split at h
      · cases h
      split at h
      · cases h
      rw [length_of_decompressHalves h, List.length_nil, Nat.zero_add]
      exact Nat.mul_le_mul_right _ (by omega)
  cases format with
  | fp16 => exact hsplit h
  | bf16 => exact hsplit h
  | int8 => exact length_of_decompressBlocks rowCoding_xorPrev.length_step h
  | int4 => cases h

/-- With the destination that `minimem_ai_weights_compress_bound` asks for, the codec goes
outside a buffer exactly when its source has more blocks than its tables have entries. -/
theorem aiWeightsCompress_eq_oob_iff {src dst : List UInt8} {format : AiFormat}
    (hdst : dst.length = aiWeightsCompressBound src.length) (hformat : format ≠ .int4) :
    aiWeightsCompress src dst (aiWeightsCompressBound src.length) format = .error .oob ↔
      StreamSource src ∧ blocksPerPage < src.length / streamBlockSize := by
  by_cases h : StreamSource src
  swap
  · unfold aiWeightsCompress
    rw [if_pos (not_streamSource.1 h)]
    exact iff_of_false nofun fun hboth => h hboth.1
  have hsplit : compressSplit16 src dst (aiWeightsCompressBound src.length) = .error .oob ↔
      StreamSource src ∧ blocksPerPage < src.length / streamBlockSize := by
    rw [compressSplit16_eq src hdst.ge, if_neg (not_not_intro h)]
    by_cases hfit : blocksPerPage < src.length / streamBlockSize
    · rw [if_pos hfit]
      exact iff_of_true rfl ⟨h, hfit⟩
    · have hroom := (split16Extent_le src).trans (split16Size_le h (Nat.le_of_not_lt hfit))
      rw [aiWeightsCompressBound] at hdst
      rw [if_neg hfit, if_neg (by omega)]
      refine iff_of_false ?_ fun hboth => hfit hboth.2
      split <;> exact nofun
  have hint8 : compressInt8 src dst (aiWeightsCompressBound src.length) = .error .oob ↔
      StreamSource src ∧ blocksPerPage < src.length / streamBlockSize := by
    rw [compressInt8_eq src dst, if_neg (not_not_intro h)]
    by_cases hfit : blocksPerPage < src.length / streamBlockSize
    · rw [if_pos hfit]
      exact iff_of_true rfl ⟨h, hfit⟩
    · have hroom := int8Size_le h (Nat.le_of_not_lt hfit)
      rw [aiWeightsCompressBound] at hdst
      rw [if_neg hfit, if_neg (by omega)]
      refine iff_of_false ?_ fun hboth => hfit hboth.2
      split <;> exact nofun
  unfold aiWeightsCompress
  rw [if_neg (not_streamSource.not.1 (not_not_intro h))]
  cases format with
  | fp16 => exact hsplit
  | bf16 => exact hsplit
  | int8 => exact hint8
  | int4 => exact absurd rfl hformat

end MiniMem
