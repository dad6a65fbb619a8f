import MiniMem.Compressors.Blocks

/-!
# MiniMem.Compressors.BlockClass

Streams of 64-byte blocks behind one table of types, and the block
classifier `block_class.c`, which stores the blocks of its source this way:

```
enc(blocks)  =  le16(n) ++ le16(types) ++ types ++ enc(block₀) ++ enc(block₁) ++ …
```

`compress_int8` writes the same stream, of each block XOR-ed with the block
before it; `rawRows` and its inverse say what is stored for a row.  The
destination is checked once, after everything has been written, and the
tables have one entry for each block of a page.
-/

namespace MiniMem

/-! ## Streams -/

/-- `MINIMEM_BLOCK_SIZE` and `MINIMEM_AI_BLOCK_SIZE`. -/
def streamBlockSize : Nat := 64

/-- `MINIMEM_BLOCKS_PER_PAGE` and `MINIMEM_AI_BLOCKS_PER_PAGE`. -/
def blocksPerPage : Nat := 4096 / streamBlockSize

/-- The blocks of a source. -/
def streamBlocks (src : List UInt8) : List (List UInt8) :=
  chunks streamBlockSize (src.length / streamBlockSize) src

/-- The body of `minimem_block_class_compress` and `compress_int8`, for the given blocks. -/
def compressBlocks (p : RangeBits) (blocks : List (List UInt8)) (srcLen : Nat) (dst : List UInt8)
    (dstCap : Nat) : Except Stop OutCursor := do
  let classes ← classifyBlocks p blocksPerPage 0 blocks
  let headerBytes := (blocks.length * 3 + 7) / 8
  let c ← OutCursor.put ⟨dst, 0⟩ (leBytes 2 blocks.length)
  let c ← c.put (leBytes 2 headerBytes)
  let c ← packTypes (classes.map BlockClass.code) c
  let c ← encodeBlocks p (blocks.zip classes) (c.skip headerBytes)
  if c.out ≥ srcLen ∨ c.out > dstCap then .error .zero else .ok c

/-- The loop of `minimem_block_class_decompress` and `decompress_int8`: `n` blocks from block
`b` on, each turned into its row by `undo` with the row before it. -/
def decompressRows (p : RangeBits) (undo : Option (List UInt8) → List UInt8 → List UInt8)
    (src : List UInt8) (cap base : Nat) :
    Nat → Nat → Nat → Option (List UInt8) → List UInt8 → Except Stop (List UInt8)
  | _, 0, _, _, out => .ok out
  | b, n + 1, inPos, prev, out => do
      let type ← unpackType src base b
      let (inPos, block) ← decodeBlock p src streamBlockSize inPos type
      let row := undo prev block
      let out ← emit cap out row
      decompressRows p undo src cap base (b + 1) n inPos (some row) out

/-- `minimem_block_class_decompress` and `decompress_int8`. -/
def decompressBlocks (p : RangeBits) (undo : Option (List UInt8) → List UInt8 → List UInt8)
    (src : List UInt8) (dstCap : Nat) : Except Stop (List UInt8) :=
  if src.length < 4 then .error .zero
  else do
    let nBlocks := leNat (← readAt src 0 2)
    let headerBytes := leNat (← readAt src 2 2)
    if nBlocks = 0 ∨ nBlocks > blocksPerPage then .error .zero
    else if 4 + headerBytes > src.length then .error .zero
    else if nBlocks * streamBlockSize > dstCap then .error .zero
    else decompressRows p undo src dstCap 4 0 nBlocks (4 + headerBytes) none []

/-! ## The block classifier -/

/-- `bits_for_range`. -/
def bitsForRange (range : Nat) : Nat :=
  if range = 0 then 0
  else if range ≤ 1 then 1
  else if range ≤ 3 then 2
  else if range ≤ 7 then 3
  else if range ≤ 15 then 4
  else if range ≤ 31 then 5
  else if range ≤ 63 then 6
  else if range ≤ 127 then 7
  else 8

/-- The widths of `block_class.c`. -/
def blockClassBits : RangeBits where
  bits := bitsForRange
  lt_two_pow := by decide +kernel

/-- `minimem_classify_block`. -/
def minimemClassifyBlock (block : List UInt8) : Nat := (classifyBlock blockClassBits block).code

/-- `minimem_block_class_compress`. -/
def blockClassCompress (src dst : List UInt8) (dstCap : Nat) : Except Stop OutCursor :=
  if src.length = 0 ∨ src.length % streamBlockSize ≠ 0 then .error .zero
  else compressBlocks blockClassBits (streamBlocks src) src.length dst dstCap

/-- `minimem_block_class_decompress`. -/
def blockClassDecompress (src : List UInt8) (dstCap : Nat) : Except Stop (List UInt8) :=
  decompressBlocks blockClassBits (fun _ block => block) src dstCap

/-! ## What a stream holds -/

/-- The bytes of a stream of blocks. -/
def streamBytes (p : RangeBits) (blocks : List (List UInt8)) : List UInt8 :=
  leBytes 2 blocks.length ++ (leBytes 2 ((blocks.length * 3 + 7) / 8) ++
    (typeBytes p blocks ++ blocksBytes p blocks))

/-- The size of a stream of blocks. -/
def streamSize (p : RangeBits) (blocks : List (List UInt8)) : Nat :=
  4 + (3 * blocks.length + 7) / 8 +
    (blocks.map fun block => blockSize p block (classifyBlock p block)).sum

theorem length_blocksBytes (p : RangeBits) (blocks : List (List UInt8)) :
    (blocksBytes p blocks).length =
      (blocks.map fun block => blockSize p block (classifyBlock p block)).sum := by
  simp [blocksBytes, List.length_flatMap, length_blockBytes]

theorem length_streamBytes (p : RangeBits) (blocks : List (List UInt8)) :
    (streamBytes p blocks).length = streamSize p blocks := by
  simp only [streamBytes, streamSize, List.length_append, length_leBytes, length_typeBytes,
    length_blocksBytes]
  omega

theorem sum_map_le {α : Type} (f : α → Nat) (k : Nat) {l : List α} (h : ∀ x ∈ l, f x ≤ k) :
    (l.map f).sum ≤ l.length * k := by
  induction l with
  | nil => simp
  | cons x l ih =>
      have hx := h x List.mem_cons_self
      have hl := ih fun y hy => h y (List.mem_cons_of_mem x hy)
      rw [List.map_cons, List.sum_cons, List.length_cons, Nat.succ_mul]
      omega

/-- A stream of whole blocks is larger than the blocks by its tables at most. -/
theorem streamSize_le {p : RangeBits} {blocks : List (List UInt8)}
    (hlen : ∀ block ∈ blocks, block.length = streamBlockSize) :
    streamSize p blocks ≤ 4 + (3 * blocks.length + 7) / 8 + blocks.length * streamBlockSize := by
  refine Nat.add_le_add_left (sum_map_le _ _ fun block hb => ?_) _
  have hblock := hlen block hb
  have hsize : streamBlockSize = 64 := rfl
  rw [← hblock]
  exact blockSize_le (by omega) (classifiedAs_classifyBlock p block)

/-- The check at the end of an encoder, when everything has been written. -/
def checkSize (srcLen dstCap : Nat) (c : OutCursor) : Except Stop OutCursor :=
  if c.out ≥ srcLen ∨ c.out > dstCap then .error .zero else .ok c

/-- **Stream encoder**: it writes the stream, whatever the capacity, and checks the size then. -/
theorem compressBlocks_eq {p : RangeBits} {blocks : List (List UInt8)} (hne : blocks ≠ [])
    (hlen : ∀ block ∈ blocks, block.length ≤ 64) (srcLen : Nat) (dst : List UInt8) (dstCap : Nat) :
    compressBlocks p blocks srcLen dst dstCap =
      if blocks.length ≤ blocksPerPage then
        OutCursor.put ⟨dst, 0⟩ (streamBytes p blocks) >>= checkSize srcLen dstCap
      else .error .oob := by
  unfold compressBlocks
  rw [classifyBlocks_eq, Nat.zero_add]
  by_cases hfit : blocks.length ≤ blocksPerPage
  · rw [if_pos (.inr hfit), if_pos hfit, ok_bind, streamBytes, OutCursor.put_append, bind_assoc]
    refine bind_congr fun c => ?_
    rw [OutCursor.put_append, bind_assoc]
    refine bind_congr fun c => ?_
    have hskip := @packTypes_skip _ c (codes_lt p blocks) (by simpa using hne)
    rw [List.length_map] at hskip
    rw [OutCursor.put_append, typeBytes, ← hskip, bind_assoc, bind_assoc, List.map_map]
    refine bind_congr fun c => ?_
    rw [ok_bind, encodeBlocks_eq hlen]
    rfl
  · rw [if_neg (by rintro (h | h); exacts [hne h, hfit h]), if_neg hfit]
    rfl

/-- The encoder on a destination of any size: within its tables it goes outside the
destination exactly when the stream does not fit there. -/
theorem compressBlocks_cases {p : RangeBits} {blocks : List (List UInt8)} (hne : blocks ≠ [])
    (hlen : ∀ block ∈ blocks, block.length ≤ 64) (hfit : blocks.length ≤ blocksPerPage)
    (srcLen : Nat) (dst : List UInt8) (dstCap : Nat) :
    compressBlocks p blocks srcLen dst dstCap =
      if dst.length < streamSize p blocks then .error .oob
      else if streamSize p blocks ≥ srcLen ∨ streamSize p blocks > dstCap then .error .zero
      else .ok ⟨streamBytes p blocks ++ dst.drop (streamSize p blocks), streamSize p blocks⟩ := by
  rw [compressBlocks_eq hne hlen, if_pos hfit]
  by_cases hroom : dst.length < streamSize p blocks
  · have hbytes : streamBytes p blocks ≠ [] := by
      rw [← List.length_pos_iff, length_streamBytes, streamSize]
      omega
    rw [if_pos hroom, OutCursor.put_oob hbytes (by simpa [length_streamBytes] using hroom)]
    rfl
  · rw [if_neg hroom, OutCursor.put_ok (by simpa [length_streamBytes] using hroom)]
    simp only [bind, Except.bind, checkSize, length_streamBytes, Nat.zero_add, List.take_zero,
      List.nil_append]

/-! ## Reading a stream back -/

/-- What is stored for each row, after the row before the first. -/
def rawRows (step : Option (List UInt8) → List UInt8 → List UInt8) :
    Option (List UInt8) → List (List UInt8) → List (List UInt8)
  | _, [] => []
  | prev, row :: rows => step prev row :: rawRows step (some row) rows

@[simp] theorem length_rawRows (step : Option (List UInt8) → List UInt8 → List UInt8)
    (prev : Option (List UInt8)) (rows : List (List UInt8)) :
    (rawRows step prev rows).length = rows.length := by
  induction rows generalizing prev with
  | nil => rfl
  | cons row rows ih => simp [rawRows, ih]

theorem rawRows_id (prev : Option (List UInt8)) (rows : List (List UInt8)) :
    rawRows (fun _ row => row) prev rows = rows := by
  induction rows generalizing prev with
  | nil => rfl
  | cons row rows ih => rw [rawRows, ih]

/-- `undo` gets a row back from what `step` stores for it, at the size of a block. -/
structure RowCoding (step undo : Option (List UInt8) → List UInt8 → List UInt8) : Prop where
  length_step : ∀ prev row, (∀ q ∈ prev, List.length q = streamBlockSize) →
    row.length = streamBlockSize → (step prev row).length = streamBlockSize
  undo_step : ∀ prev row, (∀ q ∈ prev, List.length q = streamBlockSize) →
    row.length = streamBlockSize → undo prev (step prev row) = row

/-- Blocks that are stored as they are. -/
theorem rowCoding_id : RowCoding (fun _ row => row) (fun _ block => block) :=
  ⟨fun _ _ _ h => h, fun _ _ _ _ => rfl⟩

section RowCoding

variable {step undo : Option (List UInt8) → List UInt8 → List UInt8}

theorem RowCoding.length_mem_rawRows (hcoding : RowCoding step undo) {prev : Option (List UInt8)}
    {rows : List (List UInt8)} (hprev : ∀ q ∈ prev, List.length q = streamBlockSize)
    (hrows : ∀ row ∈ rows, row.length = streamBlockSize) :
    ∀ raw ∈ rawRows step prev rows, raw.length = streamBlockSize := by
  induction rows generalizing prev with
  | nil => simp [rawRows]
  | cons row rows ih =>
      have hrow : row.length = streamBlockSize := hrows row List.mem_cons_self
      rw [rawRows]
      refine List.forall_mem_cons.2 ⟨hcoding.length_step prev row hprev hrow, ?_⟩
      exact ih (by simpa using hrow) fun r hr => hrows r (List.mem_cons_of_mem row hr)

/-- The decoder's loop reads the rows from the middle of its source. -/
theorem RowCoding.decompressRows_append (hcoding : RowCoding step undo) {p : RangeBits}
    {src post : List UInt8} {cap base : Nat} {rows : List (List UInt8)}
    {prev : Option (List UInt8)} (pre out : List UInt8) (b : Nat)
    (hprev : ∀ q ∈ prev, List.length q = streamBlockSize)
    (hrows : ∀ row ∈ rows, row.length = streamBlockSize)
    (htypes : ∀ i raw, (rawRows step prev rows)[i]? = some raw →
      unpackType src base (b + i) = .ok (classifyBlock p raw).code)
    (hsrc : src = pre ++ (blocksBytes p (rawRows step prev rows) ++ post))
    (hcap : out.length + rows.length * streamBlockSize ≤ cap) :
    decompressRows p undo src cap base b rows.length pre.length prev out =
      .ok (out ++ rows.flatten) := by
  induction rows generalizing prev pre out b with
  | nil => simp [decompressRows]
  | cons row rows ih =>
      have hrow : row.length = streamBlockSize := hrows row List.mem_cons_self
      have hraw := hcoding.length_step prev row hprev hrow
      rw [List.length_cons, Nat.succ_mul] at hcap
      have htype := htypes 0 (step prev row) (by simp [rawRows])
      have hblock := decodeBlock_append pre
        (blocksBytes p (rawRows step (some row) rows) ++ post)
        (classifiedAs_classifyBlock p (step prev row))
      have hpre : pre ++ (blockBytes p (step prev row) (classifyBlock p (step prev row)) ++
          (blocksBytes p (rawRows step (some row) rows) ++ post)) = src := by
        rw [hsrc, rawRows, blocksBytes_cons, List.append_assoc]
      rw [hpre, hraw] at hblock
      have hnext := @ih (some row)
        (pre ++ blockBytes p (step prev row) (classifyBlock p (step prev row)))
        (out ++ row) (b + 1) (by simpa using hrow)
        (fun r hr => hrows r (List.mem_cons_of_mem row hr))
        (fun i raw hi => by
          rw [Nat.add_assoc, Nat.add_comm 1]
          exact htypes (i + 1) raw (by simpa [rawRows] using hi))
        (by rw [← hpre, List.append_assoc])
        (by rw [List.length_append, hrow]; omega)
      rw [List.length_append, List.append_assoc] at hnext
      rw [Nat.add_zero] at htype
      rw [List.length_cons, decompressRows, htype, ok_bind, hblock, ok_bind]
      dsimp only
      rw [hcoding.undo_step prev row hprev hrow, emit_ok (by rw [hrow]; omega), ok_bind, hnext]
      simp

/-- **Stream decoder**: it reads the rows back from the stream of what is stored for them. -/
theorem RowCoding.decompressBlocks_streamBytes (hcoding : RowCoding step undo) {p : RangeBits}
    {rows : List (List UInt8)} {cap : Nat} (hne : rows ≠ [])
    (hlen : rows.length ≤ blocksPerPage) (hrows : ∀ row ∈ rows, row.length = streamBlockSize)
    (hcap : rows.length * streamBlockSize ≤ cap) :
    decompressBlocks p undo (streamBytes p (rawRows step none rows)) cap = .ok rows.flatten := by
  have hpos : 0 < rows.length := List.length_pos_iff.2 hne
  have hpage : blocksPerPage = 64 := rfl
  have hn : leNat (leBytes 2 rows.length) = rows.length := by
    rw [leNat_leBytes, Nat.mod_eq_of_lt (by omega)]
  have hheader : leNat (leBytes 2 ((rows.length * 3 + 7) / 8)) = (rows.length * 3 + 7) / 8 := by
    rw [leNat_leBytes, Nat.mod_eq_of_lt (by omega)]
  have htypesLen : (typeBytes p (rawRows step none rows)).length = (rows.length * 3 + 7) / 8 := by
    rw [length_typeBytes, length_rawRows, Nat.mul_comm]
  have hsrc : streamBytes p (rawRows step none rows) =
      (leBytes 2 rows.length ++ leBytes 2 ((rows.length * 3 + 7) / 8)) ++
        (typeBytes p (rawRows step none rows) ++ blocksBytes p (rawRows step none rows)) := by
    rw [streamBytes, length_rawRows, List.append_assoc]
  have hread₁ : readAt (streamBytes p (rawRows step none rows)) 0 2 =
      .ok (leBytes 2 rows.length) := by
    rw [hsrc, List.append_assoc]
    exact readAt_append [] _ _ rfl (length_leBytes 2 _)
  have hread₂ : readAt (streamBytes p (rawRows step none rows)) 2 2 =
      .ok (leBytes 2 ((rows.length * 3 + 7) / 8)) := by
    rw [hsrc, List.append_assoc]
    exact readAt_append _ _ _ (length_leBytes 2 _) (length_leBytes 2 _)
  have htypes : ∀ i raw, (rawRows step none rows)[i]? = some raw →
      unpackType (streamBytes p (rawRows step none rows)) 4 (0 + i) =
        .ok (classifyBlock p raw).code := by
    intro i raw hi
    obtain ⟨hlt, hraw⟩ := List.getElem?_eq_some_iff.1 hi
    have hfield := readField_fieldBytes (w := 3) (by decide) (by decide)
      (codes_lt p (rawRows step none rows))
      (leBytes 2 rows.length ++ leBytes 2 ((rows.length * 3 + 7) / 8))
      (blocksBytes p (rawRows step none rows)) (i := i) (by simpa using hlt)
    have hbase : (leBytes 2 rows.length ++ leBytes 2 ((rows.length * 3 + 7) / 8)).length = 4 := by
      simp
    rw [List.getElem_map, hraw, hbase] at hfield
    rw [hsrc, unpackType, Nat.zero_add, Nat.mul_comm i]
    exact hfield
  have hloop := @RowCoding.decompressRows_append _ _ hcoding p _ [] cap 4 rows none
    ((leBytes 2 rows.length ++ leBytes 2 ((rows.length * 3 + 7) / 8)) ++
      typeBytes p (rawRows step none rows)) [] 0 (by simp) hrows htypes
    (by rw [hsrc, List.append_nil]; exact (List.append_assoc _ _ _).symm) (by simpa using hcap)
  simp only [List.length_append, length_leBytes, htypesLen, List.nil_append] at hloop
  have hsize : (streamBytes p (rawRows step none rows)).length ≥
      4 + (rows.length * 3 + 7) / 8 := by
    rw [length_streamBytes, streamSize, length_rawRows]
    omega
  rw [decompressBlocks, if_neg (by omega), hread₁, ok_bind, hread₂, ok_bind, hn, hheader,
    if_neg (by omega), if_neg (by omega), if_neg (by omega)]
  exact hloop

end RowCoding

/-! ## Sources -/

/-- What the encoders of streams admit. -/
def StreamSource (src : List UInt8) : Prop :=
  src.length ≠ 0 ∧ src.length % streamBlockSize = 0

instance (src : List UInt8) : Decidable (StreamSource src) := inferInstanceAs (Decidable (_ ∧ _))

theorem not_streamSource {src : List UInt8} :
    ¬ StreamSource src ↔ src.length = 0 ∨ src.length % streamBlockSize ≠ 0 := by
  unfold StreamSource
  omega

theorem length_streamBlocks (src : List UInt8) :
    (streamBlocks src).length = src.length / streamBlockSize :=
  length_chunks _ _ _

namespace StreamSource

variable {src : List UInt8} (h : StreamSource src)
include h

theorem mul_eq : src.length / streamBlockSize * streamBlockSize = src.length :=
  Nat.div_mul_cancel (Nat.dvd_of_mod_eq_zero h.2)

theorem streamBlocks_ne_nil : streamBlocks src ≠ [] := by
  have hmul := h.mul_eq
  have hpos := h.1
  rw [← List.length_pos_iff, length_streamBlocks]
  apply Nat.pos_of_ne_zero
  intro hzero
  rw [hzero] at hmul
  omega

theorem length_mem {block : List UInt8} (hb : block ∈ streamBlocks src) :
    block.length = streamBlockSize :=
  length_mem_chunks h.mul_eq.symm hb

theorem flatten_streamBlocks : (streamBlocks src).flatten = src :=
  flatten_chunks _ _ h.mul_eq.symm

end StreamSource

section RowCoding

variable {step undo : Option (List UInt8) → List UInt8 → List UInt8}

/-- Everything the encoder of a stream can do with a source. -/
theorem RowCoding.compressBlocks_rows (hcoding : RowCoding step undo) (p : RangeBits)
    (src dst : List UInt8) (dstCap : Nat) {raws : List (List UInt8)}
    (hraws : raws = rawRows step none (streamBlocks src)) :
    (if src.length = 0 ∨ src.length % streamBlockSize ≠ 0 then .error .zero
      else compressBlocks p raws src.length dst dstCap) =
      if ¬ StreamSource src then .error .zero
      else if blocksPerPage < src.length / streamBlockSize then .error .oob
      else if dst.length < streamSize p raws then .error .oob
      else if streamSize p raws ≥ src.length ∨ streamSize p raws > dstCap then .error .zero
      else .ok ⟨streamBytes p raws ++ dst.drop (streamSize p raws), streamSize p raws⟩ := by
  by_cases h : StreamSource src
  · have hnum : raws.length = src.length / streamBlockSize := by
      rw [hraws, length_rawRows, length_streamBlocks]
    have hne : raws ≠ [] := by
      rw [← List.length_pos_iff, hnum, ← length_streamBlocks, List.length_pos_iff]
      exact h.streamBlocks_ne_nil
    have hlen : ∀ raw ∈ raws, raw.length ≤ 64 := fun raw hraw =>
      Nat.le_of_eq (hcoding.length_mem_rawRows (by simp) (fun _ hb => h.length_mem hb) raw
        (hraws ▸ hraw))
    rw [if_neg (not_streamSource.not.1 (not_not_intro h)), if_neg (not_not_intro h)]
    by_cases hfit : blocksPerPage < src.length / streamBlockSize
    · rw [if_pos hfit, compressBlocks_eq hne hlen, if_neg (by omega)]
    · rw [if_neg hfit, compressBlocks_cases hne hlen (by omega)]
  · rw [if_pos (not_streamSource.1 h), if_pos h]

/-- **Round trip**: what the encoder of a stream leaves below its result reads back. -/
theorem RowCoding.decompressBlocks_compressBlocks (hcoding : RowCoding step undo) {p : RangeBits}
    {src dst : List UInt8} {c : OutCursor} {dstCap cap : Nat} {raws : List (List UInt8)}
    (hraws : raws = rawRows step none (streamBlocks src))
    (h : (if src.length = 0 ∨ src.length % streamBlockSize ≠ 0 then .error .zero
      else compressBlocks p raws src.length dst dstCap) = Except.ok c) (hcap : src.length ≤ cap) :
    decompressBlocks p undo c.bytes cap = .ok src := by
  rw [hcoding.compressBlocks_rows p src dst dstCap hraws] at h
  by_cases hsrc : StreamSource src
  · rw [if_neg (not_not_intro hsrc)] at h
    split at h
    · cases h
    next hfit =>
      split at h
      · cases h
      split at h
      · cases h
      injection h with h
      have hbytes : c.bytes = streamBytes p (rawRows step none (streamBlocks src)) := by
        rw [← h, OutCursor.bytes, ← hraws]
        exact take_append_of_length (length_streamBytes _ _)
      have hread := @RowCoding.decompressBlocks_streamBytes _ _ hcoding p _ cap
        hsrc.streamBlocks_ne_nil (by rw [length_streamBlocks]; omega)
        (fun row hrow => hsrc.length_mem hrow)
        (by rw [length_streamBlocks, hsrc.mul_eq]; exact hcap)
      rw [hbytes, hread, hsrc.flatten_streamBlocks]
  · rw [if_pos hsrc] at h
    cases h

end RowCoding

/-- The size of what `minimem_block_class_compress` stores for a source. -/
def blockClassSize (src : List UInt8) : Nat := streamSize blockClassBits (streamBlocks src)

theorem blockClassSize_pos (src : List UInt8) : 0 < blockClassSize src := by
  unfold blockClassSize streamSize
  omega

theorem StreamSource.streamSize_le {p : RangeBits} {src : List UInt8} (h : StreamSource src)
    {raws : List (List UInt8)} (hnum : raws.length = src.length / streamBlockSize)
    (hraws : ∀ raw ∈ raws, raw.length = streamBlockSize)
    (hfit : src.length / streamBlockSize ≤ blocksPerPage) :
    streamSize p raws ≤ src.length + 28 := by
  have hle := MiniMem.streamSize_le (p := p) hraws
  have hpage : blocksPerPage = 64 := rfl
  rw [hnum, h.mul_eq] at hle
  omega

/-- Everything `minimem_block_class_compress` can do. -/
theorem blockClassCompress_eq (src dst : List UInt8) (dstCap : Nat) :
    blockClassCompress src dst dstCap =
      if ¬ StreamSource src then .error .zero
      else if blocksPerPage < src.length / streamBlockSize then .error .oob
      else if dst.length < blockClassSize src then .error .oob
      else if blockClassSize src ≥ src.length ∨ blockClassSize src > dstCap then .error .zero
      else .ok ⟨streamBytes blockClassBits (streamBlocks src) ++ dst.drop (blockClassSize src),
        blockClassSize src⟩ :=
  rowCoding_id.compressBlocks_rows blockClassBits src dst dstCap (rawRows_id _ _).symm

/-- What the block classifier stores, it reads back. -/
theorem blockClassDecompress_blockClassCompress {src dst : List UInt8} {c : OutCursor}
    {dstCap cap : Nat} (h : blockClassCompress src dst dstCap = .ok c) (hcap : src.length ≤ cap) :
    blockClassDecompress c.bytes cap = .ok src :=
  rowCoding_id.decompressBlocks_compressBlocks (rawRows_id _ _).symm h hcap

/-! ## What the decoder yields -/

/-- Each pass of the decoder's loop yields one row. -/
theorem length_of_decompressRows {p : RangeBits}
    {undo : Option (List UInt8) → List UInt8 → List UInt8} {src out out' : List UInt8}
    {cap base n b inPos : Nat} {prev : Option (List UInt8)}
    (hundo : ∀ prev row, (∀ q, prev = some q → q.length = streamBlockSize) →
      row.length = streamBlockSize → (undo prev row).length = streamBlockSize)
    (hprev : ∀ q, prev = some q → q.length = streamBlockSize)
    (h : decompressRows p undo src cap base b n inPos prev out = .ok out') :
    out'.length = out.length + n * streamBlockSize := by
  induction n generalizing b inPos prev out with
  | zero =>
      injection h with h
      rw [← h, Nat.zero_mul, Nat.add_zero]
  | succ n ih =>
      rw [decompressRows] at h
      obtain ⟨type, -, h⟩ := bind_eq_ok.1 h
      obtain ⟨⟨pos, block⟩, hdecode, h⟩ := bind_eq_ok.1 h
      obtain ⟨next, hemit, h⟩ := bind_eq_ok.1 h
      have hrow := hundo prev block hprev (length_of_decodeBlock hdecode)
      have hnext : next.length = out.length + streamBlockSize := by
        rw [length_of_emit hemit, hrow]
      have hlast := ih (by rintro q ⟨⟩; exact hrow) h
      rw [hlast, hnext, Nat.succ_mul]
      omega

/-- The decoder yields a page at most. -/
theorem length_of_decompressBlocks {p : RangeBits}
    {undo : Option (List UInt8) → List UInt8 → List UInt8} {src out : List UInt8} {dstCap : Nat}
    (hundo : ∀ prev row, (∀ q, prev = some q → q.length = streamBlockSize) →
      row.length = streamBlockSize → (undo prev row).length = streamBlockSize)
    (h : decompressBlocks p undo src dstCap = .ok out) :
    out.length ≤ blocksPerPage * streamBlockSize := by
  unfold decompressBlocks at h
  split at h
  · cases h
  obtain ⟨count, -, h⟩ := bind_eq_ok.1 h
  obtain ⟨header, -, h⟩ := bind_eq_ok.1 h
  dsimp only at h
  split at h
  · cases h
  next hcount =>
    split at h
    · cases h
    split at h
    · cases h
    rw [length_of_decompressRows hundo (fun _ hq => by cases hq) h, List.length_nil,
      Nat.zero_add]
    exact Nat.mul_le_mul_right _ (by omega)

end MiniMem
