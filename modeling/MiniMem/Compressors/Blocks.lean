import MiniMem.BitFields

/-!
# MiniMem.Compressors.Blocks

The block codec that `block_class.c` and `ai_weights.c` share.  A block of
up to 64 bytes is classified by its contents and stored in the form of its
class:

```
enc(zero)        =  ε
enc(uniform v)   =  v
enc(sparse)      =  bitmap ++ the non-zero bytes
enc(range m r)   =  m ++ r ++ the distances to m, bits(r) each
enc(dense)       =  the block
```

The classes of all blocks go in front, three bits each.  The two sources
differ in the widths they choose for a range (`bits_for_range` and
`bits_needed`); `RangeBits` is such a choice.

A destination is the memory that the caller passes, with whatever it holds:
bytes that an encoder does not write stay as they were.
-/

namespace MiniMem

/-! ## Destinations -/

/-- The destination memory and the offset of the source's `out` in it. -/
structure OutCursor where
  dst : List UInt8
  out : Nat
  deriving DecidableEq, Repr

/-- `*out++ = b` for each of the bytes, or a `memcpy` of all of them. -/
def OutCursor.put (c : OutCursor) : List UInt8 → Except Stop OutCursor
  | [] => .ok c
  | b :: bs =>
      if c.out < c.dst.length then OutCursor.put ⟨c.dst.set c.out b, c.out + 1⟩ bs
      else .error .oob

/-- `out += n`, over memory that is left as it is. -/
def OutCursor.skip (c : OutCursor) (n : Nat) : OutCursor := { c with out := c.out + n }

/-- The bytes up to `out`. -/
def OutCursor.bytes (c : OutCursor) : List UInt8 := c.dst.take c.out

theorem ok_bind {α β : Type} (a : α) (f : α → Except Stop β) : (Except.ok a >>= f) = f a := rfl

/-- Writing two strings in a row is writing both at once. -/
theorem OutCursor.put_append (c : OutCursor) (xs ys : List UInt8) :
    c.put (xs ++ ys) = (c.put xs >>= fun c => c.put ys) := by
  induction xs generalizing c with
  | nil => rfl
  | cons x xs ih =>
      simp only [List.cons_append, OutCursor.put]
      by_cases h : c.out < c.dst.length
      · rw [if_pos h, if_pos h]
        exact ih _
      · rw [if_neg h, if_neg h]
        rfl

/-- Bytes that fit go in behind `out`, and the memory behind them stays. -/
theorem OutCursor.put_ok {c : OutCursor} {bs : List UInt8} (h : c.out + bs.length ≤ c.dst.length) :
    c.put bs = .ok ⟨c.dst.take c.out ++ (bs ++ c.dst.drop (c.out + bs.length)),
      c.out + bs.length⟩ := by
  induction bs generalizing c with
  | nil => simp [OutCursor.put]
  | cons b bs ih =>
      rw [List.length_cons] at h
      have hlt : c.out < c.dst.length := by omega
      have hnext := @ih ⟨c.dst.set c.out b, c.out + 1⟩ (by simp; omega)
      have htake : (c.dst.set c.out b).take (c.out + 1) = c.dst.take c.out ++ [b] := by
        rw [List.take_set, List.take_add_one, List.getElem?_eq_getElem hlt]
        rw [List.set_append_right _ _ (by simp)]
        simp [Nat.min_eq_left (Nat.le_of_lt hlt)]
      have hdrop : (c.dst.set c.out b).drop (c.out + 1 + bs.length) =
          c.dst.drop (c.out + (bs.length + 1)) := by
        rw [List.drop_set_of_lt (by omega)]
        congr 1
        omega
      rw [OutCursor.put, if_pos hlt, hnext]
      dsimp only
      rw [htake, hdrop]
      simp [Nat.add_comm, Nat.add_left_comm]

/-- Bytes written over others of the same length. -/
theorem OutCursor.put_mid (pre post : List UInt8) {old bs : List UInt8}
    (h : old.length = bs.length) :
    OutCursor.put ⟨pre ++ (old ++ post), pre.length⟩ bs =
      .ok ⟨pre ++ (bs ++ post), pre.length + bs.length⟩ := by
  have hput := @OutCursor.put_ok ⟨pre ++ (old ++ post), pre.length⟩ bs (by simp; omega)
  have hdrop : (pre ++ (old ++ post)).drop (pre.length + bs.length) = post := by
    rw [← List.append_assoc]
    exact drop_append_of_length (by simp [h])
  dsimp only at hput
  rw [take_append_of_length rfl, hdrop] at hput
  exact hput

/-- Bytes that do not fit are an access outside the destination. -/
theorem OutCursor.put_oob {c : OutCursor} {bs : List UInt8} (hne : bs ≠ [])
    (h : c.dst.length < c.out + bs.length) : c.put bs = .error .oob := by
  induction bs generalizing c with
  | nil => exact absurd rfl hne
  | cons b bs ih =>
      rw [List.length_cons] at h
      rw [OutCursor.put]
      split
      · next hlt =>
          cases hbs : bs with
          | nil =>
              rw [hbs] at h
              simp at h
              omega
          | cons d ds =>
              rw [← hbs]
              exact ih (by simp [hbs]) (by simp; omega)
      · rfl

/-! ## Classes -/

/-- A choice of width for the distances of a block to its least byte; eight bits
always do. -/
structure RangeBits where
  bits : Nat → Nat
  lt_two_pow : ∀ r < 256, r < 2 ^ bits r

/-- `MINIMEM_BLOCK_TYPE_*` and `BT_*`, each with the table entries that the
classifier fills for it. -/
inductive BlockClass where
  | zero
  | sparse
  | uniform (val : UInt8)
  | smallRange (min range : UInt8)
  | dense
  deriving DecidableEq, Repr

/-- The three-bit code of a class. -/
def BlockClass.code : BlockClass → Nat
  | .zero => 0
  | .sparse => 1
  | .uniform _ => 2
  | .smallRange _ _ => 3
  | .dense => 4

/-- A class fits three bits. -/
theorem BlockClass.code_lt (cls : BlockClass) : cls.code < 2 ^ 3 := by
  cases cls <;> simp [code]

/-- `MINIMEM_BLOCK_SPARSE_THRESHOLD`. -/
def sparseThreshold : Nat := 16

/-- `MINIMEM_BLOCK_RANGE_MAX_BITS`. -/
def rangeMaxBits : Nat := 6

/-- The bytes of a block that are not zero, as the classifier counts them. -/
def nzCount (block : List UInt8) : Nat := block.countP (· != 0)

/-- `min_val` after the scan of a block. -/
def minVal (block : List UInt8) : UInt8 := block.foldl (fun m v => if v < m then v else m) 0xFF

/-- `max_val` after the scan of a block. -/
def maxVal (block : List UInt8) : UInt8 := block.foldl (fun m v => if v > m then v else m) 0

/-- `classify_block_impl` and `classify_byte_block`. -/
def classifyBlock (p : RangeBits) (block : List UInt8) : BlockClass :=
  let first := block.headD 0
  if block.all (· == 0) then .zero
  else if block.all (· == first) then .uniform first
  else if nzCount block ≤ sparseThreshold ∧ nzCount block < block.length then .sparse
  else
    let range := maxVal block - minVal block
    let bpv := p.bits range.toNat
    if bpv > 0 ∧ bpv ≤ rangeMaxBits then .smallRange (minVal block) range
    else .dense

/-! ## One block -/

/-- The non-zero bytes of a sparse block, one after the other. -/
def putNonzero : List UInt8 → OutCursor → Except Stop OutCursor
  | [], c => .ok c
  | b :: bs, c => do
      let c ← if b != 0 then c.put [b] else .ok c
      putNonzero bs c

/-- The bits of a sparse block's bitmap. -/
def nonzeroFlags (block : List UInt8) : List Nat := block.map fun b => if b != 0 then 1 else 0

/-- The distances of a block to its least byte. -/
def rangeDeltas (min : UInt8) (block : List UInt8) : List Nat := block.map fun b => (b - min).toNat

/-- `encode_byte_block`, and the `switch` of `minimem_block_class_compress`; the bitmap and
the packed distances go through local arrays of 8 and 64 bytes. -/
def encodeBlock (p : RangeBits) (block : List UInt8) (cls : BlockClass) (c : OutCursor) :
    Except Stop OutCursor :=
  match cls with
  | .zero => .ok c
  | .uniform val => c.put [val]
  | .sparse => do
      let bitmap ← packBits 1 (nonzeroFlags block) 8
      let bitmap ← readAt bitmap 0 ((block.length + 7) / 8)
      let c ← c.put bitmap
      putNonzero block c
  | .smallRange min range => do
      let c ← c.put [min]
      let c ← c.put [range]
      let bpv := p.bits range.toNat
      if bpv = 0 then .ok c
      else do
        let packed ← packBits bpv (rangeDeltas min block) 64
        let packed ← readAt packed 0 ((block.length * bpv + 7) / 8)
        c.put packed
  | .dense => c.put block

/-- The decoder's walk over a bitmap: `n` bytes from byte `i` on. -/
def takeSparse (src bitmap : List UInt8) : Nat → Nat → Nat → Except Stop (Nat × List UInt8)
  | inPos, _, 0 => .ok (inPos, [])
  | inPos, i, n + 1 => do
      if ← bitAt bitmap i then
        if inPos ≥ src.length then .error .zero
        else do
          let b ← readByte src inPos
          let (inPos, bs) ← takeSparse src bitmap (inPos + 1) (i + 1) n
          .ok (inPos, b :: bs)
      else do
        let (inPos, bs) ← takeSparse src bitmap inPos (i + 1) n
        .ok (inPos, 0 :: bs)

/-- The decoder's walk over packed distances: `n` bytes from byte `i` on. -/
def takeRange (packed : List UInt8) (bpv : Nat) (min : UInt8) : Nat → Nat → Except Stop (List UInt8)
  | _, 0 => .ok []
  | i, n + 1 => do
      let delta ← readBits packed (bpv * i) bpv
      let bs ← takeRange packed bpv min (i + 1) n
      .ok ((min + UInt8.ofNat delta) :: bs)

/-- The `switch` of the decoders for a block of `len` bytes: the new `in`, and the block. -/
def decodeBlock (p : RangeBits) (src : List UInt8) (len inPos type : Nat) :
    Except Stop (Nat × List UInt8) :=
  match type with
  | 0 => .ok (inPos, List.replicate len 0)
  | 2 =>
      if inPos ≥ src.length then .error .zero
      else do
        let val ← readByte src inPos
        .ok (inPos + 1, List.replicate len val)
  | 1 =>
      let bitmapBytes := (len + 7) / 8
      if inPos + bitmapBytes > src.length then .error .zero
      else do
        let bitmap ← readAt src inPos bitmapBytes
        takeSparse src bitmap (inPos + bitmapBytes) 0 len
  | 3 =>
      if inPos + 2 > src.length then .error .zero
      else do
        let min ← readByte src inPos
        let range ← readByte src (inPos + 1)
        let inPos := inPos + 2
        let bpv := p.bits range.toNat
        if bpv = 0 then .ok (inPos, List.replicate len min)
        else
          let packedBytes := (len * bpv + 7) / 8
          if inPos + packedBytes > src.length then .error .zero
          else do
            let packed ← readAt src inPos packedBytes
            let block ← takeRange packed bpv min 0 len
            .ok (inPos + packedBytes, block)
  | 4 =>
      if inPos + len > src.length then .error .zero
      else do
        let block ← readAt src inPos len
        .ok (inPos + len, block)
  | _ => .error .zero

/-! ## Type tables -/

/-- The classes of the blocks from block `b` on, stored in tables of `size` entries. -/
def classifyBlocks (p : RangeBits) (size : Nat) :
    Nat → List (List UInt8) → Except Stop (List BlockClass)
  | _, [] => .ok []
  | b, block :: blocks =>
      if b < size then do
        let classes ← classifyBlocks p size (b + 1) blocks
        .ok (classifyBlock p block :: classes)
      else .error .oob

/-- `pack_types` and `pack_bt`, into the destination at `out`. -/
def packTypes (codes : List Nat) (c : OutCursor) : Except Stop OutCursor := do
  let dst ← writeAt c.dst c.out (List.replicate ((codes.length * 3 + 7) / 8) 0)
  let dst ← packLoop (fun dst bitPos code => orField 3 dst c.out bitPos (code &&& 7)) 3 0 codes dst
  .ok { c with dst := dst }

/-- `unpack_type` and `unpack_bt`, on the packed types at `base`. -/
def unpackType (src : List UInt8) (base index : Nat) : Except Stop Nat :=
  readField 3 src base (index * 3)

/-- The blocks with their classes, encoded one after the other. -/
def encodeBlocks (p : RangeBits) :
    List (List UInt8 × BlockClass) → OutCursor → Except Stop OutCursor
  | [], c => .ok c
  | (block, cls) :: blocks, c => do
      let c ← encodeBlock p block cls c
      encodeBlocks p blocks c

/-! ## What the classifier knows -/

/-- The running minimum is below its start and below every byte. -/
theorem minVal_le_foldl (block : List UInt8) (m : UInt8) :
    block.foldl (fun m v => if v < m then v else m) m ≤ m ∧
      ∀ b ∈ block, block.foldl (fun m v => if v < m then v else m) m ≤ b := by
  induction block generalizing m with
  | nil => simp
  | cons v block ih =>
      obtain ⟨hm, hb⟩ := ih (if v < m then v else m)
      rw [List.foldl_cons]
      refine ⟨?_, List.forall_mem_cons.2 ⟨?_, hb⟩⟩
      · refine UInt8.le_trans hm ?_
        split
        · next h => exact UInt8.le_of_lt h
        · exact UInt8.le_refl m
      · refine UInt8.le_trans hm ?_
        split
        · exact UInt8.le_refl v
        · next h => exact UInt8.not_lt.1 h

/-- The running maximum is above its start and above every byte. -/
theorem foldl_le_maxVal (block : List UInt8) (m : UInt8) :
    m ≤ block.foldl (fun m v => if v > m then v else m) m ∧
      ∀ b ∈ block, b ≤ block.foldl (fun m v => if v > m then v else m) m := by
  induction block generalizing m with
  | nil => simp
  | cons v block ih =>
      obtain ⟨hm, hb⟩ := ih (if v > m then v else m)
      rw [List.foldl_cons]
      refine ⟨?_, List.forall_mem_cons.2 ⟨?_, hb⟩⟩
      · refine UInt8.le_trans ?_ hm
        split
        · next h => exact UInt8.le_of_lt h
        · exact UInt8.le_refl m
      · refine UInt8.le_trans ?_ hm
        split
        · exact UInt8.le_refl v
        · next h => exact UInt8.not_lt.1 h

theorem minVal_le {block : List UInt8} {b : UInt8} (hb : b ∈ block) : minVal block ≤ b :=
  (minVal_le_foldl block 0xFF).2 b hb

theorem le_maxVal {block : List UInt8} {b : UInt8} (hb : b ∈ block) : b ≤ maxVal block :=
  (foldl_le_maxVal block 0).2 b hb

/-- The distance of a byte to the least one is within the range of the block. -/
theorem sub_minVal_le {block : List UInt8} {b : UInt8} (hb : b ∈ block) :
    (b - minVal block).toNat ≤ (maxVal block - minVal block).toNat := by
  have hmin : (minVal block).toNat ≤ b.toNat := UInt8.le_iff_toNat_le.1 (minVal_le hb)
  have hmax : b.toNat ≤ (maxVal block).toNat := UInt8.le_iff_toNat_le.1 (le_maxVal hb)
  rw [UInt8.toNat_sub_of_le _ _ (minVal_le hb),
    UInt8.toNat_sub_of_le _ _ (UInt8.le_trans (minVal_le hb) (le_maxVal hb))]
  omega

/-- What the class of a block says of its bytes. -/
inductive ClassifiedAs (p : RangeBits) (block : List UInt8) : BlockClass → Prop
  | zero (h : ∀ b ∈ block, b = 0) : ClassifiedAs p block .zero
  | uniform (v : UInt8) (h : ∀ b ∈ block, b = v) : ClassifiedAs p block (.uniform v)
  | sparse (hnz : nzCount block ≤ sparseThreshold) : ClassifiedAs p block .sparse
  | smallRange (m r : UInt8) (hpos : 0 < p.bits r.toNat) (hle : p.bits r.toNat ≤ rangeMaxBits)
      (h : ∀ b ∈ block, (b - m).toNat ≤ r.toNat) : ClassifiedAs p block (.smallRange m r)
  | dense : ClassifiedAs p block .dense

/-- The class that a block is given is one that describes it. -/
theorem classifiedAs_classifyBlock (p : RangeBits) (block : List UInt8) :
    ClassifiedAs p block (classifyBlock p block) := by
  unfold classifyBlock
  by_cases hz : block.all (· == 0)
  · rw [if_pos hz]
    exact .zero (by simpa using hz)
  rw [if_neg hz]
  by_cases hs : block.all (· == block.headD 0)
  · rw [if_pos hs]
    exact .uniform _ (by simpa using hs)
  rw [if_neg hs]
  by_cases hn : nzCount block ≤ sparseThreshold ∧ nzCount block < block.length
  · rw [if_pos hn]
    exact .sparse hn.1
  rw [if_neg hn]
  dsimp only
  split
  · next hr => exact .smallRange _ _ hr.1 hr.2 fun b hb => sub_minVal_le hb
  · exact .dense

/-! ## The stored form of a block -/

/-- The bytes that a block of the given class is stored as. -/
def blockBytes (p : RangeBits) (block : List UInt8) : BlockClass → List UInt8
  | .zero => []
  | .uniform val => [val]
  | .sparse => fieldBytes 1 (nonzeroFlags block) ++ block.filter (· != 0)
  | .smallRange min range =>
      min :: range :: fieldBytes (p.bits range.toNat) (rangeDeltas min block)
  | .dense => block

/-- A flag is one bit. -/
theorem nonzeroFlags_lt {block : List UInt8} : ∀ f ∈ nonzeroFlags block, f < 2 ^ 1 := by
  intro f hf
  obtain ⟨b, -, rfl⟩ := List.mem_map.1 hf
  split <;> decide

/-- A delta fits the bits of the range. -/
theorem rangeDeltas_lt {p : RangeBits} {block : List UInt8} {m r : UInt8}
    (h : ∀ b ∈ block, (b - m).toNat ≤ r.toNat) :
    ∀ d ∈ rangeDeltas m block, d < 2 ^ p.bits r.toNat := by
  intro d hd
  obtain ⟨b, hb, rfl⟩ := List.mem_map.1 hd
  exact Nat.lt_of_le_of_lt (h b hb) (p.lt_two_pow _ r.toNat_lt)

/-- The bytes of packed fields, read from the front of a larger local array. -/
theorem readAt_packBits {w k : Nat} {fs : List Nat} (hw : 0 < w) (hfs : ∀ f ∈ fs, f < 2 ^ w)
    (hroom : w * fs.length ≤ 8 * k) :
    (packBits w fs k >>= fun area => readAt area 0 ((w * fs.length + 7) / 8)) =
      .ok (fieldBytes w fs) := by
  rw [packBits_eq hw hfs hroom]
  simp only [bind, Except.bind]
  rw [readAt_zero (by rw [length_leBytes]; omega), take_leBytes (by omega)]
  rfl

/-- The bytes behind the bitmap are those that are not zero. -/
theorem putNonzero_eq (block : List UInt8) (c : OutCursor) :
    putNonzero block c = c.put (block.filter (· != 0)) := by
  induction block generalizing c with
  | nil => rfl
  | cons b block ih =>
      rw [putNonzero, List.filter_cons]
      by_cases hb : b != 0
      · rw [if_pos hb, if_pos hb]
        exact (bind_congr fun c => ih c).trans (OutCursor.put_append c [b] _).symm
      · rw [if_neg hb, if_neg hb]
        exact ih c

/-- **Block encoder**: a classified block goes out as its stored form. -/
theorem encodeBlock_eq {p : RangeBits} {block : List UInt8} {cls : BlockClass} (c : OutCursor)
    (hlen : block.length ≤ 64) (h : ClassifiedAs p block cls) :
    encodeBlock p block cls c = c.put (blockBytes p block cls) := by
  cases h with
  | zero => rfl
  | uniform v => rfl
  | sparse hnz =>
      have hmap := readAt_packBits (k := 8) Nat.one_pos (@nonzeroFlags_lt block)
        (by simpa [nonzeroFlags] using hlen)
      simp only [nonzeroFlags, List.length_map, Nat.one_mul] at hmap
      simp only [encodeBlock, blockBytes, nonzeroFlags]
      rw [OutCursor.put_append, ← bind_assoc, hmap]
      exact bind_congr fun c => putNonzero_eq block c
  | smallRange m r hpos hle hd =>
      have hroom : p.bits r.toNat * (rangeDeltas m block).length ≤ 8 * 64 := by
        rw [rangeDeltas, List.length_map]
        calc p.bits r.toNat * block.length ≤ rangeMaxBits * 64 := Nat.mul_le_mul hle hlen
          _ ≤ 8 * 64 := by decide
      have hpack := readAt_packBits hpos (rangeDeltas_lt (p := p) hd) hroom
      rw [rangeDeltas, List.length_map, Nat.mul_comm] at hpack
      have hbytes : blockBytes p block (.smallRange m r) =
          [m] ++ ([r] ++ fieldBytes (p.bits r.toNat) (rangeDeltas m block)) := rfl
      simp only [encodeBlock, if_neg (Nat.ne_of_gt hpos)]
      rw [hbytes, OutCursor.put_append]
      refine bind_congr fun c => ?_
      rw [OutCursor.put_append]
      refine bind_congr fun c => ?_
      rw [← bind_assoc, rangeDeltas, hpack]
      rfl
  | dense => rfl

theorem length_filter_nonzero (block : List UInt8) :
    (block.filter (· != 0)).length = nzCount block :=
  List.countP_eq_length_filter.symm

/-- The size of the stored form of a block. -/
def blockSize (p : RangeBits) (block : List UInt8) : BlockClass → Nat
  | .zero => 0
  | .uniform _ => 1
  | .sparse => (block.length + 7) / 8 + nzCount block
  | .smallRange _ range => 2 + (block.length * p.bits range.toNat + 7) / 8
  | .dense => block.length

/-- A block takes the bytes that its class says. -/
theorem length_blockBytes (p : RangeBits) (block : List UInt8) (cls : BlockClass) :
    (blockBytes p block cls).length = blockSize p block cls := by
  cases cls with
  | sparse => simp [blockBytes, blockSize, nonzeroFlags, length_filter_nonzero]
  | smallRange m r =>
      simp [blockBytes, blockSize, rangeDeltas, Nat.mul_comm block.length]
      omega
  | _ => simp [blockBytes, blockSize]

/-- The stored form of a block of at least 32 bytes is no larger than the block. -/
theorem blockSize_le {p : RangeBits} {block : List UInt8} {cls : BlockClass}
    (hlen : 32 ≤ block.length) (h : ClassifiedAs p block cls) :
    blockSize p block cls ≤ block.length := by
  cases h with
  | zero => exact Nat.zero_le _
  | uniform v =>
      simp only [blockSize]
      omega
  | sparse hnz =>
      have hcount : nzCount block ≤ 16 := hnz
      simp only [blockSize]
      omega
  | smallRange m r hpos hle =>
      have hbits : block.length * p.bits r.toNat ≤ block.length * 6 := Nat.mul_le_mul_left _ hle
      simp only [blockSize]
      omega
  | dense => exact Nat.le_refl _

/-! ## Reading a block back -/

/-- A run over the non-zero bytes that follow, with a bitmap that marks them. -/
theorem takeSparse_append {bitmap post : List UInt8} (pre done rest : List UInt8)
    (hbitmap : bitmap = fieldBytes 1 (nonzeroFlags (done ++ rest))) :
    takeSparse (pre ++ (rest.filter (· != 0) ++ post)) bitmap pre.length done.length rest.length =
      .ok (pre.length + (rest.filter (· != 0)).length, rest) := by
  induction rest generalizing pre done with
  | nil => rfl
  | cons b rest ih =>
      have hlen : done.length < (nonzeroFlags (done ++ b :: rest)).length := by
        simp [nonzeroFlags]
      have hflag : (nonzeroFlags (done ++ b :: rest))[done.length] = if b != 0 then 1 else 0 := by
        simp [nonzeroFlags]
      have hbit := bitAt_fieldBytes nonzeroFlags_lt hlen
      rw [← hbitmap, hflag] at hbit
      have hbitmap' : bitmap = fieldBytes 1 (nonzeroFlags ((done ++ [b]) ++ rest)) := by
        rw [hbitmap]
        simp
      have hdone : (done ++ [b]).length = done.length + 1 := by simp
      rw [List.length_cons, takeSparse, hbit]
      by_cases hb : b != 0
      · have hnext := ih (pre ++ [b]) (done ++ [b]) hbitmap'
        have hpre : (pre ++ [b]).length = pre.length + 1 := by simp
        rw [hdone, hpre, List.append_assoc, List.singleton_append] at hnext
        rw [List.filter_cons, if_pos hb, if_pos hb, List.cons_append]
        simp only [bind, Except.bind, decide_true, if_true]
        rw [if_neg (by simp), readByte_append]
        dsimp only
        rw [hnext]
        simp [Nat.add_assoc, Nat.add_comm 1]
      · have hnext := ih pre (done ++ [b]) hbitmap'
        have hzero : b = 0 := by simpa using hb
        rw [hdone] at hnext
        rw [List.filter_cons, if_neg hb, if_neg hb]
        simp only [bind, Except.bind]
        rw [if_neg (by decide), hnext, hzero]

/-- The deltas are read back from where the reader stands, by induction on the rest. -/
theorem takeRange_append {p : RangeBits} {m r : UInt8} (done rest : List UInt8)
    (hpos : 0 < p.bits r.toNat) (h : ∀ b ∈ done ++ rest, (b - m).toNat ≤ r.toNat) :
    takeRange (fieldBytes (p.bits r.toNat) (rangeDeltas m (done ++ rest))) (p.bits r.toNat) m
      done.length rest.length = .ok rest := by
  induction rest generalizing done with
  | nil => rfl
  | cons b rest ih =>
      have hlen : done.length < (rangeDeltas m (done ++ b :: rest)).length := by
        simp [rangeDeltas]
      have hdelta : (rangeDeltas m (done ++ b :: rest))[done.length] = (b - m).toNat := by
        simp [rangeDeltas]
      have hread := readBits_fieldBytes hpos (rangeDeltas_lt h) hlen
      rw [hdelta] at hread
      have hnext := ih (done ++ [b]) (by simpa using h)
      rw [List.append_assoc, List.singleton_append, List.length_append, List.length_singleton]
        at hnext
      rw [List.length_cons, takeRange, hread]
      simp only [bind, Except.bind]
      rw [hnext, UInt8.ofNat_toNat, UInt8.add_comm, UInt8.sub_add_cancel]

/-- **Block decoder**: it reads back the stored form of a classified block. -/
theorem decodeBlock_append {p : RangeBits} {block : List UInt8} {cls : BlockClass}
    (pre post : List UInt8) (h : ClassifiedAs p block cls) :
    decodeBlock p (pre ++ (blockBytes p block cls ++ post)) block.length pre.length cls.code =
      .ok (pre.length + (blockBytes p block cls).length, block) := by
  cases h with
  | zero h =>
      have hblock : block = List.replicate block.length 0 := List.eq_replicate_iff.2 ⟨rfl, h⟩
      simp [decodeBlock, BlockClass.code, blockBytes, ← hblock]
  | uniform v h =>
      have hblock : block = List.replicate block.length v := List.eq_replicate_iff.2 ⟨rfl, h⟩
      have hbytes : blockBytes p block (.uniform v) = [v] := rfl
      rw [hbytes, List.singleton_append]
      simp only [decodeBlock, BlockClass.code]
      rw [if_neg (by simp), readByte_append]
      simp [bind, Except.bind, ← hblock]
  | sparse hnz =>
      have hbytes : blockBytes p block .sparse =
          fieldBytes 1 (nonzeroFlags block) ++ block.filter (· != 0) := rfl
      have hlen : (fieldBytes 1 (nonzeroFlags block)).length = (block.length + 7) / 8 := by
        simp [nonzeroFlags]
      have hread := readAt_append pre (fieldBytes 1 (nonzeroFlags block))
        (block.filter (· != 0) ++ post) rfl hlen
      have htake := @takeSparse_append (fieldBytes 1 (nonzeroFlags block)) post
        (pre ++ fieldBytes 1 (nonzeroFlags block)) [] block rfl
      rw [List.append_assoc, List.length_append, hlen, List.length_nil] at htake
      rw [hbytes, List.append_assoc]
      simp only [decodeBlock, BlockClass.code]
      rw [if_neg (by simp [hlen]), hread]
      simp only [bind, Except.bind]
      rw [htake, List.length_append, hlen, Nat.add_assoc]
  | smallRange m r hpos hle h =>
      have hbytes : blockBytes p block (.smallRange m r) =
          m :: r :: fieldBytes (p.bits r.toNat) (rangeDeltas m block) := rfl
      have hlen : (fieldBytes (p.bits r.toNat) (rangeDeltas m block)).length =
          (block.length * p.bits r.toNat + 7) / 8 := by
        simp [rangeDeltas, Nat.mul_comm]
      have hrange := readByte_append (pre ++ [m]) r
        (fieldBytes (p.bits r.toNat) (rangeDeltas m block) ++ post)
      have hread := readAt_append (pre ++ [m, r])
        (fieldBytes (p.bits r.toNat) (rangeDeltas m block)) post rfl hlen
      have htake := takeRange_append (m := m) [] block hpos h
      simp only [List.append_assoc, List.cons_append, List.nil_append, List.length_append,
        List.length_cons, List.length_nil, Nat.zero_add, Nat.reduceAdd] at hrange hread htake
      rw [hbytes, List.cons_append, List.cons_append]
      simp only [decodeBlock, BlockClass.code]
      rw [if_neg (by simp), readByte_append, hrange]
      simp only [bind, Except.bind]
      rw [if_neg (Nat.ne_of_gt hpos), if_neg (by simp [hlen]; omega), hread]
      dsimp only
      rw [htake, List.length_cons, List.length_cons, hlen]
      simp only [Except.ok.injEq, Prod.mk.injEq, and_true]
      omega
  | dense =>
      have hbytes : blockBytes p block .dense = block := rfl
      rw [hbytes]
      simp only [decodeBlock, BlockClass.code]
      rw [if_neg (by simp), readAt_append pre block post rfl rfl]
      rfl

/-! ## Tables -/

/-- The classes of a source's blocks, in tables that have an entry for each. -/
theorem classifyBlocks_eq (p : RangeBits) (size b : Nat) (blocks : List (List UInt8)) :
    classifyBlocks p size b blocks =
      if blocks = [] ∨ b + blocks.length ≤ size then .ok (blocks.map (classifyBlock p))
      else .error .oob := by
  induction blocks generalizing b with
  | nil => rfl
  | cons block blocks ih =>
      rw [classifyBlocks, ih]
      by_cases hfit : b + (block :: blocks).length ≤ size
      · have hrest : blocks = [] ∨ b + 1 + blocks.length ≤ size := by
          right
          rw [List.length_cons] at hfit
          omega
        rw [List.length_cons] at hfit
        rw [if_pos (by omega), if_pos hrest, if_pos (by simp; omega)]
        rfl
      · rw [if_neg (show ¬ (block :: blocks = [] ∨ _) by simpa using hfit)]
        rw [List.length_cons] at hfit
        by_cases hb : b < size
        · have hrest : ¬ (blocks = [] ∨ b + 1 + blocks.length ≤ size) := by
            rintro (rfl | hle)
            · simp at hfit
              omega
            · omega
          rw [if_pos hb, if_neg hrest]
          rfl
        · rw [if_neg hb]

/-- Packed types go in at `out`, where `out` stays; the memory behind them stays too. -/
theorem packTypes_ok {codes : List Nat} {c : OutCursor} (hcodes : ∀ t ∈ codes, t < 2 ^ 3)
    (h : c.out + (fieldBytes 3 codes).length ≤ c.dst.length) :
    packTypes codes c = .ok { c with
      dst := c.dst.take c.out ++
        (fieldBytes 3 codes ++ c.dst.drop (c.out + (fieldBytes 3 codes).length)) } := by
  have hk : (codes.length * 3 + 7) / 8 = (fieldBytes 3 codes).length := by
    rw [length_fieldBytes, Nat.mul_comm]
  have hlt : fieldsNat 3 codes < 256 ^ (fieldBytes 3 codes).length := by
    rw [← leNat_fieldBytes (by decide) hcodes]
    exact leNat_lt _
  have hwrite : writeAt c.dst c.out (List.replicate ((codes.length * 3 + 7) / 8) 0) =
      .ok (c.dst.take c.out ++ (List.replicate (fieldBytes 3 codes).length 0 ++
        c.dst.drop (c.out + (fieldBytes 3 codes).length))) := by
    rw [hk, writeAt, if_pos (by simpa using h), List.length_replicate, List.append_assoc]
  have htake : (c.dst.take c.out).length = c.out := List.length_take_of_le (by omega)
  have hput : ∀ (buf : List UInt8) (pos f : Nat), f < 2 ^ 3 →
      8 * c.out + pos + 3 ≤ 8 * c.dst.length → buf.length = c.dst.length →
      OrsInto buf (f <<< (8 * c.out + pos)) (orField 3 buf c.out pos (f &&& 7)) := by
    intro buf pos f hf hfit hlen
    rw [show (7 : Nat) = 2 ^ 3 - 1 by decide, Nat.and_two_pow_sub_one_eq_mod, Nat.mod_eq_of_lt hf]
    exact orsInto_orField (by decide) (by decide) hf (by omega)
  have hloop := @orsInto_packLoop _ _ _ _ hput _ hcodes 0
    (c.dst.take c.out ++ (List.replicate (fieldBytes 3 codes).length 0 ++
      c.dst.drop (c.out + (fieldBytes 3 codes).length)))
    (by simp only [List.length_append, List.length_replicate, List.length_drop, htake]; omega)
    (by rw [length_fieldBytes] at h; omega)
  have hbytes : leBytes (fieldBytes 3 codes).length (fieldsNat 3 codes) = fieldBytes 3 codes := by
    rw [length_fieldBytes]
    rfl
  have harea := OrsInto.area hlt (by rw [htake]; exact hloop)
  rw [packTypes, hwrite]
  simp only [bind, Except.bind]
  rw [harea, hbytes]

/-- Packed types written over bytes of the same length. -/
theorem packTypes_mid {codes : List Nat} (hcodes : ∀ t ∈ codes, t < 2 ^ 3)
    (pre post : List UInt8) {old : List UInt8} (h : old.length = (fieldBytes 3 codes).length) :
    packTypes codes ⟨pre ++ (old ++ post), pre.length⟩ =
      .ok ⟨pre ++ (fieldBytes 3 codes ++ post), pre.length⟩ := by
  have hpack := @packTypes_ok codes ⟨pre ++ (old ++ post), pre.length⟩ hcodes
    (by simp only [List.length_append]; omega)
  have hdrop : (pre ++ (old ++ post)).drop (pre.length + (fieldBytes 3 codes).length) = post := by
    rw [← List.append_assoc]
    exact drop_append_of_length (by rw [List.length_append, h])
  dsimp only at hpack
  rw [take_append_of_length rfl, hdrop] at hpack
  exact hpack

/-- Packed types that do not fit are an access outside the destination. -/
theorem packTypes_oob {codes : List Nat} {c : OutCursor}
    (h : c.dst.length < c.out + (fieldBytes 3 codes).length) :
    packTypes codes c = .error .oob := by
  have hk : (codes.length * 3 + 7) / 8 = (fieldBytes 3 codes).length := by
    rw [length_fieldBytes, Nat.mul_comm]
  rw [packTypes, hk, writeAt, if_neg (by simpa using h)]
  rfl

/-- Packed types with `out` moved behind them are written like any other bytes. -/
theorem packTypes_skip {codes : List Nat} {c : OutCursor} (hcodes : ∀ t ∈ codes, t < 2 ^ 3)
    (hne : codes ≠ []) :
    (packTypes codes c >>= fun c => .ok (c.skip ((codes.length * 3 + 7) / 8))) =
      c.put (fieldBytes 3 codes) := by
  have hpos : 0 < codes.length := List.length_pos_iff.2 hne
  have hbytes : fieldBytes 3 codes ≠ [] := by
    rw [← List.length_pos_iff, length_fieldBytes]
    omega
  by_cases h : c.out + (fieldBytes 3 codes).length ≤ c.dst.length
  · rw [packTypes_ok hcodes h, OutCursor.put_ok h]
    simp [bind, Except.bind, OutCursor.skip, Nat.mul_comm]
  · rw [packTypes_oob (by omega), OutCursor.put_oob hbytes (by omega)]
    rfl

/-- The stored form of a sequence of blocks. -/
def blocksBytes (p : RangeBits) (blocks : List (List UInt8)) : List UInt8 :=
  blocks.flatMap fun block => blockBytes p block (classifyBlock p block)

/-- The blocks one after the other. -/
theorem blocksBytes_cons (p : RangeBits) (block : List UInt8) (blocks : List (List UInt8)) :
    blocksBytes p (block :: blocks) =
      blockBytes p block (classifyBlock p block) ++ blocksBytes p blocks :=
  List.flatMap_cons

/-- The packed types of a sequence of blocks. -/
def typeBytes (p : RangeBits) (blocks : List (List UInt8)) : List UInt8 :=
  fieldBytes 3 (blocks.map fun block => (classifyBlock p block).code)

/-- Three bits for each block. -/
theorem length_typeBytes (p : RangeBits) (blocks : List (List UInt8)) :
    (typeBytes p blocks).length = (3 * blocks.length + 7) / 8 := by
  simp [typeBytes]

/-- Every class fits three bits. -/
theorem codes_lt (p : RangeBits) (blocks : List (List UInt8)) :
    ∀ t ∈ blocks.map (fun block => (classifyBlock p block).code), t < 2 ^ 3 := by
  intro t ht
  obtain ⟨block, -, rfl⟩ := List.mem_map.1 ht
  exact BlockClass.code_lt _

/-- The loop over the blocks writes exactly these bytes, by induction on the blocks. -/
theorem encodeBlocks_eq {p : RangeBits} {blocks : List (List UInt8)}
    (hlen : ∀ block ∈ blocks, block.length ≤ 64) (c : OutCursor) :
    encodeBlocks p (blocks.zip (blocks.map (classifyBlock p))) c =
      c.put (blocksBytes p blocks) := by
  induction blocks generalizing c with
  | nil => rfl
  | cons block blocks ih =>
      have hhead := encodeBlock_eq c (hlen block List.mem_cons_self)
        (classifiedAs_classifyBlock p block)
      rw [List.map_cons, List.zip_cons_cons, encodeBlocks, hhead, blocksBytes_cons,
        OutCursor.put_append]
      exact bind_congr fun c => ih (fun b hb => hlen b (List.mem_cons_of_mem block hb)) c

/-! ## What the decoders yield -/

/-- A sparse block has the length that is asked for. -/
theorem length_of_takeSparse {src bitmap block : List UInt8} {n inPos i pos : Nat}
    (h : takeSparse src bitmap inPos i n = .ok (pos, block)) : block.length = n := by
  induction n generalizing inPos i pos block with
  | zero =>
      injection h with h
      injection h with _ h
      rw [← h]
      rfl
  | succ n ih =>
      rw [takeSparse] at h
      obtain ⟨bit, -, h⟩ := bind_eq_ok.1 h
      split at h
      · split at h
        · cases h
        · obtain ⟨b, -, h⟩ := bind_eq_ok.1 h
          obtain ⟨⟨pos', bs⟩, htake, h⟩ := bind_eq_ok.1 h
          injection h with h
          injection h with _ h
          rw [← h, List.length_cons, ih htake]
      · obtain ⟨⟨pos', bs⟩, htake, h⟩ := bind_eq_ok.1 h
        injection h with h
        injection h with _ h
        rw [← h, List.length_cons, ih htake]

/-- So has a block of deltas. -/
theorem length_of_takeRange {packed block : List UInt8} {bpv n i : Nat} {min : UInt8}
    (h : takeRange packed bpv min i n = .ok block) : block.length = n := by
  induction n generalizing i block with
  | zero =>
      injection h with h
      rw [← h]
      rfl
  | succ n ih =>
      rw [takeRange] at h
      obtain ⟨delta, -, h⟩ := bind_eq_ok.1 h
      obtain ⟨bs, htake, h⟩ := bind_eq_ok.1 h
      injection h with h
      rw [← h, List.length_cons, ih htake]

/-- Whatever a block is stored as, the decoder makes `len` bytes of it. -/
theorem length_of_decodeBlock {p : RangeBits} {src block : List UInt8} {len inPos type pos : Nat}
    (h : decodeBlock p src len inPos type = .ok (pos, block)) : block.length = len := by
  unfold decodeBlock at h
  split at h
  · injection h with h
    injection h with _ h
    rw [← h, List.length_replicate]
  · split at h
    · cases h
    obtain ⟨val, -, h⟩ := bind_eq_ok.1 h
    injection h with h
    injection h with _ h
    rw [← h, List.length_replicate]
  · dsimp only at h
    split at h
    · cases h
    obtain ⟨bitmap, -, h⟩ := bind_eq_ok.1 h
    exact length_of_takeSparse h
  · split at h
    · cases h
    obtain ⟨min, -, h⟩ := bind_eq_ok.1 h
    obtain ⟨range, -, h⟩ := bind_eq_ok.1 h
    dsimp only at h
    split at h
    · injection h with h
      injection h with _ h
      rw [← h, List.length_replicate]
    · split at h
      · cases h
      obtain ⟨packed, -, h⟩ := bind_eq_ok.1 h
      obtain ⟨bs, htake, h⟩ := bind_eq_ok.1 h
      injection h with h
      injection h with _ h
      rw [← h, length_of_takeRange htake]
  · split at h
    · cases h
    obtain ⟨bs, hread, h⟩ := bind_eq_ok.1 h
    injection h with h
    injection h with _ h
    rw [← h, length_of_readAt hread]
  · cases h

end MiniMem
