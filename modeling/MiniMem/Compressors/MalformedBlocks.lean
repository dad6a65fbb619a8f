import MiniMem.Compressors.Malformed

/-!
# MiniMem.Compressors.MalformedBlocks

The decoders of blocks on bytes that no encoder wrote.  The number of blocks
and the size of the type tables are fields of their own in the header:

```
le16(n) ++ le16(h) ++ h bytes ++ …
```

Each payload is read behind a check of its size, and the types are not: the
loops fetch the type of each block they come to from where the table starts,
however short the table and the source are.  So a decoder keeps to its
source exactly when the bits of those types lie inside it.
-/

namespace MiniMem

/-! ## Payloads -/

/-- The type of block `b` in the table at `base`. -/
def storedType (src : List UInt8) (base b : Nat) : Nat := (leNat src >>> (8 * base + b * 3)) % 2 ^ 3

/-- The bits of the type of block `b`, in the table at `base`, are bits of the source. -/
def TypeInside (src : List UInt8) (base b : Nat) : Prop := base + (b * 3 + 2) / 8 < src.length

/-- The size of the stored form of `len` bytes at `inPos`; a decoder stops at a type above 4. -/
def payloadSize (p : RangeBits) (src : List UInt8) (len inPos : Nat) : Nat → Option Nat
  | 0 => some 0
  | 1 =>
      let bitmap := (src.drop inPos).take ((len + 7) / 8)
      some ((len + 7) / 8 + (List.range len).countP (leNat bitmap).testBit)
  | 2 => some 1
  | 3 => some (2 + (len * p.bits (src.getD (inPos + 1) 0).toNat + 7) / 8)
  | 4 => some len
  | _ => none

/-- Where the stored form of `len` bytes ends, if it lies in the source. -/
def payloadEnd (p : RangeBits) (src : List UInt8) (len inPos type : Nat) : Option Nat :=
  (payloadSize p src len inPos type).bind fun size =>
    if inPos + size ≤ src.length then some (inPos + size) else none

/-- A stop with 0 where there is no value. -/
def orStop {α : Type} (o : Option α) : Except Stop α := o.elim (.error .zero) .ok

theorem unpackType_inside {src : List UInt8} {base b : Nat} (h : TypeInside src base b) :
    unpackType src base b = .ok (storedType src base b) := by
  unfold TypeInside at h
  exact readField_eq (by decide) (by decide) (by omega)

theorem unpackType_outside {src : List UInt8} {base b : Nat} (h : ¬ TypeInside src base b) :
    unpackType src base b = .error .oob := by
  unfold TypeInside at h
  rw [unpackType, readField]
  by_cases hlo : base + b * 3 / 8 < src.length
  · rw [readByte_ok hlo, ok_bind, if_neg (by omega), readByte_oob (by omega)]
    rfl
  · rw [readByte_oob (by omega)]
    rfl

/-- The walk over a bitmap ends behind one byte for each bit that is set, or stops. -/
theorem takeSparse_end {src bitmap : List UInt8} {inPos i n : Nat} (hpos : inPos ≤ src.length)
    (hbits : i + n ≤ 8 * bitmap.length) :
    (takeSparse src bitmap inPos i n).map Prod.fst = orStop
      (if inPos + (List.range' i n).countP (leNat bitmap).testBit ≤ src.length then
        some (inPos + (List.range' i n).countP (leNat bitmap).testBit) else none) := by
  induction n generalizing inPos i with
  | zero => rw [takeSparse, List.range'_zero, List.countP_nil, Nat.add_zero, if_pos hpos]; rfl
  | succ n ih =>
      rw [takeSparse, bitAt_eq (by omega), ok_bind, List.range'_succ, List.countP_cons]
      by_cases hbit : (leNat bitmap).testBit i = true
      · simp only [hbit, if_true]
        by_cases hin : inPos ≥ src.length
        · rw [if_pos hin, if_neg (by omega)]
          rfl
        · have hrest := @ih (inPos + 1) (i + 1) (by omega) (by omega)
          rw [show inPos + 1 + (List.range' (i + 1) n).countP (leNat bitmap).testBit =
            inPos + ((List.range' (i + 1) n).countP (leNat bitmap).testBit + 1) by omega] at hrest
          rw [if_neg hin, readByte_ok (by omega), ok_bind, ← hrest]
          cases takeSparse src bitmap (inPos + 1) (i + 1) n <;> rfl
      · have hrest := @ih inPos (i + 1) hpos (by omega)
        simp only [hbit, if_false, Nat.add_zero, Bool.false_eq_true]
        rw [← hrest]
        cases takeSparse src bitmap inPos (i + 1) n <;> rfl

/-- The walk over packed distances reads inside the area that has been checked. -/
theorem takeRange_inside {packed : List UInt8} {bpv i n : Nat} (min : UInt8)
    (h : (i + n) * bpv ≤ 8 * packed.length) :
    ∃ block, takeRange packed bpv min i n = .ok block := by
  induction n generalizing i with
  | zero => exact ⟨[], rfl⟩
  | succ n ih =>
      have hfield : bpv * i + bpv ≤ 8 * packed.length := by
        rw [← Nat.mul_succ, Nat.mul_comm]
        exact Nat.le_trans (Nat.mul_le_mul_right bpv (by omega)) h
      obtain ⟨block, hblock⟩ := @ih (i + 1) (by rwa [show i + 1 + n = i + (n + 1) by omega])
      rw [takeRange, readBits_eq hfield, ok_bind, hblock, ok_bind]
      exact ⟨_, rfl⟩

section Payload

variable {p : RangeBits} {src : List UInt8} {len inPos type size : Nat}

theorem payloadEnd_of_le (hsize : payloadSize p src len inPos type = some size)
    (h : inPos + size ≤ src.length) : payloadEnd p src len inPos type = some (inPos + size) := by
  rw [payloadEnd, hsize]
  exact if_pos h

theorem payloadEnd_of_lt (hsize : payloadSize p src len inPos type = some size)
    (h : src.length < inPos + size) : payloadEnd p src len inPos type = none := by
  rw [payloadEnd, hsize]
  exact if_neg (Nat.not_le_of_lt h)

/-- A bitmap and the bytes that are not zero. -/
theorem decodeBlock_sparse_end (p : RangeBits) (src : List UInt8) (len inPos : Nat) :
    (decodeBlock p src len inPos 1).map Prod.fst = orStop (payloadEnd p src len inPos 1) := by
  simp only [decodeBlock]
  by_cases hin : inPos + (len + 7) / 8 > src.length
  · rw [if_pos hin, payloadEnd_of_lt rfl (by omega)]
    rfl
  have hlen : ((src.drop inPos).take ((len + 7) / 8)).length = (len + 7) / 8 :=
    List.length_take_of_le (by rw [List.length_drop]; omega)
  rw [if_neg hin, readAt_ok (by omega), ok_bind, takeSparse_end (by omega) (by omega),
    ← List.range_eq_range', Nat.add_assoc]
  rfl

/-- The least byte, the range, and the distances packed at its width. -/
theorem decodeBlock_range_end (p : RangeBits) (src : List UInt8) (len inPos : Nat) :
    (decodeBlock p src len inPos 3).map Prod.fst = orStop (payloadEnd p src len inPos 3) := by
  have hsize : payloadSize p src len inPos 3 =
      some (2 + (len * p.bits (src.getD (inPos + 1) 0).toNat + 7) / 8) := rfl
  simp only [decodeBlock]
  by_cases hin : inPos + 2 > src.length
  · rw [if_pos hin, payloadEnd_of_lt hsize (by omega)]
    rfl
  rw [if_neg hin, readByte_ok (by omega), ok_bind, readByte_ok (by omega), ok_bind]
  generalize p.bits (src.getD (inPos + 1) 0).toNat = bpv at hsize ⊢
  by_cases hbpv : bpv = 0
  · rw [if_pos hbpv, payloadEnd_of_le hsize (by rw [hbpv]; omega), hbpv, Nat.mul_zero]
    rfl
  rw [if_neg hbpv]
  by_cases hpacked : inPos + 2 + (len * bpv + 7) / 8 > src.length
  · rw [if_pos hpacked, payloadEnd_of_lt hsize (by omega)]
    rfl
  have hlen : ((src.drop (inPos + 2)).take ((len * bpv + 7) / 8)).length = (len * bpv + 7) / 8 :=
    List.length_take_of_le (by rw [List.length_drop]; omega)
  obtain ⟨block, hblock⟩ := @takeRange_inside ((src.drop (inPos + 2)).take ((len * bpv + 7) / 8))
    bpv 0 len (src.getD inPos 0) (by rw [hlen, Nat.zero_add]; omega)
  rw [if_neg hpacked, payloadEnd_of_le hsize (by omega), readAt_ok (by omega), ok_bind, hblock,
    ok_bind, ← Nat.add_assoc]
  rfl

/-- **Payloads**: under every type a decoder ends where the stored form does, or stops. -/
theorem decodeBlock_end (p : RangeBits) (src : List UInt8) (len inPos type : Nat)
    (hpos : inPos ≤ src.length) :
    (decodeBlock p src len inPos type).map Prod.fst = orStop (payloadEnd p src len inPos type) := by
  match type with
  | 0 =>
      rw [payloadEnd_of_le rfl hpos]
      rfl
  | 1 => exact decodeBlock_sparse_end p src len inPos
  | 2 =>
      simp only [decodeBlock]
      by_cases hin : inPos ≥ src.length
      · rw [if_pos hin, payloadEnd_of_lt rfl (Nat.lt_succ_of_le hin)]
        rfl
      · rw [if_neg hin, payloadEnd_of_le rfl (Nat.lt_of_not_le hin), readByte_ok (by omega),
          ok_bind]
        rfl
  | 3 => exact decodeBlock_range_end p src len inPos
  | 4 =>
      simp only [decodeBlock]
      by_cases hin : inPos + len > src.length
      · rw [if_pos hin, payloadEnd_of_lt rfl hin]
        rfl
      · rw [if_neg hin, payloadEnd_of_le rfl (Nat.le_of_not_lt hin), readAt_ok (by omega), ok_bind]
        rfl
  | _ + 5 => rfl

end Payload

/-! ## Positions -/

/-- How a decoder reads a source: where its tables of types start, one for each part of a
block, and where the payloads do. -/
structure BlockTables where
  bits : RangeBits
  tables : List Nat
  partLen : Nat
  start : Nat

/-- Where block `b` ends, if it starts at `pos`: its parts follow each other. -/
def BlockTables.next (t : BlockTables) (src : List UInt8) (b pos : Nat) : Option Nat :=
  t.tables.foldlM (fun pos base => payloadEnd t.bits src t.partLen pos (storedType src base b)) pos

/-- Where block `b` starts, if the blocks before it lie in the source. -/
def BlockTables.pos (t : BlockTables) (src : List UInt8) : Nat → Option Nat
  | 0 => some t.start
  | b + 1 => (t.pos src b).bind (t.next src b)

/-- The types of every block that the loop comes to are read inside the source. -/
def BlockTables.TypesInside (t : BlockTables) (src : List UInt8) (b : Nat) : Prop :=
  (t.pos src b).isSome → ∀ base ∈ t.tables, TypeInside src base b

theorem payloadEnd_le {p : RangeBits} {src : List UInt8} {len inPos type pos : Nat}
    (h : payloadEnd p src len inPos type = some pos) : pos ≤ src.length := by
  obtain ⟨size, -, hsize⟩ := Option.bind_eq_some_iff.1 h
  split at hsize
  · injection hsize with hsize
    omega
  · cases hsize

theorem BlockTables.next_le {t : BlockTables} {src : List UInt8} {b pos pos' : Nat}
    (hpos : pos ≤ src.length) (h : t.next src b pos = some pos') : pos' ≤ src.length := by
  unfold next at h
  generalize t.tables = tables at h
  induction tables generalizing pos with
  | nil =>
      injection h with h
      omega
  | cons base tables ih =>
      rw [List.foldlM_cons] at h
      obtain ⟨mid, hmid, h⟩ := Option.bind_eq_some_iff.1 h
      exact ih (payloadEnd_le hmid) h

theorem BlockTables.pos_le {t : BlockTables} {src : List UInt8} {b pos : Nat}
    (hstart : t.start ≤ src.length) (h : t.pos src b = some pos) : pos ≤ src.length := by
  induction b generalizing pos with
  | zero =>
      injection h with h
      omega
  | succ b ih =>
      obtain ⟨prev, hprev, h⟩ := Option.bind_eq_some_iff.1 h
      exact next_le (ih hprev) h

theorem BlockTables.pos_succ_of_none {t : BlockTables} {src : List UInt8} {b : Nat}
    (h : t.pos src (b + 1) = none) {j : Nat} (hj : b < j) : t.pos src j = none := by
  induction hj with
  | refl => exact h
  | step _ ih => rw [pos, ih]; rfl

/-- A decoded part, with what follows it. -/
theorem decodeBlock_bind {p : RangeBits} {src : List UInt8} {len inPos type : Nat} {α : Type}
    (hpos : inPos ≤ src.length) (f : Nat × List UInt8 → Except Stop α) :
    (payloadEnd p src len inPos type = none ∧
      (decodeBlock p src len inPos type >>= f) = .error .zero) ∨
    ∃ pos block, payloadEnd p src len inPos type = some pos ∧ block.length = len ∧
      (decodeBlock p src len inPos type >>= f) = f (pos, block) := by
  have hend := decodeBlock_end p src len inPos type hpos
  have hlen : ∀ pos block, decodeBlock p src len inPos type = .ok (pos, block) →
      block.length = len := fun _ _ => length_of_decodeBlock
  generalize decodeBlock p src len inPos type = run at hend hlen ⊢
  cases hpayload : payloadEnd p src len inPos type with
  | none =>
      rw [hpayload] at hend
      cases run with
      | ok r => cases hend
      | error e =>
          injection hend with hend
          exact .inl ⟨rfl, by rw [hend]; rfl⟩
  | some pos =>
      rw [hpayload] at hend
      cases run with
      | error e => cases hend
      | ok r =>
          injection hend with hend
          subst hend
          exact .inr ⟨r.1, r.2, rfl, hlen r.1 r.2 rfl, rfl⟩

/-! ## Loops -/

/-- The three ways of a pass over block `b` at `pos`, with `n` blocks left behind it, where
`rest` is the loop over those. -/
inductive BlockPass (t : BlockTables) (src : List UInt8) (b pos : Nat) {σ : Type}
    (rest : Nat → σ → Except Stop (List UInt8)) (inv : σ → Prop) :
    Except Stop (List UInt8) → Prop
  | oob (h : ¬ ∀ base ∈ t.tables, TypeInside src base b) :
      BlockPass t src b pos rest inv (.error .oob)
  | stop (h : ∀ base ∈ t.tables, TypeInside src base b) (hnext : t.next src b pos = none) :
      BlockPass t src b pos rest inv (.error .zero)
  | next (h : ∀ base ∈ t.tables, TypeInside src base b) {pos' : Nat} {s : σ}
      (hnext : t.next src b pos = some pos') (hs : inv s) :
      BlockPass t src b pos rest inv (rest pos' s)

/-- **Loops over blocks**: a loop whose passes read the types of their block first leaves the
source at the first block whose types are not in it. -/
theorem blockLoop_ne_oob_iff {t : BlockTables} {src : List UInt8} {σ : Type}
    {run : Nat → Nat → Nat → σ → Except Stop (List UInt8)} {inv : Nat → σ → Prop}
    (hdone : ∀ b pos s, run b 0 pos s ≠ .error .oob)
    (hpass : ∀ b n pos s, inv (n + 1) s → t.pos src b = some pos →
      BlockPass t src b pos (run (b + 1) n) (inv n) (run b (n + 1) pos s))
    {b n pos : Nat} {s : σ} (hs : inv n s) (hpos : t.pos src b = some pos) :
    run b n pos s ≠ .error .oob ↔ ∀ j, b ≤ j → j < b + n → t.TypesInside src j := by
  induction n generalizing b pos s with
  | zero => exact iff_of_true (hdone b pos s) fun j _ _ => by omega
  | succ n ih =>
      have hrun := hpass b n pos s hs hpos
      have hhead : t.TypesInside src b ↔ ∀ base ∈ t.tables, TypeInside src base b := by
        rw [BlockTables.TypesInside, hpos]
        exact ⟨fun h => h rfl, fun h _ => h⟩
      generalize run b (n + 1) pos s = r at hrun ⊢
      cases hrun with
      | oob h =>
          exact iff_of_false (not_not_intro rfl)
            fun hall => h (hhead.1 (hall b (Nat.le_refl b) (by omega)))
      | stop h hnext =>
          refine iff_of_true nofun fun j hj _ => ?_
          obtain rfl | hlt := Nat.eq_or_lt_of_le hj
          · exact hhead.2 h
          · have hnone : t.pos src (b + 1) = none := by
              rw [BlockTables.pos, hpos]
              exact hnext
            rw [BlockTables.TypesInside, BlockTables.pos_succ_of_none hnone hlt]
            exact nofun
      | @next h pos' s' hnext hs' =>
          have hpos' : t.pos src (b + 1) = some pos' := by
            rw [BlockTables.pos, hpos]
            exact hnext
          rw [ih hs' hpos']
          constructor
          · intro hall j hj hn
            obtain rfl | hlt := Nat.eq_or_lt_of_le hj
            · exact hhead.2 h
            · exact hall j hlt (by omega)
          · exact fun hall j hj hn => hall j (by omega) (by omega)

/-- A pass of `minimem_block_class_decompress` and `decompress_int8`. -/
theorem decompressRows_pass {p : RangeBits} {undo : Option (List UInt8) → List UInt8 → List UInt8}
    {src : List UInt8} {cap base start b n pos : Nat} {prev : Option (List UInt8)}
    {out : List UInt8}
    (hundo : ∀ prev row, (∀ q ∈ prev, List.length q = streamBlockSize) →
      row.length = streamBlockSize → (undo prev row).length = streamBlockSize)
    (hpos : pos ≤ src.length) (hprev : ∀ q ∈ prev, List.length q = streamBlockSize)
    (hcap : out.length + (n + 1) * streamBlockSize ≤ cap) :
    BlockPass ⟨p, [base], streamBlockSize, start⟩ src b pos
      (fun pos (s : Option (List UInt8) × List UInt8) =>
        decompressRows p undo src cap base (b + 1) n pos s.1 s.2)
      (fun s => (∀ q ∈ s.1, List.length q = streamBlockSize) ∧
        s.2.length + n * streamBlockSize ≤ cap)
      (decompressRows p undo src cap base b (n + 1) pos prev out) := by
  rw [Nat.succ_mul] at hcap
  rw [decompressRows]
  by_cases htype : TypeInside src base b
  swap
  · rw [unpackType_outside htype]
    exact .oob fun h => htype (h base List.mem_cons_self)
  have htypes : ∀ base' ∈ [base], TypeInside src base' b :=
    fun base' h => List.mem_singleton.1 h ▸ htype
  rw [unpackType_inside htype, ok_bind]
  obtain ⟨hend, hstop⟩ | ⟨pos', block, hend, hlen, hnext⟩ :=
    @decodeBlock_bind p src streamBlockSize pos (storedType src base b) _ hpos fun r => do
      let out ← emit cap out (undo prev r.2)
      decompressRows p undo src cap base (b + 1) n r.1 (some (undo prev r.2)) out
  · rw [hstop]
    exact .stop htypes (by rw [BlockTables.next, List.foldlM_cons, hend]; rfl)
  · have hrow := hundo prev block hprev hlen
    have hinv : (∀ q ∈ some (undo prev block), List.length q = streamBlockSize) ∧
        (out ++ undo prev block).length + n * streamBlockSize ≤ cap := by
      refine ⟨by rintro q ⟨⟩; exact hrow, ?_⟩
      rw [List.length_append]
      omega
    rw [hnext]
    dsimp only
    rw [emit_ok (by omega), ok_bind]
    exact @BlockPass.next _ src b pos _ _ _ htypes pos'
      (some (undo prev block), out ++ undo prev block)
      (by rw [BlockTables.next, List.foldlM_cons, hend]; rfl) hinv

/-- A pass of `decompress_split16`. -/
theorem decompressHalves_pass {src : List UInt8} {cap loBase hiBase start b n pos : Nat}
    {out : List UInt8} (hpos : pos ≤ src.length)
    (hcap : out.length + (n + 1) * streamBlockSize ≤ cap) :
    BlockPass ⟨aiBits, [loBase, hiBase], streamBlockSize / 2, start⟩ src b pos
      (decompressHalves src cap loBase hiBase (b + 1) n)
      (fun out => out.length + n * streamBlockSize ≤ cap)
      (decompressHalves src cap loBase hiBase b (n + 1) pos out) := by
  have hsize : streamBlockSize = 64 := rfl
  rw [Nat.succ_mul] at hcap
  rw [decompressHalves]
  by_cases hloType : TypeInside src loBase b
  swap
  · rw [unpackType_outside hloType]
    exact .oob fun h => hloType (h loBase List.mem_cons_self)
  rw [unpackType_inside hloType, ok_bind]
  by_cases hhiType : TypeInside src hiBase b
  swap
  · rw [unpackType_outside hhiType]
    exact .oob fun h => hhiType (h hiBase (by simp))
  have htypes : ∀ base ∈ [loBase, hiBase], TypeInside src base b := by
    simpa using ⟨hloType, hhiType⟩
  rw [unpackType_inside hhiType, ok_bind]
  obtain ⟨hloEnd, hstop⟩ | ⟨mid, lo, hloEnd, hloLen, hlo⟩ :=
    @decodeBlock_bind aiBits src (streamBlockSize / 2) pos (storedType src loBase b) _ hpos
      fun r => do
        let hi ← decodeBlock aiBits src (streamBlockSize / 2) r.1 (storedType src hiBase b)
        let out ← emit cap out (interleave r.2 hi.2)
        decompressHalves src cap loBase hiBase (b + 1) n hi.1 out
  · rw [hstop]
    exact .stop htypes (by rw [BlockTables.next, List.foldlM_cons, hloEnd]; rfl)
  rw [hlo]
  obtain ⟨hhiEnd, hstop⟩ | ⟨pos', hi, hhiEnd, hhiLen, hhi⟩ :=
    @decodeBlock_bind aiBits src (streamBlockSize / 2) mid (storedType src hiBase b) _
      (payloadEnd_le hloEnd) fun r => do
        let out ← emit cap out (interleave lo r.2)
        decompressHalves src cap loBase hiBase (b + 1) n r.1 out
  · rw [hstop]
    refine .stop htypes ?_
    rw [BlockTables.next, List.foldlM_cons, hloEnd]
    exact congrArg (Option.bind · _) hhiEnd
  · have hblock : (interleave lo hi).length = streamBlockSize := by
      rw [length_interleave (hloLen.trans hhiLen.symm), hloLen, hhiLen]
      omega
    rw [hhi]
    dsimp only
    rw [emit_ok (by omega), ok_bind]
    refine .next htypes ?_ ?_
    · rw [BlockTables.next, List.foldlM_cons, hloEnd]
      exact congrArg (Option.bind · _) hhiEnd
    · rw [List.length_append]
      omega

/-! ## Decoders -/

/-- The decoders of blocks. -/
inductive BlockDecoder where
  | blockClass
  | split16
  | int8
  deriving DecidableEq, Repr

/-- `minimem_block_class_decompress` and its siblings. -/
def BlockDecoder.decompress : BlockDecoder → List UInt8 → Nat → Except Stop (List UInt8)
  | .blockClass => blockClassDecompress
  | .split16 => decompressSplit16
  | .int8 => decompressInt8

/-- `n_blocks`. -/
def storedBlocks (src : List UInt8) : Nat := leNat (src.take 2)

/-- `header_bytes`. -/
def storedHeader (src : List UInt8) : Nat := leNat ((src.drop 2).take 2)

/-- The tables of a source, from the size that it gives for them. -/
def BlockDecoder.tables (d : BlockDecoder) (src : List UInt8) : BlockTables :=
  match d with
  | .blockClass => ⟨blockClassBits, [4], streamBlockSize, 4 + storedHeader src⟩
  | .split16 =>
      ⟨aiBits, [4, 4 + storedHeader src], streamBlockSize / 2,
        4 + storedHeader src + storedHeader src⟩
  | .int8 => ⟨aiBits, [4], streamBlockSize, 4 + storedHeader src⟩

/-- The checks of a decoder before its loop. -/
structure BlockDecoder.Accepts (d : BlockDecoder) (src : List UInt8) (cap : Nat) : Prop where
  header : 4 ≤ src.length
  nonempty : storedBlocks src ≠ 0
  page : storedBlocks src ≤ blocksPerPage
  tables : (d.tables src).start ≤ src.length
  room : storedBlocks src * streamBlockSize ≤ cap

instance (d : BlockDecoder) (src : List UInt8) (cap : Nat) : Decidable (d.Accepts src cap) :=
  decidable_of_iff (4 ≤ src.length ∧ storedBlocks src ≠ 0 ∧ storedBlocks src ≤ blocksPerPage ∧
    (d.tables src).start ≤ src.length ∧ storedBlocks src * streamBlockSize ≤ cap)
    ⟨fun ⟨h, hn, hp, ht, hr⟩ => ⟨h, hn, hp, ht, hr⟩,
      fun h => ⟨h.header, h.nonempty, h.page, h.tables, h.room⟩⟩

/-- The loop of a decoder, behind its checks. -/
def BlockDecoder.loop (d : BlockDecoder) (src : List UInt8) (cap : Nat) :
    Except Stop (List UInt8) :=
  match d with
  | .blockClass =>
      decompressRows blockClassBits (fun _ block => block) src cap 4 0 (storedBlocks src)
        (d.tables src).start none []
  | .split16 =>
      decompressHalves src cap 4 (4 + storedHeader src) 0 (storedBlocks src) (d.tables src).start []
  | .int8 =>
      decompressRows aiBits xorPrev src cap 4 0 (storedBlocks src) (d.tables src).start none []

theorem BlockDecoder.accepts_iff (d : BlockDecoder) (src : List UInt8) (cap : Nat) :
    d.Accepts src cap ↔ 4 ≤ src.length ∧
      ¬ (storedBlocks src = 0 ∨ storedBlocks src > blocksPerPage) ∧
      (d.tables src).start ≤ src.length ∧ storedBlocks src * streamBlockSize ≤ cap := by
  constructor
  · rintro ⟨hheader, hnonempty, hpage, htables, hroom⟩
    exact ⟨hheader, by omega, htables, hroom⟩
  · rintro ⟨hheader, hblocks, htables, hroom⟩
    exact ⟨hheader, by omega, by omega, htables, hroom⟩

/-- The checks that the decoders share, before a loop over the blocks and behind tables of a
size that follows from `header_bytes`. -/
theorem headerChecks_eq (tables : Nat → Nat) (loop : Nat → Nat → Except Stop (List UInt8))
    (src : List UInt8) (cap : Nat) :
    (if src.length < 4 then .error .zero
      else do
        let nBlocks := leNat (← readAt src 0 2)
        let headerBytes := leNat (← readAt src 2 2)
        if nBlocks = 0 ∨ nBlocks > blocksPerPage then .error .zero
        else if 4 + tables headerBytes > src.length then .error .zero
        else if nBlocks * streamBlockSize > cap then .error .zero
        else loop nBlocks headerBytes) =
      if 4 ≤ src.length ∧ ¬ (storedBlocks src = 0 ∨ storedBlocks src > blocksPerPage) ∧
          4 + tables (storedHeader src) ≤ src.length ∧ storedBlocks src * streamBlockSize ≤ cap then
        loop (storedBlocks src) (storedHeader src)
      else .error .zero := by
  by_cases hheader : src.length < 4
  · rw [if_pos hheader, if_neg fun h => absurd h.1 (Nat.not_le_of_lt hheader)]
  rw [if_neg hheader, readAt_zero (by omega), ok_bind, readAt_ok (by omega), ok_bind]
  change (if storedBlocks src = 0 ∨ storedBlocks src > blocksPerPage then _
    else if 4 + tables (storedHeader src) > src.length then _
    else if storedBlocks src * streamBlockSize > cap then _
    else loop (storedBlocks src) (storedHeader src)) = _
  by_cases hblocks : storedBlocks src = 0 ∨ storedBlocks src > blocksPerPage
  · rw [if_pos hblocks, if_neg fun h => h.2.1 hblocks]
  rw [if_neg hblocks]
  by_cases htables : 4 + tables (storedHeader src) > src.length
  · rw [if_pos htables, if_neg fun h => absurd h.2.2.1 (Nat.not_le_of_lt htables)]
  rw [if_neg htables]
  by_cases hroom : storedBlocks src * streamBlockSize > cap
  · rw [if_pos hroom, if_neg fun h => absurd h.2.2.2 (Nat.not_le_of_lt hroom)]
  rw [if_neg hroom, if_pos ⟨by omega, hblocks, by omega, by omega⟩]

theorem BlockDecoder.decompress_eq (d : BlockDecoder) (src : List UInt8) (cap : Nat) :
    d.decompress src cap = if d.Accepts src cap then d.loop src cap else .error .zero := by
  refine Eq.trans ?_ (if_congr (d.accepts_iff src cap).symm rfl rfl)
  cases d with
  | blockClass =>
      exact headerChecks_eq id (fun nBlocks headerBytes =>
        decompressRows blockClassBits (fun _ block => block) src cap 4 0 nBlocks (4 + headerBytes)
          none []) src cap
  | split16 =>
      refine (headerChecks_eq (· * 2) (fun nBlocks headerBytes =>
        decompressHalves src cap 4 (4 + headerBytes) 0 nBlocks (4 + headerBytes + headerBytes) [])
        src cap).trans (if_congr ?_ rfl rfl)
      simp only [tables, Nat.mul_two, Nat.add_assoc]
  | int8 =>
      exact headerChecks_eq id (fun nBlocks headerBytes =>
        decompressRows aiBits xorPrev src cap 4 0 nBlocks (4 + headerBytes) none []) src cap

/-- The loop of the two decoders of one table. -/
theorem decompressRows_ne_oob_iff {p : RangeBits}
    {undo : Option (List UInt8) → List UInt8 → List UInt8} {src : List UInt8} {cap start n : Nat}
    (hundo : ∀ prev row, (∀ q ∈ prev, List.length q = streamBlockSize) →
      row.length = streamBlockSize → (undo prev row).length = streamBlockSize)
    (hstart : start ≤ src.length) (hroom : n * streamBlockSize ≤ cap) :
    decompressRows p undo src cap 4 0 n start none [] ≠ .error .oob ↔
      ∀ b < n, BlockTables.TypesInside ⟨p, [4], streamBlockSize, start⟩ src b := by
  have hloop := @blockLoop_ne_oob_iff ⟨p, [4], streamBlockSize, start⟩ src
    (Option (List UInt8) × List UInt8)
    (fun b n pos s => decompressRows p undo src cap 4 b n pos s.1 s.2)
    (fun n s => (∀ q ∈ s.1, List.length q = streamBlockSize) ∧
      s.2.length + n * streamBlockSize ≤ cap)
    (fun _ _ _ => nofun)
    (fun b n pos s hs hpos => decompressRows_pass hundo (BlockTables.pos_le hstart hpos) hs.1 hs.2)
    0 n start (none, []) ⟨nofun, by simpa using hroom⟩ rfl
  exact hloop.trans ⟨fun h b hb => h b (Nat.zero_le b) (by omega),
    fun h b _ hb => h b (by omega)⟩

/-- The loop of the decoder of two tables. -/
theorem decompressHalves_ne_oob_iff {src : List UInt8} {cap hiBase start n : Nat}
    (hstart : start ≤ src.length) (hroom : n * streamBlockSize ≤ cap) :
    decompressHalves src cap 4 hiBase 0 n start [] ≠ .error .oob ↔
      ∀ b < n, BlockTables.TypesInside ⟨aiBits, [4, hiBase], streamBlockSize / 2, start⟩ src b := by
  have hloop := @blockLoop_ne_oob_iff ⟨aiBits, [4, hiBase], streamBlockSize / 2, start⟩ src
    (List UInt8) (decompressHalves src cap 4 hiBase)
    (fun n out => out.length + n * streamBlockSize ≤ cap) (fun _ _ _ => nofun)
    (fun b n pos out hout hpos => decompressHalves_pass (BlockTables.pos_le hstart hpos) hout)
    0 n start [] (by simpa using hroom) rfl
  exact hloop.trans ⟨fun h b hb => h b (Nat.zero_le b) (by omega),
    fun h b _ hb => h b (by omega)⟩

theorem BlockDecoder.loop_ne_oob_iff {d : BlockDecoder} {src : List UInt8} {cap : Nat}
    (h : d.Accepts src cap) :
    d.loop src cap ≠ .error .oob ↔ ∀ b < storedBlocks src, (d.tables src).TypesInside src b := by
  cases d with
  | blockClass => exact decompressRows_ne_oob_iff rowCoding_id.length_step h.tables h.room
  | split16 => exact decompressHalves_ne_oob_iff h.tables h.room
  | int8 => exact decompressRows_ne_oob_iff rowCoding_xorPrev.length_step h.tables h.room

theorem BlockDecoder.length_of_loop {d : BlockDecoder} {src out : List UInt8} {cap : Nat}
    (h : d.loop src cap = .ok out) : out.length = storedBlocks src * streamBlockSize := by
  rw [← Nat.zero_add (storedBlocks src * streamBlockSize)]
  cases d with
  | blockClass =>
      exact length_of_decompressRows rowCoding_id.length_step (fun _ hq => by cases hq) h
  | split16 => exact length_of_decompressHalves h
  | int8 =>
      exact length_of_decompressRows rowCoding_xorPrev.length_step (fun _ hq => by cases hq) h

/-- Tables of the size that the encoders give them hold the types of all blocks. -/
theorem BlockDecoder.typesInside_of_header {d : BlockDecoder} {src : List UInt8} {cap : Nat}
    (h : d.Accepts src cap) (hheader : storedBlocks src * 3 ≤ 8 * storedHeader src) {b : Nat}
    (hb : b < storedBlocks src) : (d.tables src).TypesInside src b := by
  intro _ base hbase
  have htables := h.tables
  cases d with
  | blockClass | int8 =>
      obtain rfl := List.mem_singleton.1 hbase
      simp only [tables] at htables
      unfold TypeInside
      omega
  | split16 =>
      simp only [tables] at htables
      obtain rfl | rfl : base = 4 ∨ base = 4 + storedHeader src := by simpa [tables] using hbase
      · unfold TypeInside
        omega
      · unfold TypeInside
        omega

/-- **Blocks**: a decoder of blocks keeps to its buffers exactly when the source fails a check,
or the types of each block that its loop comes to lie in the source. -/
theorem BlockDecoder.decompress_inside_iff (d : BlockDecoder) (src : List UInt8) (cap : Nat) :
    DecodesInside cap (storedBlocks src * streamBlockSize) (d.decompress src cap) ↔
      (d.Accepts src cap → ∀ b < storedBlocks src, (d.tables src).TypesInside src b) := by
  rw [d.decompress_eq]
  by_cases hacc : d.Accepts src cap
  · rw [if_pos hacc, decodesInside_iff, loop_ne_oob_iff hacc]
    · exact ⟨fun h _ => h, fun h => h hacc⟩
    · intro out hout
      rw [length_of_loop hout]
      exact ⟨rfl, hacc.room⟩
  · rw [if_neg hacc]
    exact iff_of_true (decodesInside_zero cap _) fun h => absurd h hacc

/-- One block, and no table: its type is read behind a source of four bytes. -/
theorem not_decompress_inside :
    ¬ ∃ d : BlockDecoder, ∀ (src : List UInt8) (cap : Nat),
      DecodesInside cap (storedBlocks src * streamBlockSize) (d.decompress src cap) := by
  rintro ⟨d, h⟩
  have hrun : d.decompress [1, 0, 0, 0] 64 = .error .oob := by
    cases d <;> decide
  have hinside := h [1, 0, 0, 0] 64
  rw [hrun] at hinside
  exact not_decodesInside_oob _ _ hinside

end MiniMem
