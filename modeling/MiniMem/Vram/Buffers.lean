import Mathlib.Data.List.Perm.Basic
import Mathlib.Logic.Function.Basic
import MiniMem.Compressors.AiWeights

/-!
# MiniMem.Vram.Buffers

The registry of weight buffers, `minimem_vram.c`.  A buffer is registered by
its address and size, compressed in place of its tier `HOT` into a copy on
the heap, and decompressed from that copy again:

```
register → HOT ── compress_buf(tier) → WARM, COLD or FROZEN ── decompress_buf → HOT
```

The memory of the program is flat.  The blocks that `malloc` gives out are
kept by their handles, so that a block that nobody frees stays visible.
-/

namespace MiniMem

/-! ## Swap and remove -/

section SwapRemove

variable {α : Type*}

/-- The last element moves into the place of the one at `i`. -/
def swapRemove (l : List α) (i : Nat) : List α :=
  let l' := if i < l.length - 1 then
    match l.getLast? with
    | some last => l.set i last
    | none => l
  else l
  l'.dropLast

/-- `swapRemove` takes out one element and keeps the others. -/
theorem perm_swapRemove {l : List α} {i : Nat} (hi : i < l.length) :
    l.Perm (l[i] :: swapRemove l i) := by
  have hne : l ≠ [] := List.ne_nil_of_length_pos (Nat.zero_lt_of_lt hi)
  unfold swapRemove
  by_cases hlast : i < l.length - 1
  · rw [if_pos hlast, List.getLast?_eq_some_getLast hne]
    have hset : (l.set i (l.getLast hne)).Perm (l.getLast hne :: l.eraseIdx i) :=
      List.set_perm_cons_eraseIdx hi _
    have hend : (l.set i (l.getLast hne)).getLast? = some (l.getLast hne) := by
      rw [List.getLast?_eq_getElem?, List.length_set, List.getElem?_set_ne (by omega),
        ← List.getLast?_eq_getElem?, List.getLast?_eq_some_getLast hne]
    have hsplit := List.dropLast_append_getLast? _ hend
    have hrest : (l.set i (l.getLast hne)).dropLast.Perm (l.eraseIdx i) := by
      rw [← List.perm_cons (l.getLast hne)]
      refine List.Perm.trans ?_ hset
      refine (List.perm_append_singleton _ _).symm.trans ?_
      rw [hsplit]
    exact (List.getElem_cons_eraseIdx_perm hi).symm.trans (hrest.symm.cons _)
  · have heq : i = l.length - 1 := by omega
    have hat : l[i] = l.getLast hne := by
      subst heq
      exact (List.getLast_eq_getElem hne).symm
    rw [if_neg hlast, hat]
    dsimp only
    refine List.Perm.trans ?_ (List.perm_append_singleton _ _)
    rw [List.dropLast_append_getLast hne]

end SwapRemove

/-! ## Records -/

/-- `enum minimem_vram_tier`. -/
inductive VramTier where
  | hot
  | warm
  | cold
  | frozen
  deriving DecidableEq, Repr

/-- `enum minimem_vram_weight_format`. -/
inductive VramFormat where
  | fp32
  | fp16
  | bf16
  | int8
  | int4
  | unknown
  deriving DecidableEq, Repr

/-- `weight_fmt_to_algo`: `MINIMEM_ALGO_AI_FP16`, `MINIMEM_ALGO_AI_BF16`,
`MINIMEM_ALGO_AI_INT8` or `MINIMEM_ALGO_LZ4`. -/
def weightFmtToAlgo : VramFormat → Nat
  | .fp16 => 9
  | .bf16 => 10
  | .int8 => 11
  | _ => 3

/-- `weight_fmt_to_ai_fmt`. -/
def weightFmtToAiFmt : VramFormat → AiFormat
  | .fp16 => .fp16
  | .bf16 => .bf16
  | .int8 => .int8
  | _ => .fp16

/-- `struct minimem_vram_buf`. -/
structure VramBuf where
  ptr : Nat
  compressedPtr : Option Nat
  size : Nat
  compressedSize : Nat
  algoId : Nat
  weightFormat : VramFormat
  tier : VramTier
  isDevice : Bool
  lastAccessNs : UInt64
  compressNs : UInt64
  decompressNs : UInt64
  deriving DecidableEq, Repr

/-- `struct minimem_vram_stats`. -/
structure VramStats where
  nBufs : UInt64
  totalVramBytes : UInt64
  totalCompressedBytes : UInt64
  totalSavedBytes : UInt64
  compressCount : UInt64
  decompressCount : UInt64
  compressNsTotal : UInt64
  decompressNsTotal : UInt64
  deriving DecidableEq, Repr

/-- `struct minimem_vram_ctx`, with the first `n_bufs` of its records. -/
structure VramCtx where
  bufs : List VramBuf
  cap : Nat
  stats : VramStats
  deriving DecidableEq, Repr

/-- `minimem_vram_ctx_create`, with the outcomes of its two allocations. -/
def vramCtxCreate (ctx bufs : Bool) (initialCap : Nat) : Option VramCtx :=
  if ctx = false then none
  else if bufs = false then none
  else some ⟨[], if initialCap > 0 then initialCap else 64, ⟨0, 0, 0, 0, 0, 0, 0, 0⟩⟩

/-! ## Memory -/

/-- A context, the memory of the program and the blocks from `malloc`. -/
structure Vram where
  ctx : VramCtx
  mem : Nat → UInt8
  heap : Nat → Option (List UInt8)
  next : Nat

/-- The `len` bytes at an address. -/
def readMem (mem : Nat → UInt8) (ptr len : Nat) : List UInt8 :=
  (List.range len).map fun i => mem (ptr + i)

/-- `bs` written to an address. -/
def writeMem (mem : Nat → UInt8) (ptr : Nat) (bs : List UInt8) : Nat → UInt8 := fun addr =>
  if addr < ptr then mem addr else bs.getD (addr - ptr) (mem addr)

/-- `malloc` of a block; its handle is `s.next`. -/
def Vram.malloc (s : Vram) (block : List UInt8) : Vram :=
  { s with heap := Function.update s.heap s.next (some block), next := s.next + 1 }

/-- `free`, of a block or of the null pointer. -/
def Vram.free (s : Vram) : Option Nat → Vram
  | none => s
  | some ptr => { s with heap := Function.update s.heap ptr none }

/-- A record replaced. -/
def Vram.setBuf (s : Vram) (idx : Nat) (buf : VramBuf) : Vram :=
  { s with ctx := { s.ctx with bufs := s.ctx.bufs.set idx buf } }

/-- The counters replaced. -/
def Vram.setStats (s : Vram) (stats : VramStats) : Vram :=
  { s with ctx := { s.ctx with stats := stats } }

/-! ## Operations -/

/-- `minimem_ai_weights_compress` and `minimem_ai_weights_decompress`, or what stands for
them. -/
structure WeightCodec where
  compress : List UInt8 → List UInt8 → Nat → AiFormat → Except Stop OutCursor
  decompress : List UInt8 → Nat → AiFormat → Except Stop (List UInt8)

/-- The codec of `ai_weights.c`. -/
def aiWeights : WeightCodec := ⟨aiWeightsCompress, aiWeightsDecompress⟩

/-- `minimem_vram_register`, with the outcome of `realloc`. -/
def vramRegister (realloc : Bool) (now : UInt64) (ptr size : Nat) (fmt : VramFormat)
    (isDevice : Bool) (s : Vram) : Int × Vram :=
  if ptr = 0 then (-1, s)
  else if s.ctx.bufs.length ≥ s.ctx.cap ∧ realloc = false then (-1, s)
  else
    let cap := if s.ctx.bufs.length ≥ s.ctx.cap then s.ctx.cap * 2 else s.ctx.cap
    let buf := ⟨ptr, none, size, 0, weightFmtToAlgo fmt, fmt, .hot, isDevice, now, 0, 0⟩
    let stats := { s.ctx.stats with
      nBufs := s.ctx.stats.nBufs + 1,
      totalVramBytes := s.ctx.stats.totalVramBytes + .ofNat size }
    (0, { s with ctx := ⟨s.ctx.bufs ++ [buf], cap, stats⟩ })

/-- `minimem_vram_buf_index`. -/
def vramBufIndex (s : Vram) (ptr : Nat) : Option Nat :=
  if ptr = 0 then none else s.ctx.bufs.findIdx? fun buf => buf.ptr == ptr

/-- `minimem_vram_find_buf`. -/
def vramFindBuf (s : Vram) (ptr : Nat) : Option VramBuf :=
  match vramBufIndex s ptr with
  | none => none
  | some idx => s.ctx.bufs[idx]?

/-- `minimem_vram_unregister`. -/
def vramUnregister (ptr : Nat) (s : Vram) : Int × Vram :=
  if ptr = 0 then (-1, s)
  else
    match s.ctx.bufs.findIdx? fun buf => buf.ptr == ptr with
    | none => (-1, s)
    | some i =>
        match s.ctx.bufs[i]? with
        | none => (-1, s)
        | some buf =>
            let stats := { s.ctx.stats with
              totalVramBytes := s.ctx.stats.totalVramBytes - .ofNat buf.size,
              nBufs := s.ctx.stats.nBufs - 1 }
            (0, { s.free buf.compressedPtr with
              ctx := { s.ctx with bufs := swapRemove s.ctx.bufs i, stats := stats } })

/-- The outcome of the `malloc` of `minimem_vram_compress_buf`, with what the block holds, and
the readings of the clock. -/
structure CompressEnv where
  malloc : Option (Nat → UInt8)
  start : UInt64
  stop : UInt64

/-- The end of `minimem_vram_compress_buf`, where the copy is smaller than the buffer. -/
def Vram.storeCopy (s : Vram) (env : CompressEnv) (idx : Nat) (buf : VramBuf) (c : OutCursor)
    (targetTier : VramTier) : Vram :=
  let stats := { s.ctx.stats with
    totalCompressedBytes := s.ctx.stats.totalCompressedBytes + .ofNat c.out,
    totalSavedBytes := s.ctx.stats.totalSavedBytes + .ofNat (buf.size - c.out),
    compressCount := s.ctx.stats.compressCount + 1,
    compressNsTotal := s.ctx.stats.compressNsTotal + (env.stop - env.start) }
  ((s.malloc c.dst).setBuf idx { buf with
    compressedPtr := some s.next, compressedSize := c.out, tier := targetTier,
    compressNs := env.stop - env.start }).setStats stats

/-- `minimem_vram_compress_buf` from its `malloc` on, which gave out a block that holds
`fresh`. -/
def vramCompressInto (codec : WeightCodec) (env : CompressEnv) (idx : Nat) (buf : VramBuf)
    (fresh : Nat → UInt8) (targetTier : VramTier) (s : Vram) : Except Stop (Int × Vram) :=
  let bound := aiWeightsCompressBound buf.size
  match codec.compress (readMem s.mem buf.ptr buf.size) (readMem fresh 0 bound) bound
    (weightFmtToAiFmt buf.weightFormat) with
  | .error .oob => .error .oob
  | .error .zero => .ok (-1, s)
  | .ok c =>
      if c.out = 0 ∨ c.out ≥ buf.size then .ok (-1, s)
      else .ok (0, s.storeCopy env idx buf c targetTier)

/-- `minimem_vram_compress_buf`. -/
def vramCompressBuf (codec : WeightCodec) (env : CompressEnv) (idx : Nat) (targetTier : VramTier)
    (s : Vram) : Except Stop (Int × Vram) :=
  match s.ctx.bufs[idx]? with
  | none => .ok (-1, s)
  | some buf =>
      if buf.tier ≠ .hot then .ok (-1, s)
      else if buf.isDevice = true ∧ targetTier ≠ .warm then .ok (-1, s)
      else
        match env.malloc with
        | none => .ok (-1, s)
        | some fresh => vramCompressInto codec env idx buf fresh targetTier s

/-- The readings of the clock in `minimem_vram_decompress_buf`. -/
structure DecompressEnv where
  start : UInt64
  stop : UInt64
  now : UInt64

/-- The end of `minimem_vram_decompress_buf`, where the whole buffer has come back. -/
def Vram.restoreBuf (s : Vram) (env : DecompressEnv) (idx : Nat) (buf : VramBuf) (ptr : Nat) :
    Vram :=
  let stats := { s.ctx.stats with
    decompressCount := s.ctx.stats.decompressCount + 1,
    decompressNsTotal := s.ctx.stats.decompressNsTotal + (env.stop - env.start) }
  ((s.free (some ptr)).setBuf idx { buf with
    compressedPtr := none, compressedSize := 0, tier := .hot,
    decompressNs := env.stop - env.start, lastAccessNs := env.now }).setStats stats

/-- `minimem_vram_decompress_buf`. -/
def vramDecompressBuf (codec : WeightCodec) (env : DecompressEnv) (idx : Nat) (s : Vram) :
    Except Stop (Int × Vram) :=
  match s.ctx.bufs[idx]? with
  | none => .ok (-1, s)
  | some buf =>
      if buf.tier = .hot then .ok (-1, s)
      else
        match buf.compressedPtr with
        | none => .ok (-1, s)
        | some ptr =>
            if buf.compressedSize = 0 then .ok (-1, s)
            else
              match s.heap ptr with
              | none => .error .oob
              | some block =>
                  match codec.decompress (block.take buf.compressedSize) buf.size
                    (weightFmtToAiFmt buf.weightFormat) with
                  | .error .oob => .error .oob
                  | .error .zero => .ok (-1, s)
                  | .ok out =>
                      let s := { s with mem := writeMem s.mem buf.ptr out }
                      if out.length ≠ buf.size then .ok (-1, s)
                      else .ok (0, s.restoreBuf env idx buf ptr)

/-- The condition of the loop of `minimem_vram_compress_all_idle`. -/
def VramBuf.idle (buf : VramBuf) (cutoff : UInt64) : Bool :=
  buf.tier == .hot && decide (buf.lastAccessNs < cutoff)

/-- The loop of `minimem_vram_compress_all_idle` from record `i` on, with `n` of them to go. -/
def compressIdleFrom (codec : WeightCodec) (envs : Nat → CompressEnv) (cutoff : UInt64)
    (targetTier : VramTier) : Nat → Nat → Int → Vram → Except Stop (Int × Vram)
  | 0, _, compressed, s => .ok (compressed, s)
  | n + 1, i, compressed, s =>
      match s.ctx.bufs[i]? with
      | none => .error .oob
      | some buf =>
          if buf.idle cutoff = true then
            match vramCompressBuf codec (envs i) i targetTier s with
            | .error stop => .error stop
            | .ok (ret, s) =>
                compressIdleFrom codec envs cutoff targetTier n (i + 1)
                  (if ret = 0 then compressed + 1 else compressed) s
          else compressIdleFrom codec envs cutoff targetTier n (i + 1) compressed s

/-- `minimem_vram_compress_all_idle`. -/
def vramCompressAllIdle (codec : WeightCodec) (envs : Nat → CompressEnv) (now : UInt64)
    (idleThresholdNs : UInt64) (targetTier : VramTier) (s : Vram) : Except Stop (Int × Vram) :=
  compressIdleFrom codec envs (now - idleThresholdNs) targetTier s.ctx.bufs.length 0 0 s

/-- `minimem_vram_touch`. -/
def vramTouch (now : UInt64) (idx : Nat) (s : Vram) : Vram :=
  match s.ctx.bufs[idx]? with
  | none => s
  | some buf => s.setBuf idx { buf with lastAccessNs := now }

/-- The loop of `minimem_vram_ctx_destroy`, with the blocks that it leaves.  It stops where it
frees a block that is not there. -/
def vramCtxDestroy : List VramBuf → (Nat → Option (List UInt8)) →
    Except Stop (Nat → Option (List UInt8))
  | [], heap => .ok heap
  | buf :: bufs, heap =>
      match buf.compressedPtr with
      | none => vramCtxDestroy bufs heap
      | some ptr =>
          if (heap ptr).isSome = true then vramCtxDestroy bufs (Function.update heap ptr none)
          else .error .oob

/-! ## Memory lemmas -/

@[simp] theorem length_readMem (mem : Nat → UInt8) (ptr len : Nat) :
    (readMem mem ptr len).length = len := by
  rw [readMem, List.length_map, List.length_range]

/-- Writing back what was read changes nothing. -/
theorem writeMem_readMem (mem : Nat → UInt8) (ptr len : Nat) :
    writeMem mem ptr (readMem mem ptr len) = mem := by
  funext addr
  unfold writeMem
  split
  · rfl
  next hge =>
    rw [List.getD_eq_getElem?_getD]
    by_cases hlt : addr - ptr < len
    · rw [List.getElem?_eq_getElem (by rw [length_readMem]; exact hlt), Option.getD_some]
      unfold readMem
      rw [List.getElem_map, List.getElem_range]
      congr 1
      omega
    · rw [List.getElem?_eq_none (by rw [length_readMem]; omega), Option.getD_none]

/-! ## What the operations can do -/

/-- The codec makes a copy of the buffer at `idx` that is smaller than it, and the call goes on
to keep it. -/
structure CompressesTo (codec : WeightCodec) (env : CompressEnv) (idx : Nat)
    (targetTier : VramTier) (s : Vram) (buf : VramBuf) (c : OutCursor) : Prop where
  record : s.ctx.bufs[idx]? = some buf
  hot : buf.tier = .hot
  device : buf.isDevice = true → targetTier = .warm
  copy : ∃ fresh, env.malloc = some fresh ∧
    codec.compress (readMem s.mem buf.ptr buf.size)
      (readMem fresh 0 (aiWeightsCompressBound buf.size)) (aiWeightsCompressBound buf.size)
      (weightFmtToAiFmt buf.weightFormat) = .ok c
  pos : 0 < c.out
  lt : c.out < buf.size

section Operations

variable {codec : WeightCodec} {idx : Nat} {targetTier : VramTier} {s s' : Vram} {ret : Int}

/-- The call gets as far as the codec. -/
structure ReachesCodec (env : CompressEnv) (idx : Nat) (targetTier : VramTier) (s : Vram)
    (buf : VramBuf) (fresh : Nat → UInt8) : Prop where
  record : s.ctx.bufs[idx]? = some buf
  hot : buf.tier = .hot
  device : buf.isDevice = true → targetTier = .warm
  malloc : env.malloc = some fresh

theorem ReachesCodec.eq {env : CompressEnv} {buf : VramBuf} {fresh : Nat → UInt8}
    (h : ReachesCodec env idx targetTier s buf fresh) :
    vramCompressBuf codec env idx targetTier s
      = vramCompressInto codec env idx buf fresh targetTier s := by
  unfold vramCompressBuf
  rw [h.record]
  dsimp only
  rw [if_neg (not_not_intro h.hot), if_neg fun hboth => hboth.2 (h.device hboth.1), h.malloc]

/-- A call of `minimem_vram_compress_buf` gets as far as the codec or changes nothing. -/
theorem vramCompressBuf_reaches (codec : WeightCodec) (env : CompressEnv) (idx : Nat)
    (targetTier : VramTier) (s : Vram) :
    (∃ buf fresh, ReachesCodec env idx targetTier s buf fresh) ∨
      (vramCompressBuf codec env idx targetTier s = .ok (-1, s) ∧
        ∀ buf fresh, ¬ReachesCodec env idx targetTier s buf fresh) := by
  unfold vramCompressBuf
  split
  next hbuf =>
    refine .inr ⟨rfl, fun buf fresh h => ?_⟩
    have hrecord := h.record
    rw [hbuf] at hrecord
    cases hrecord
  next buf hbuf =>
    have hsame : ∀ {buf' fresh}, ReachesCodec env idx targetTier s buf' fresh → buf' = buf := by
      intro buf' fresh h
      have hrecord := h.record
      rw [hbuf] at hrecord
      injection hrecord with hrecord
      exact hrecord.symm
    split
    next hhot => exact .inr ⟨rfl, fun buf' fresh h => hhot (by rw [← hsame h, h.hot])⟩
    next hhot =>
      split
      next hdevice =>
        refine .inr ⟨rfl, fun buf' fresh h => hdevice.2 (h.device ?_)⟩
        rw [hsame h, hdevice.1]
      next hdevice =>
        split
        next hmalloc =>
          refine .inr ⟨rfl, fun buf' fresh h => ?_⟩
          have hfresh := h.malloc
          rw [hmalloc] at hfresh
          cases hfresh
        next fresh hmalloc =>
          refine .inl ⟨buf, fresh, hbuf, not_not.1 hhot, fun hdev => ?_, hmalloc⟩
          by_contra hne
          exact hdevice ⟨hdev, hne⟩

/-- The codec is given one buffer only. -/
theorem CompressesTo.compress_eq {env : CompressEnv} {buf buf' : VramBuf} {fresh : Nat → UInt8}
    {c : OutCursor} (hc : CompressesTo codec env idx targetTier s buf' c)
    (h : ReachesCodec env idx targetTier s buf fresh) :
    buf' = buf ∧ codec.compress (readMem s.mem buf.ptr buf.size)
      (readMem fresh 0 (aiWeightsCompressBound buf.size)) (aiWeightsCompressBound buf.size)
      (weightFmtToAiFmt buf.weightFormat) = .ok c := by
  have hsame := hc.record
  rw [h.record] at hsame
  injection hsame with hsame
  obtain ⟨fresh', hfresh, hcopy⟩ := hc.copy
  rw [h.malloc] at hfresh
  injection hfresh with hfresh
  rw [← hsame, ← hfresh] at hcopy
  exact ⟨hsame.symm, hcopy⟩

/-- A call of `minimem_vram_compress_buf` that returns has stored the copy that it makes, or it
makes none and changes nothing. -/
theorem vramCompressBuf_cases {env : CompressEnv}
    (h : vramCompressBuf codec env idx targetTier s = .ok (ret, s')) :
    (∃ buf c, CompressesTo codec env idx targetTier s buf c ∧ ret = 0 ∧
      s' = s.storeCopy env idx buf c targetTier) ∨
    (ret = -1 ∧ s' = s ∧ ∀ buf c, ¬CompressesTo codec env idx targetTier s buf c) := by
  have hfail : (.ok (-1, s) : Except Stop (Int × Vram)) = .ok (ret, s') → ret = -1 ∧ s' = s := by
    intro heq
    injection heq with heq
    injection heq with hret hs
    exact ⟨hret.symm, hs.symm⟩
  rcases vramCompressBuf_reaches codec env idx targetTier s with ⟨buf, fresh, hreach⟩ |
    ⟨heq, hnone⟩
  · rw [hreach.eq] at h
    unfold vramCompressInto at h
    dsimp only at h
    split at h
    · cases h
    next hzero =>
      refine .inr ⟨(hfail h).1, (hfail h).2, fun buf' c hc => ?_⟩
      rw [(hc.compress_eq hreach).2] at hzero
      cases hzero
    next c hok =>
      split at h
      next hsize =>
        refine .inr ⟨(hfail h).1, (hfail h).2, fun buf' c' hc => ?_⟩
        obtain ⟨hsame, hok'⟩ := hc.compress_eq hreach
        rw [hok] at hok'
        injection hok' with hok'
        have hpos := hc.pos
        have hlt := hc.lt
        rw [← hok'] at hpos hlt
        rw [hsame] at hlt
        omega
      next hsize =>
        injection h with h
        injection h with hret hs
        exact .inl ⟨buf, c, ⟨hreach.record, hreach.hot, hreach.device, ⟨fresh, hreach.malloc, hok⟩,
          by omega, by omega⟩, hret.symm, hs.symm⟩
  · rw [heq] at h
    refine .inr ⟨(hfail h).1, (hfail h).2, fun buf c hc => ?_⟩
    obtain ⟨fresh, hmalloc, -⟩ := hc.copy
    exact hnone buf fresh ⟨hc.record, hc.hot, hc.device, hmalloc⟩

/-- A call that gets as far as the codec does not return when the codec goes outside a
buffer. -/
theorem ReachesCodec.eq_error_iff {env : CompressEnv} {buf : VramBuf} {fresh : Nat → UInt8}
    (h : ReachesCodec env idx targetTier s buf fresh) :
    (∃ r, vramCompressBuf codec env idx targetTier s = .ok r) ↔
      codec.compress (readMem s.mem buf.ptr buf.size)
        (readMem fresh 0 (aiWeightsCompressBound buf.size)) (aiWeightsCompressBound buf.size)
        (weightFmtToAiFmt buf.weightFormat) ≠ .error .oob := by
  rw [h.eq]
  unfold vramCompressInto
  dsimp only
  split
  next hoob => exact iff_of_false nofun fun hne => hne hoob
  next hzero =>
    rw [hzero]
    exact iff_of_true ⟨_, rfl⟩ nofun
  next c hok =>
    rw [hok]
    refine iff_of_true ?_ nofun
    split
    · exact ⟨_, rfl⟩
    · exact ⟨_, rfl⟩

/-- The copy behind a record comes back. -/
structure DecompressesTo (codec : WeightCodec) (idx : Nat) (s : Vram) (buf : VramBuf) (ptr : Nat)
    (out : List UInt8) : Prop where
  record : s.ctx.bufs[idx]? = some buf
  tier : buf.tier ≠ .hot
  held : buf.compressedPtr = some ptr
  size : buf.compressedSize ≠ 0
  copy : ∃ block, s.heap ptr = some block ∧
    codec.decompress (block.take buf.compressedSize) buf.size (weightFmtToAiFmt buf.weightFormat)
      = .ok out
  length : out.length = buf.size

/-- What comes back is written over the buffer. -/
theorem DecompressesTo.eq_ok {buf : VramBuf} {ptr : Nat} {out : List UInt8}
    (h : DecompressesTo codec idx s buf ptr out) (env : DecompressEnv) :
    vramDecompressBuf codec env idx s
      = .ok (0, { s with mem := writeMem s.mem buf.ptr out }.restoreBuf env idx buf ptr) := by
  obtain ⟨block, hblock, hout⟩ := h.copy
  unfold vramDecompressBuf
  rw [h.record]
  dsimp only
  rw [if_neg h.tier, h.held]
  dsimp only
  rw [if_neg h.size, hblock]
  dsimp only
  rw [hout]
  dsimp only
  rw [if_neg (not_not_intro h.length)]

/-- A call of `minimem_vram_decompress_buf` that returns has brought the buffer back, or
it changes nothing but what the decoder may have written. -/
theorem vramDecompressBuf_cases {env : DecompressEnv}
    (h : vramDecompressBuf codec env idx s = .ok (ret, s')) :
    (∃ buf ptr out, DecompressesTo codec idx s buf ptr out ∧ ret = 0 ∧
      s' = { s with mem := writeMem s.mem buf.ptr out }.restoreBuf env idx buf ptr) ∨
    (ret = -1 ∧ ∃ mem, s' = { s with mem := mem }) := by
  have hfail : ∀ {mem}, (.ok (-1, { s with mem := mem }) : Except Stop (Int × Vram))
      = .ok (ret, s') → ret = -1 ∧ ∃ mem, s' = { s with mem := mem } := by
    intro mem h
    injection h with h
    injection h with hret hs
    exact ⟨hret.symm, mem, hs.symm⟩
  unfold vramDecompressBuf at h
  split at h
  · exact .inr (hfail h)
  next buf hbuf =>
    split at h
    · exact .inr (hfail h)
    next htier =>
      split at h
      · exact .inr (hfail h)
      next ptr hptr =>
        split at h
        · exact .inr (hfail h)
        next hsize =>
          split at h
          · cases h
          next block hblock =>
            split at h
            · cases h
            · exact .inr (hfail h)
            next out hout =>
              dsimp only at h
              split at h
              · exact .inr (hfail h)
              next hlength =>
                injection h with h
                injection h with hret hs
                exact .inl ⟨buf, ptr, out, ⟨hbuf, htier, hptr, hsize, ⟨block, hblock, hout⟩,
                  not_not.1 hlength⟩, hret.symm, hs.symm⟩

end Operations

end MiniMem
