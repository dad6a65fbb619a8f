import MiniMem.Vram.Tiers

/-!
# MiniMem.Vram.Transparency

The memory of the program across a run.  The registry keeps its copies beside
the buffers, and `decompress_buf` writes a copy back over its buffer.  That
changes nothing as long as the copy is one of what the buffer holds:

```
compress_buf    copy = codec (mem at buf)
write           mem at buf may differ from copy
decompress_buf  mem at buf = copy
```

A program that writes to a buffer out of its tier `HOT` loses the write, and
this is the only way in which the registry can be seen.  At its end the
registry frees the copies that it still holds.
-/

namespace MiniMem

/-! ## Copies of what is there -/

/-- The copy of a record that is not `HOT` is one of what its buffer holds in `mem`. -/
def CopyOf (codec : WeightCodec) (mem : Nat → UInt8) (heap : Nat → Option (List UInt8))
    (buf : VramBuf) : Prop :=
  buf.tier ≠ .hot → ∀ ptr, buf.compressedPtr = some ptr → ∃ block, heap ptr = some block ∧
    codec.decompress (block.take buf.compressedSize) buf.size (weightFmtToAiFmt buf.weightFormat)
      = .ok (readMem mem buf.ptr buf.size)

/-- The copies are in order and all of what the buffers hold. -/
structure CurrentInv (codec : WeightCodec) (mem : Nat → UInt8) (bufs : List VramBuf)
    (heap : Nat → Option (List UInt8)) (next : Nat) : Prop where
  copies : CopyInv codec bufs heap next
  current : ∀ buf ∈ bufs, CopyOf codec mem heap buf

section Copies

variable {codec : WeightCodec} {mem : Nat → UInt8} {bufs rest : List VramBuf} {buf : VramBuf}
  {heap heap' : Nat → Option (List UInt8)} {next : Nat}

theorem CopyOf.of_eq (h : CopyOf codec mem heap buf)
    (heq : ∀ ptr, buf.compressedPtr = some ptr → heap' ptr = heap ptr) :
    CopyOf codec mem heap' buf := by
  intro htier ptr hptr
  rw [heq ptr hptr]
  exact h htier ptr hptr

/-- No other record holds the block of the first one. -/
theorem CopyInv.ne_head (h : CopyInv codec (buf :: rest) heap next) {ptr : Nat}
    (hptr : buf.compressedPtr = some ptr) {buf' : VramBuf} (hmem : buf' ∈ rest) :
    buf'.compressedPtr ≠ some ptr := by
  intro hptr'
  have hle := h.holders ptr
  have hpos := holderCount_pos_of_mem hmem hptr'
  rw [holderCount_cons, if_pos hptr] at hle
  omega

theorem CurrentInv.recordInv (codec : WeightCodec) (mem : Nat → UInt8) :
    RecordInv (CurrentInv codec mem) where
  perm h hperm := ⟨h.copies.perm hperm, fun buf hmem => h.current buf (hperm.mem_iff.2 hmem)⟩
  release := by
    intro buf rest heap next h
    refine ⟨h.copies.release, fun buf' hmem => ?_⟩
    refine (h.current buf' (List.mem_cons_of_mem buf hmem)).of_eq fun ptr hptr => ?_
    cases hheld : buf.compressedPtr with
    | none => simp [freeBlock]
    | some held =>
        have hne := h.copies.ne_head hheld hmem
        rw [hptr] at hne
        rw [freeBlock, Function.update_of_ne fun heq => hne (congrArg some heq)]
  empty := by
    intro buf rest heap next h hhot hptr hsize
    refine ⟨h.copies.empty hptr hsize, List.forall_mem_cons.2 ⟨?_, h.current⟩⟩
    exact fun htier => absurd hhot htier
  touch := by
    intro buf rest heap next now h
    obtain ⟨hfirst, hrest⟩ := List.forall_mem_cons.1 h.current
    exact ⟨h.copies.touch rfl rfl rfl rfl, List.forall_mem_cons.2 ⟨hfirst, hrest⟩⟩

/-- A record with a copy of what its buffer holds comes in. -/
theorem CurrentInv.store (h : CurrentInv codec mem rest heap next) {block : List UInt8}
    (hptr : buf.compressedPtr = some next)
    (hstored : StoredCopy codec (Function.update heap next (some block)) buf)
    (hcopy : CopyOf codec mem (Function.update heap next (some block)) buf) :
    CurrentInv codec mem (buf :: rest) (Function.update heap next (some block)) (next + 1) := by
  refine ⟨h.copies.store hptr hstored, List.forall_mem_cons.2 ⟨hcopy, fun buf' hmem => ?_⟩⟩
  refine (h.current buf' hmem).of_eq fun ptr hptr' => Function.update_of_ne ?_ _ _
  intro heq
  rw [heq] at hptr'
  exact h.copies.ne_next hmem hptr'

end Copies

/-! ## Transparency -/

/-- The memory of the program is its own. -/
def VramLabel.writes : VramLabel → Bool
  | .write _ => true
  | _ => false

/-- Every copy is of what its buffer holds. -/
def CopiesCurrent (codec : WeightCodec) (s : Vram) : Prop :=
  CurrentInv codec s.mem s.ctx.bufs s.heap s.next

/-- No operation of the registry changes the memory of the program. -/
def Transparent (codec : WeightCodec) (s : Vram) : Prop :=
  ∀ label s', label.writes = false → vramStep codec s label = some s' → s'.mem = s.mem

/-- A write of the program leaves the buffers that are not `HOT` as they are. -/
def SparesCopies (s : Vram) : VramLabel → Prop
  | .write mem => ∀ buf ∈ s.ctx.bufs, buf.tier ≠ .hot → buf.compressedPtr ≠ none →
      readMem mem buf.ptr buf.size = readMem s.mem buf.ptr buf.size
  | _ => True

/-- What a memory does not notice being written to it is what it holds. -/
theorem readMem_of_writeMem {mem : Nat → UInt8} {ptr : Nat} {bs : List UInt8}
    (h : writeMem mem ptr bs = mem) : bs = readMem mem ptr bs.length := by
  refine List.ext_getElem (by simp) fun i hi hi' => ?_
  have hat := congrFun h (ptr + i)
  rw [writeMem, if_neg (by omega), Nat.add_sub_cancel_left, List.getD_eq_getElem?_getD,
    List.getElem?_eq_getElem hi, Option.getD_some] at hat
  simp [readMem, hat]

section Step

variable {codec : WeightCodec} {s s' : Vram} {label : VramLabel} {idx : Nat} {buf : VramBuf}

theorem CopiesSound.block (h : CopiesSound codec s) (hbuf : s.ctx.bufs[idx]? = some buf)
    {ptr : Nat} (hptr : buf.compressedPtr = some ptr) :
    buf.compressedSize ≠ 0 ∧ ∃ block out, s.heap ptr = some block ∧
      codec.decompress (block.take buf.compressedSize) buf.size (weightFmtToAiFmt buf.weightFormat)
        = .ok out ∧ out.length = buf.size :=
  StoredCopy.block (CopyInv.stored h buf (List.mem_of_getElem? hbuf)) hptr

/-- Storing a copy leaves the memory alone. -/
theorem mem_compressBuf {env : CompressEnv} {targetTier : VramTier} {ret : Int}
    (hcall : vramCompressBuf codec env idx targetTier s = .ok (ret, s')) : s'.mem = s.mem := by
  obtain ⟨buf, c, -, -, rfl⟩ | ⟨-, rfl, -⟩ := vramCompressBuf_cases hcall
  · rfl
  · rfl

/-- The copy of a buffer that comes back is of what it holds. -/
theorem CopiesCurrent.out_eq (h : CopiesCurrent codec s) {ptr : Nat} {out : List UInt8}
    (hd : DecompressesTo codec idx s buf ptr out) : out = readMem s.mem buf.ptr buf.size := by
  obtain ⟨block, hblock, hout⟩ := hd.copy
  obtain ⟨block', hblock', hout'⟩ :=
    CurrentInv.current h buf (List.mem_of_getElem? hd.record) hd.tier ptr hd.held
  simp only [hblock, Option.some.injEq] at hblock'
  rw [← hblock', hout] at hout'
  exact Except.ok.inj hout'

theorem CopiesCurrent.mem_decompressBuf (h : CopiesCurrent codec s) {env : DecompressEnv}
    {ret : Int} (hcall : vramDecompressBuf codec env idx s = .ok (ret, s')) : s'.mem = s.mem := by
  obtain ⟨buf, ptr, out, hd⟩ | hsame :=
    CopiesSound.decompressBuf_cases (CurrentInv.copies h) env idx
  · rw [hd.eq_ok env, h.out_eq hd, writeMem_readMem] at hcall
    simp only [Except.ok.injEq, Prod.mk.injEq] at hcall
    rw [← hcall.2]
    rfl
  · simp only [hsame, Except.ok.injEq, Prod.mk.injEq] at hcall
    rw [hcall.2]

/-- With copies of what is there the registry is not seen. -/
theorem CopiesCurrent.transparent (h : CopiesCurrent codec s) : Transparent codec s := by
  intro label s' hlabel hstep
  cases label with
  | register realloc now ptr size fmt isDevice =>
      rw [← Option.some.inj hstep]
      obtain hsame | ⟨buf, cap, stats, -, -, -, hnew⟩ :=
        vramRegister_cases realloc now ptr size fmt isDevice s
      · rw [hsame]
      · rw [hnew]
  | unregister ptr =>
      rw [← Option.some.inj hstep]
      obtain hsame | ⟨buf, rest, stats, -, hnew⟩ := vramUnregister_cases ptr s
      · rw [hsame]
      · rw [hnew]
        cases buf.compressedPtr <;> rfl
  | compressBuf env idx targetTier =>
      obtain ⟨ret, hcall⟩ := toOption_map_eq_some hstep
      exact mem_compressBuf hcall
  | compressAllIdle envs now idleThresholdNs targetTier =>
      obtain ⟨ret, hcall⟩ := toOption_map_eq_some hstep
      exact compressIdleFrom_invariant
        (fun _ _ _ _ hmem hcall => (mem_compressBuf hcall).trans hmem) hcall rfl
  | decompressBuf env idx =>
      obtain ⟨ret, hcall⟩ := toOption_map_eq_some hstep
      exact h.mem_decompressBuf hcall
  | touch now idx =>
      rw [← Option.some.inj hstep, vramTouch]
      split <;> rfl
  | write mem => cases hlabel

/-- The registry is not seen exactly when its copies are of what is there: a copy of anything
else would be written back by the next call of `minimem_vram_decompress_buf`. -/
theorem transparent_iff (h : CopiesSound codec s) :
    Transparent codec s ↔ CopiesCurrent codec s := by
  refine ⟨fun htransparent => ⟨h, fun buf hmem htier ptr hptr => ?_⟩, CopiesCurrent.transparent⟩
  obtain ⟨idx, hidx, hat⟩ := List.mem_iff_getElem.1 hmem
  have hbuf : s.ctx.bufs[idx]? = some buf := List.getElem?_eq_some_iff.2 ⟨hidx, hat⟩
  obtain ⟨hsize, block, out, hblock, hout, hlength⟩ := h.block hbuf hptr
  have hd : DecompressesTo codec idx s buf ptr out :=
    ⟨hbuf, htier, hptr, hsize, ⟨block, hblock, hout⟩, hlength⟩
  have hmem := htransparent (.decompressBuf ⟨0, 0, 0⟩ idx) _ rfl
    (by rw [vramStep, hd.eq_ok]; rfl)
  have hread : out = readMem s.mem buf.ptr out.length := readMem_of_writeMem hmem
  rw [hlength] at hread
  exact ⟨block, hblock, by rw [hout, hread]⟩

theorem CopiesCurrent.compressBuf (hcodec : codec.RoundTrips) (h : CopiesCurrent codec s)
    {env : CompressEnv} {targetTier : VramTier} {ret : Int}
    (hcall : vramCompressBuf codec env idx targetTier s = .ok (ret, s')) :
    CopiesCurrent codec s' := by
  obtain ⟨buf, c, hc, -, rfl⟩ | ⟨-, rfl, -⟩ := vramCompressBuf_cases hcall
  · have hperm := (CurrentInv.recordInv codec s.mem).perm h (perm_of_getElem? hc.record)
    have hrest : CurrentInv codec s.mem (s.ctx.bufs.eraseIdx idx) s.heap s.next :=
      ⟨hperm.copies.forget, (List.forall_mem_cons.1 hperm.current).2⟩
    refine (CurrentInv.recordInv codec s.mem).perm ?_ (set_perm_of_getElem? hc.record _).symm
    refine hrest.store rfl (hc.storedCopy hcodec rfl rfl rfl rfl) fun _ ptr hptr => ?_
    obtain ⟨fresh, -, hcopy⟩ := hc.copy
    have hback := hcodec _ _ _ _ _ (by simp) hcopy
    rw [length_readMem] at hback
    rw [← Option.some.inj hptr]
    exact ⟨c.dst, Function.update_self _ _ _, hback⟩
  · exact h

/-- Current copies stay current when what their buffers hold does. -/
theorem CopiesCurrent.write_iff (h : CopiesCurrent codec s) (mem : Nat → UInt8) :
    CopiesCurrent codec { s with mem := mem } ↔ SparesCopies s (.write mem) := by
  have hold := CurrentInv.current h
  constructor
  · intro hnew buf hmem htier hne
    obtain ⟨ptr, hptr⟩ := Option.ne_none_iff_exists'.1 hne
    obtain ⟨block, hblock, hout⟩ := hold buf hmem htier ptr hptr
    obtain ⟨block', hblock', hout'⟩ := CurrentInv.current hnew buf hmem htier ptr hptr
    simp only [hblock, Option.some.injEq] at hblock'
    rw [← hblock', hout] at hout'
    exact (Except.ok.inj hout').symm
  · intro hspares
    refine ⟨CurrentInv.copies h, fun buf hmem htier ptr hptr => ?_⟩
    obtain ⟨block, hblock, hout⟩ := hold buf hmem htier ptr hptr
    have hsame := hspares buf hmem htier (by simp [hptr])
    exact ⟨block, hblock, by rw [hout, hsame]⟩

/-- A step keeps the copies current exactly when it writes to none of their buffers. -/
theorem CopiesCurrent.step_iff (hcodec : codec.RoundTrips) (h : CopiesCurrent codec s)
    (hstep : vramStep codec s label = some s') :
    CopiesCurrent codec s' ↔ SparesCopies s label := by
  cases label with
  | write mem =>
      rw [← Option.some.inj hstep]
      exact h.write_iff mem
  | compressBuf env idx targetTier =>
      obtain ⟨ret, hcall⟩ := toOption_map_eq_some hstep
      exact iff_of_true (h.compressBuf hcodec hcall) trivial
  | compressAllIdle envs now idleThresholdNs targetTier =>
      obtain ⟨ret, hcall⟩ := toOption_map_eq_some hstep
      exact iff_of_true (compressIdleFrom_invariant
        (fun _ _ _ _ h' hcall' => h'.compressBuf hcodec hcall') hcall h) trivial
  | _ =>
      have hmem := h.transparent _ s' rfl hstep
      have hnext := (CurrentInv.recordInv codec s.mem).step h rfl hstep
      rw [← hmem] at hnext
      exact iff_of_true hnext trivial

end Step

/-! ## Whole runs -/

/-- **Transparency**: in a run from a new context every call returns and no operation of the
registry changes the memory of the program in any state reached, exactly when no compression
hands the codec a buffer of more than 64 whole blocks and the program itself changes no buffer
that is out of its tier `HOT`. -/
theorem transparent_along_iff {initialCap : Nat} {ctx : VramCtx}
    (hctx : vramCtxCreate true true initialCap = some ctx) (mem : Nat → UInt8)
    (labels : List VramLabel) :
    AlongAll (vramStep aiWeights) (Transparent aiWeights) ⟨ctx, mem, fun _ => none, 0⟩ labels ↔
      Guarded (vramStep aiWeights) (fun s label => FitsStep s label ∧ SparesCopies s label)
        ⟨ctx, mem, fun _ => none, 0⟩ labels := by
  have hcopies := copiesSound_new aiWeights hctx mem
  apply alongAll_iff_guarded (I := CopiesSound aiWeights)
  · intro s label s' h hstep
    exact h.step aiWeights_roundTrips hstep
  · intro s label htransparent h
    have hcurrent := (transparent_iff h).1 htransparent
    have hnext : ∀ s', vramStep aiWeights s label = some s' →
        (Transparent aiWeights s' ↔ SparesCopies s label) := by
      intro s' hstep
      rw [transparent_iff (h.step aiWeights_roundTrips hstep)]
      exact hcurrent.step_iff aiWeights_roundTrips hstep
    rw [← vramStep_isSome_iff h]
    constructor
    · rintro ⟨s', hstep, hs'⟩
      exact ⟨⟨s', hstep⟩, (hnext s' hstep).1 hs'⟩
    · rintro ⟨⟨s', hstep⟩, hspares⟩
      exact ⟨s', hstep, (hnext s' hstep).2 hspares⟩
  · rw [transparent_iff hcopies]
    refine ⟨hcopies, ?_⟩
    rw [← Option.some.inj hctx]
    exact nofun
  · exact hcopies

/-- The program fills a buffer before it is compressed. -/
theorem transparent_along_filled :
    AlongAll (vramStep aiWeights) (Transparent aiWeights)
      ⟨⟨[], 4, ⟨0, 0, 0, 0, 0, 0, 0, 0⟩⟩, fun _ => 0, fun _ => none, 0⟩
      [.register true 0 0x1000 64 .fp16 false, .write fun _ => 1,
        .compressBuf ⟨some fun _ => 0, 0, 0⟩ 0 .cold, .decompressBuf ⟨0, 0, 0⟩ 0] := by
  have hctx : vramCtxCreate true true 4 = some ⟨[], 4, ⟨0, 0, 0, 0, 0, 0, 0, 0⟩⟩ := rfl
  refine (transparent_along_iff hctx _ _).2 ⟨⟨trivial, trivial⟩, fun s hs => ⟨⟨trivial, ?_⟩,
    fun s' hs' => ⟨⟨?_, trivial⟩, fun _ _ => ⟨⟨trivial, trivial⟩, fun _ _ => trivial⟩⟩⟩⟩
  · intro buf hmem htier
    rw [← Option.some.inj hs] at hmem
    rw [List.mem_singleton.1 hmem] at htier
    exact absurd rfl htier
  · rw [← Option.some.inj hs', ← Option.some.inj hs]
    decide

/-! ## The end of a registry -/

section Destroy

variable {codec : WeightCodec} {bufs : List VramBuf} {heap : Nat → Option (List UInt8)}
  {next : Nat}

/-- `minimem_vram_ctx_destroy` frees blocks that are there, and with the tiers in order it leaves
none. -/
theorem CopyInv.destroy (h : CopyInv codec bufs heap next) :
    ∃ heap', vramCtxDestroy bufs heap = .ok heap' ∧ (TierInv bufs heap → heap' = fun _ => none) := by
  induction bufs generalizing heap with
  | nil =>
      refine ⟨heap, rfl, fun htier => funext fun ptr => ?_⟩
      by_contra hne
      have hone := htier.owned ptr (Option.isSome_iff_ne_none.2 hne)
      simp [holderCount] at hone
  | cons buf rest ih =>
      obtain ⟨heap', hrest, hnone⟩ := ih h.release
      refine ⟨heap', ?_, fun htier => hnone htier.release⟩
      unfold vramCtxDestroy
      cases hptr : buf.compressedPtr with
      | none =>
          rw [hptr] at hrest
          exact hrest
      | some ptr =>
          obtain ⟨-, block, out, hblock, -⟩ := (h.stored buf List.mem_cons_self).block hptr
          rw [hptr] at hrest
          simp only [hblock, Option.isSome_some, if_true]
          exact hrest

/-- A run from a new context in which no compression hands the codec a buffer of more than 64
whole blocks can be ended by `minimem_vram_ctx_destroy` in every state, which frees blocks that
are there, each once; and where no buffer is compressed for the tier `HOT`, the end leaves no
block behind. -/
theorem vramCtxDestroy_along {initialCap : Nat} {ctx : VramCtx}
    (hctx : vramCtxCreate true true initialCap = some ctx) (mem : Nat → UInt8)
    (labels : List VramLabel) :
    (AlongAll (vramStep aiWeights) (fun s => ∃ heap, vramCtxDestroy s.ctx.bufs s.heap = .ok heap)
        ⟨ctx, mem, fun _ => none, 0⟩ labels ↔
      Guarded (vramStep aiWeights) FitsStep ⟨ctx, mem, fun _ => none, 0⟩ labels) ∧
      (Guarded (vramStep aiWeights) (fun s label => FitsStep s label ∧ KeepsTiers aiWeights s label)
          ⟨ctx, mem, fun _ => none, 0⟩ labels →
        AlongAll (vramStep aiWeights)
          (fun s => vramCtxDestroy s.ctx.bufs s.heap = .ok fun _ => none)
          ⟨ctx, mem, fun _ => none, 0⟩ labels) := by
  have hnew := copiesSound_new aiWeights hctx mem
  have hkeep : ∀ s label s', CopiesSound aiWeights s → vramStep aiWeights s label = some s' →
      CopiesSound aiWeights s' := fun _ _ _ h hstep => h.step aiWeights_roundTrips hstep
  have hends : ∀ s, CopiesSound aiWeights s →
      ∃ heap, vramCtxDestroy s.ctx.bufs s.heap = .ok heap := by
    intro s h
    obtain ⟨heap, hdestroy, -⟩ := CopyInv.destroy h
    exact ⟨heap, hdestroy⟩
  constructor
  · apply alongAll_iff_guarded (I := CopiesSound aiWeights) hkeep
    · intro s label _ h
      rw [← vramStep_isSome_iff h]
      constructor
      · rintro ⟨s', hstep, -⟩
        exact ⟨s', hstep⟩
      · rintro ⟨s', hstep⟩
        exact ⟨s', hstep, hends s' (hkeep s label s' h hstep)⟩
    · exact hends _ hnew
    · exact hnew
  · refine Guarded.alongAll (I := fun s => CopiesSound aiWeights s ∧ TiersAgree s) ?_ ?_ ⟨hnew, ?_⟩
    · intro s label h hguard
      obtain ⟨s', hstep⟩ := (vramStep_isSome_iff h.1).2 hguard.1
      exact ⟨s', hstep, hkeep s label s' h.1 hstep,
        (h.2.step_iff aiWeights_roundTrips h.1 hstep).2 hguard.2⟩
    · intro s h
      obtain ⟨heap, hdestroy, hnone⟩ := CopyInv.destroy h.1
      rw [hdestroy, hnone h.2]
    · rw [← Option.some.inj hctx]
      exact ⟨nofun, nofun⟩

/-- A registry ends with a frozen buffer. -/
theorem vramCtxDestroy_along_frozen :
    AlongAll (vramStep aiWeights) (fun s => vramCtxDestroy s.ctx.bufs s.heap = .ok fun _ => none)
      ⟨⟨[], 4, ⟨0, 0, 0, 0, 0, 0, 0, 0⟩⟩, fun _ => 0, fun _ => none, 0⟩
      [.register true 0 0x1000 64 .fp16 false,
        .compressBuf ⟨some fun _ => 0, 0, 0⟩ 0 .frozen] := by
  have hctx : vramCtxCreate true true 4 = some ⟨[], 4, ⟨0, 0, 0, 0, 0, 0, 0, 0⟩⟩ := rfl
  refine (vramCtxDestroy_along hctx _ _).2 ⟨⟨trivial, trivial⟩, fun s hs => ⟨⟨?_, nofun⟩,
    fun _ _ => trivial⟩⟩
  rw [← Option.some.inj hs]
  decide

end Destroy

end MiniMem
