import MiniMem.Machine
import MiniMem.Vram.Cycle

/-!
# MiniMem.Vram.Tiers

Runs of the registry: which tier a buffer is in, who holds its copy, and
whether it comes back.  Between the operations the program may write to its
memory.

The copies alone stay in order in every run: no two records hold the same
block and each copy can be brought back (`CopyInv`).  That the tier of a
record agrees with it, and that every block is held by somebody
(`TierInv`), is kept by every operation but one: `compress_buf` sets the tier
that its caller names, and a caller may name `HOT`.
-/

namespace MiniMem

/-! ## Runs -/

/-- The operations on a registry, and a write of the program to its memory. -/
inductive VramLabel where
  | register (realloc : Bool) (now : UInt64) (ptr size : Nat) (fmt : VramFormat) (isDevice : Bool)
  | unregister (ptr : Nat)
  | compressBuf (env : CompressEnv) (idx : Nat) (targetTier : VramTier)
  | compressAllIdle (envs : Nat → CompressEnv) (now idleThresholdNs : UInt64)
      (targetTier : VramTier)
  | decompressBuf (env : DecompressEnv) (idx : Nat)
  | touch (now : UInt64) (idx : Nat)
  | write (mem : Nat → UInt8)

/-- One operation; there is no next state where it goes outside a buffer. -/
def vramStep (codec : WeightCodec) (s : Vram) : VramLabel → Option Vram
  | .register realloc now ptr size fmt isDevice =>
      some (vramRegister realloc now ptr size fmt isDevice s).2
  | .unregister ptr => some (vramUnregister ptr s).2
  | .compressBuf env idx targetTier =>
      (vramCompressBuf codec env idx targetTier s).toOption.map Prod.snd
  | .compressAllIdle envs now idleThresholdNs targetTier =>
      (vramCompressAllIdle codec envs now idleThresholdNs targetTier s).toOption.map Prod.snd
  | .decompressBuf env idx => (vramDecompressBuf codec env idx s).toOption.map Prod.snd
  | .touch now idx => some (vramTouch now idx s)
  | .write mem => some { s with mem := mem }

/-- What the codec stores, it reads back. -/
def WeightCodec.RoundTrips (codec : WeightCodec) : Prop :=
  ∀ (src dst : List UInt8) (format : AiFormat) (dstCap : Nat) (c : OutCursor),
    dstCap ≤ dst.length → codec.compress src dst dstCap format = .ok c →
      codec.decompress c.bytes src.length format = .ok src

/-- The AI codec reads back what it compresses. -/
theorem aiWeights_roundTrips : aiWeights.RoundTrips := fun _ _ _ _ _ hdst h =>
  aiWeightsDecompress_aiWeightsCompress hdst h (Nat.le_refl _)

/-! ## Copies -/

/-- The number of records that hold a block. -/
def holderCount (bufs : List VramBuf) (ptr : Nat) : Nat :=
  bufs.countP fun buf => buf.compressedPtr == some ptr

/-- The copy of a record, where it has one, can be brought back. -/
def StoredCopy (codec : WeightCodec) (heap : Nat → Option (List UInt8)) (buf : VramBuf) : Prop :=
  match buf.compressedPtr with
  | none => buf.compressedSize = 0
  | some ptr => buf.compressedSize ≠ 0 ∧ ∃ block out, heap ptr = some block ∧
      codec.decompress (block.take buf.compressedSize) buf.size (weightFmtToAiFmt buf.weightFormat)
        = .ok out ∧ out.length = buf.size

/-- Every copy can be brought back, no two records hold the same one, and `malloc` gives out
new blocks. -/
structure CopyInv (codec : WeightCodec) (bufs : List VramBuf) (heap : Nat → Option (List UInt8))
    (next : Nat) : Prop where
  stored : ∀ buf ∈ bufs, StoredCopy codec heap buf
  holders : ∀ ptr, holderCount bufs ptr ≤ 1
  fresh : ∀ ptr, next ≤ ptr → heap ptr = none

/-- The blocks after `free`. -/
def freeBlock (heap : Nat → Option (List UInt8)) : Option Nat → Nat → Option (List UInt8)
  | none => heap
  | some ptr => Function.update heap ptr none

theorem Vram.heap_free (s : Vram) (ptr : Option Nat) :
    (s.free ptr).heap = freeBlock s.heap ptr := by
  cases ptr <;> rfl

/-- The holders of a block in a list with one buffer more. -/
theorem holderCount_cons (buf : VramBuf) (bufs : List VramBuf) (ptr : Nat) :
    holderCount (buf :: bufs) ptr
      = holderCount bufs ptr + if buf.compressedPtr = some ptr then 1 else 0 := by
  unfold holderCount
  rw [List.countP_cons]
  simp

/-- The order of the buffers does not matter. -/
theorem holderCount_perm {bufs bufs' : List VramBuf} (h : bufs.Perm bufs') (ptr : Nat) :
    holderCount bufs ptr = holderCount bufs' ptr := h.countP_eq _

section Copies

variable {codec : WeightCodec} {bufs bufs' rest : List VramBuf} {buf buf' : VramBuf}
  {heap : Nat → Option (List UInt8)} {next ptr : Nat}

/-- A buffer that has the block counts. -/
theorem holderCount_pos_of_mem (hmem : buf ∈ bufs) (hptr : buf.compressedPtr = some ptr) :
    0 < holderCount bufs ptr :=
  List.countP_pos_iff.2 ⟨buf, hmem, by simp [hptr]⟩

/-- A copy is a block of its size that decompresses to the size of the buffer. -/
theorem StoredCopy.block (h : StoredCopy codec heap buf) (hptr : buf.compressedPtr = some ptr) :
    buf.compressedSize ≠ 0 ∧ ∃ block out, heap ptr = some block ∧
      codec.decompress (block.take buf.compressedSize) buf.size (weightFmtToAiFmt buf.weightFormat)
        = .ok out ∧ out.length = buf.size := by
  unfold StoredCopy at h
  rw [hptr] at h
  exact h

/-- A copy does not depend on blocks that its record does not hold. -/
theorem StoredCopy.of_eq (h : StoredCopy codec heap buf) {heap' : Nat → Option (List UInt8)}
    (heq : ∀ ptr, buf.compressedPtr = some ptr → heap' ptr = heap ptr) :
    StoredCopy codec heap' buf := by
  unfold StoredCopy at h ⊢
  split at h
  · exact h
  next ptr hptr =>
    rw [heq ptr hptr]
    exact h

/-- A block that `malloc` has not given out is nobody's. -/
theorem CopyInv.ne_next (h : CopyInv codec bufs heap next) (hmem : buf ∈ bufs) :
    buf.compressedPtr ≠ some next := by
  intro hptr
  obtain ⟨-, block, -, hblock, -⟩ := (h.stored buf hmem).block hptr
  rw [h.fresh next (Nat.le_refl next)] at hblock
  cases hblock

/-- Nobody has the block that comes next. -/
theorem CopyInv.holderCount_next (h : CopyInv codec bufs heap next) :
    holderCount bufs next = 0 := by
  refine List.countP_eq_zero.2 fun buf hmem => ?_
  have hne := h.ne_next hmem
  simpa using hne

/-- The order of the buffers does not matter to it. -/
theorem CopyInv.perm (h : CopyInv codec bufs heap next) (hperm : bufs.Perm bufs') :
    CopyInv codec bufs' heap next where
  stored buf hmem := h.stored buf (hperm.mem_iff.2 hmem)
  holders ptr := by
    rw [← holderCount_perm hperm]
    exact h.holders ptr
  fresh := h.fresh

/-- A record is forgotten, whatever it holds. -/
theorem CopyInv.forget (h : CopyInv codec (buf :: rest) heap next) :
    CopyInv codec rest heap next where
  stored buf' hmem := h.stored buf' (List.mem_cons_of_mem buf hmem)
  holders ptr := by
    have hle := h.holders ptr
    rw [holderCount_cons] at hle
    omega
  fresh := h.fresh

/-- A record is forgotten and its block freed. -/
theorem CopyInv.release (h : CopyInv codec (buf :: rest) heap next) :
    CopyInv codec rest (freeBlock heap buf.compressedPtr) next := by
  cases hptr : buf.compressedPtr with
  | none => exact h.forget
  | some ptr =>
      refine ⟨fun buf' hmem => ?_, h.forget.holders, fun ptr' hptr' => ?_⟩
      · refine (h.forget.stored buf' hmem).of_eq fun ptr' hptr' => Function.update_of_ne ?_ _ _
        rintro rfl
        have hle := h.holders ptr'
        rw [holderCount_cons, if_pos hptr] at hle
        have hpos := holderCount_pos_of_mem hmem hptr'
        omega
      · by_cases heq : ptr' = ptr
        · rw [heq]
          exact Function.update_self _ _ _
        · rw [freeBlock, Function.update_of_ne heq]
          exact h.fresh ptr' hptr'

/-- A record without a copy comes in. -/
theorem CopyInv.empty (h : CopyInv codec rest heap next) (hptr : buf.compressedPtr = none)
    (hsize : buf.compressedSize = 0) : CopyInv codec (buf :: rest) heap next where
  stored buf' hmem := by
    rcases List.mem_cons.1 hmem with rfl | hmem
    · rw [StoredCopy, hptr]
      exact hsize
    · exact h.stored buf' hmem
  holders ptr := by
    rw [holderCount_cons, hptr, if_neg nofun]
    exact h.holders ptr
  fresh := h.fresh

/-- A record with a copy of its own comes in. -/
theorem CopyInv.store (h : CopyInv codec rest heap next) {block : List UInt8}
    (hptr : buf.compressedPtr = some next)
    (hstored : StoredCopy codec (Function.update heap next (some block)) buf) :
    CopyInv codec (buf :: rest) (Function.update heap next (some block)) (next + 1) where
  stored buf' hmem := by
    rcases List.mem_cons.1 hmem with rfl | hmem
    · exact hstored
    · refine (h.stored buf' hmem).of_eq fun ptr hptr' => Function.update_of_ne ?_ _ _
      rintro rfl
      exact h.ne_next hmem hptr'
  holders ptr := by
    rw [holderCount_cons, hptr]
    by_cases heq : ptr = next
    · rw [heq, h.holderCount_next]
      split <;> omega
    · rw [if_neg (by simpa using Ne.symm heq)]
      exact h.holders ptr
  fresh ptr hlt := by
    rw [Function.update_of_ne (by omega)]
    exact h.fresh ptr (by omega)

/-- A record changes in what does not concern its copy. -/
theorem CopyInv.touch (h : CopyInv codec (buf :: rest) heap next)
    (hptr : buf'.compressedPtr = buf.compressedPtr)
    (hcsize : buf'.compressedSize = buf.compressedSize) (hsize : buf'.size = buf.size)
    (hfmt : buf'.weightFormat = buf.weightFormat) : CopyInv codec (buf' :: rest) heap next where
  stored buf'' hmem := by
    rcases List.mem_cons.1 hmem with rfl | hmem
    · have hstored := h.stored buf List.mem_cons_self
      unfold StoredCopy at hstored ⊢
      rw [hptr, hcsize, hsize, hfmt]
      exact hstored
    · exact h.stored buf'' (List.mem_cons_of_mem buf hmem)
  holders ptr := by
    have hle := h.holders ptr
    rw [holderCount_cons] at hle ⊢
    rw [hptr]
    exact hle
  fresh := h.fresh

end Copies

/-! ## Tiers -/

/-- A record is `HOT` exactly when it has no copy and its copy has no size, and every block is
held by exactly one record. -/
structure TierInv (bufs : List VramBuf) (heap : Nat → Option (List UInt8)) : Prop where
  tier : ∀ buf ∈ bufs, (buf.tier = .hot ↔ buf.compressedPtr = none) ∧
    (buf.compressedPtr = none ↔ buf.compressedSize = 0)
  owned : ∀ ptr, (heap ptr).isSome = true → holderCount bufs ptr = 1

section Tiers

variable {codec : WeightCodec} {bufs bufs' rest : List VramBuf} {buf buf' : VramBuf}
  {heap : Nat → Option (List UInt8)} {next : Nat}

/-- Nor to the tiers. -/
theorem TierInv.perm (h : TierInv bufs heap) (hperm : bufs.Perm bufs') : TierInv bufs' heap where
  tier buf hmem := h.tier buf (hperm.mem_iff.2 hmem)
  owned ptr hptr := by
    rw [← holderCount_perm hperm]
    exact h.owned ptr hptr

/-- A record goes, and its block with it. -/
theorem TierInv.release (h : TierInv (buf :: rest) heap) :
    TierInv rest (freeBlock heap buf.compressedPtr) where
  tier buf' hmem := h.tier buf' (List.mem_cons_of_mem buf hmem)
  owned ptr hptr := by
    have hother : (heap ptr).isSome = true ∧ buf.compressedPtr ≠ some ptr := by
      cases hheld : buf.compressedPtr with
      | none =>
          rw [hheld] at hptr
          exact ⟨hptr, nofun⟩
      | some held =>
          rw [hheld, freeBlock] at hptr
          by_cases heq : ptr = held
          · rw [heq, Function.update_self] at hptr
            cases hptr
          · rw [Function.update_of_ne heq] at hptr
            exact ⟨hptr, by simpa using Ne.symm heq⟩
    have hone := h.owned ptr hother.1
    rwa [holderCount_cons, if_neg hother.2] at hone

/-- A `HOT` record comes in. -/
theorem TierInv.empty (h : TierInv rest heap) (hhot : buf.tier = .hot)
    (hptr : buf.compressedPtr = none) (hsize : buf.compressedSize = 0) :
    TierInv (buf :: rest) heap where
  tier buf' hmem := by
    rcases List.mem_cons.1 hmem with rfl | hmem
    · exact ⟨iff_of_true hhot hptr, iff_of_true hptr hsize⟩
    · exact h.tier buf' hmem
  owned ptr hheap := by
    rw [holderCount_cons, hptr, if_neg nofun]
    exact h.owned ptr hheap

/-- A `HOT` record gets a copy and leaves its tier. -/
theorem TierInv.store (h : TierInv (buf :: rest) heap) (hcopy : CopyInv codec rest heap next)
    {block : List UInt8} (hold : buf.compressedPtr = none) (hptr : buf'.compressedPtr = some next)
    (hsize : buf'.compressedSize ≠ 0) (htier : buf'.tier ≠ .hot) :
    TierInv (buf' :: rest) (Function.update heap next (some block)) where
  tier buf'' hmem := by
    rcases List.mem_cons.1 hmem with rfl | hmem
    · rw [hptr]
      exact ⟨iff_of_false htier nofun, iff_of_false nofun hsize⟩
    · exact h.tier buf'' (List.mem_cons_of_mem buf hmem)
  owned ptr hheap := by
    rw [holderCount_cons, hptr]
    by_cases heq : ptr = next
    · rw [heq, if_pos rfl, hcopy.holderCount_next]
    · rw [Function.update_of_ne heq] at hheap
      have hone := h.owned ptr hheap
      rw [holderCount_cons, hold, if_neg nofun] at hone
      rw [if_neg (by simpa using Ne.symm heq)]
      exact hone

/-- A record changes in what does not concern its copy. -/
theorem TierInv.touch (h : TierInv (buf :: rest) heap)
    (hptr : buf'.compressedPtr = buf.compressedPtr)
    (hsize : buf'.compressedSize = buf.compressedSize) (htier : buf'.tier = buf.tier) :
    TierInv (buf' :: rest) heap where
  tier buf'' hmem := by
    rcases List.mem_cons.1 hmem with rfl | hmem
    · rw [hptr, hsize, htier]
      exact h.tier buf List.mem_cons_self
    · exact h.tier buf'' (List.mem_cons_of_mem buf hmem)
  owned ptr hheap := by
    have hone := h.owned ptr hheap
    rw [holderCount_cons] at hone ⊢
    rw [hptr]
    exact hone

end Tiers

/-! ## One operation -/

/-- An element in front of the others. -/
theorem perm_of_getElem? {α : Type*} {l : List α} {idx : Nat} {a : α} (h : l[idx]? = some a) :
    l.Perm (a :: l.eraseIdx idx) := by
  obtain ⟨hidx, heq⟩ := List.getElem?_eq_some_iff.1 h
  rw [← heq]
  exact (List.getElem_cons_eraseIdx_perm hidx).symm

/-- An element that is replaced, in front of the others. -/
theorem set_perm_of_getElem? {α : Type*} {l : List α} {idx : Nat} {a : α} (h : l[idx]? = some a)
    (b : α) : (l.set idx b).Perm (b :: l.eraseIdx idx) :=
  List.set_perm_cons_eraseIdx (List.getElem?_eq_some_iff.1 h).1 b

/-- The copies of a registry are in order. -/
def CopiesSound (codec : WeightCodec) (s : Vram) : Prop :=
  CopyInv codec s.ctx.bufs s.heap s.next

/-- The tiers of a registry are in order. -/
def TiersAgree (s : Vram) : Prop := TierInv s.ctx.bufs s.heap

section Step

variable {codec : WeightCodec} {env : CompressEnv} {idx : Nat} {targetTier : VramTier}
  {s s' : Vram} {buf buf' : VramBuf} {c : OutCursor} {ret : Int}

/-- The copy of a successful compression can be brought back. -/
theorem CompressesTo.storedCopy (hcodec : codec.RoundTrips)
    (h : CompressesTo codec env idx targetTier s buf c) (hptr : buf'.compressedPtr = some s.next)
    (hcsize : buf'.compressedSize = c.out) (hsize : buf'.size = buf.size)
    (hfmt : buf'.weightFormat = buf.weightFormat) :
    StoredCopy codec (Function.update s.heap s.next (some c.dst)) buf' := by
  obtain ⟨fresh, -, hcopy⟩ := h.copy
  have hback := hcodec _ _ _ _ _ (by rw [length_readMem]) hcopy
  rw [length_readMem] at hback
  unfold StoredCopy
  rw [hptr]
  dsimp only
  rw [hcsize, hsize, hfmt]
  exact ⟨Nat.ne_of_gt h.pos, c.dst, _, Function.update_self _ _ _, hback, length_readMem _ _ _⟩

/-- A new copy decompresses, and the others are where they were. -/
theorem CopiesSound.storeCopy (hcodec : codec.RoundTrips) (h : CopiesSound codec s)
    (hc : CompressesTo codec env idx targetTier s buf c) :
    CopiesSound codec (s.storeCopy env idx buf c targetTier) := by
  have hrest := (CopyInv.perm h (perm_of_getElem? hc.record)).forget
  refine CopyInv.perm ?_ (set_perm_of_getElem? hc.record _).symm
  exact hrest.store rfl (hc.storedCopy hcodec rfl rfl rfl rfl)

/-- A compress call keeps every copy that it does not replace, and makes a good one. -/
theorem CopiesSound.compressBuf (hcodec : codec.RoundTrips) (h : CopiesSound codec s)
    (hcall : vramCompressBuf codec env idx targetTier s = .ok (ret, s')) :
    CopiesSound codec s' := by
  rcases vramCompressBuf_cases hcall with ⟨buf, c, hc, -, hs'⟩ | ⟨-, hs', -⟩
  · rw [hs']
    exact h.storeCopy hcodec hc
  · rw [hs']
    exact h

/-- A copy kept under the tier `HOT` is the only thing that can go wrong. -/
theorem TiersAgree.storeCopy_iff (h : TiersAgree s) (hcopies : CopiesSound codec s)
    (hc : CompressesTo codec env idx targetTier s buf c) :
    TiersAgree (s.storeCopy env idx buf c targetTier) ↔ targetTier ≠ .hot := by
  have hold : buf.compressedPtr = none :=
    (h.tier buf (List.mem_of_getElem? hc.record)).1.1 hc.hot
  constructor
  · intro h' hhot
    have hmem : _ ∈ (s.storeCopy env idx buf c targetTier).ctx.bufs :=
      List.mem_of_getElem? (List.getElem?_set_self (List.getElem?_eq_some_iff.1 hc.record).1)
    have hnone := (h'.tier _ hmem).1.1 hhot
    cases hnone
  · intro hne
    have hrest := (CopyInv.perm hcopies (perm_of_getElem? hc.record)).forget
    refine TierInv.perm ?_ (set_perm_of_getElem? hc.record _).symm
    exact (TierInv.perm h (perm_of_getElem? hc.record)).store hrest hold rfl (Nat.ne_of_gt hc.pos)
      hne

end Step

/-! ## Operations that store nothing -/

/-- The operation may store copies. -/
def VramLabel.stores : VramLabel → Bool
  | .compressBuf .. | .compressAllIdle .. => true
  | _ => false

/-- What the operations that store nothing ask of an invariant of the records and their blocks. -/
structure RecordInv (P : List VramBuf → (Nat → Option (List UInt8)) → Nat → Prop) : Prop where
  perm : ∀ {bufs bufs' heap next}, P bufs heap next → bufs.Perm bufs' → P bufs' heap next
  release : ∀ {buf rest heap next}, P (buf :: rest) heap next →
    P rest (freeBlock heap buf.compressedPtr) next
  empty : ∀ {buf : VramBuf} {rest heap next}, P rest heap next → buf.tier = .hot →
    buf.compressedPtr = none → buf.compressedSize = 0 → P (buf :: rest) heap next
  touch : ∀ {buf : VramBuf} {rest heap next} (now : UInt64), P (buf :: rest) heap next →
    P ({ buf with lastAccessNs := now } :: rest) heap next

/-- The record keeps it in every operation that makes no copy. -/
theorem CopyInv.recordInv (codec : WeightCodec) : RecordInv (CopyInv codec) where
  perm h hperm := h.perm hperm
  release h := h.release
  empty h _ hptr hsize := h.empty hptr hsize
  touch _ h := h.touch rfl rfl rfl rfl

/-- So it does the tiers. -/
theorem TierInv.recordInv : RecordInv fun bufs heap _ => TierInv bufs heap where
  perm h hperm := h.perm hperm
  release h := h.release
  empty h hhot hptr hsize := h.empty hhot hptr hsize
  touch _ h := h.touch rfl rfl rfl

section Registry

variable {codec : WeightCodec} {s s' : Vram}
  {P : List VramBuf → (Nat → Option (List UInt8)) → Nat → Prop}

theorem toOption_map_eq_some {α β : Type} {x : Except Stop (α × β)} {b : β}
    (h : x.toOption.map Prod.snd = some b) : ∃ a, x = .ok (a, b) := by
  cases x with
  | error stop => cases h
  | ok r =>
      injection h with h
      exact ⟨r.1, by rw [← h]⟩

/-- A registration does nothing, or adds a hot buffer without a copy. -/
theorem vramRegister_cases (realloc : Bool) (now : UInt64) (ptr size : Nat) (fmt : VramFormat)
    (isDevice : Bool) (s : Vram) :
    (vramRegister realloc now ptr size fmt isDevice s).2 = s ∨
      ∃ buf cap stats, buf.tier = .hot ∧ buf.compressedPtr = none ∧ buf.compressedSize = 0 ∧
        (vramRegister realloc now ptr size fmt isDevice s).2
          = { s with ctx := ⟨s.ctx.bufs ++ [buf], cap, stats⟩ } := by
  unfold vramRegister
  split
  · exact .inl rfl
  · split
    · exact .inl rfl
    · exact .inr ⟨_, _, _, rfl, rfl, rfl, rfl⟩

/-- An unregistration does nothing, or takes a buffer out and frees its copy. -/
theorem vramUnregister_cases (ptr : Nat) (s : Vram) :
    (vramUnregister ptr s).2 = s ∨
      ∃ buf rest stats, s.ctx.bufs.Perm (buf :: rest) ∧
        (vramUnregister ptr s).2 = { s.free buf.compressedPtr with
          ctx := { s.ctx with bufs := rest, stats := stats } } := by
  unfold vramUnregister
  split
  · exact .inl rfl
  · split
    · exact .inl rfl
    · split
      · exact .inl rfl
      next buf hbuf =>
        obtain ⟨hidx, heq⟩ := List.getElem?_eq_some_iff.1 hbuf
        have hperm := perm_swapRemove hidx
        rw [heq] at hperm
        exact .inr ⟨buf, _, _, hperm, rfl⟩

theorem Vram.next_free (s : Vram) (ptr : Option Nat) : (s.free ptr).next = s.next := by
  cases ptr <;> rfl

/-- A registration keeps it. -/
theorem RecordInv.register (hP : RecordInv P) (h : P s.ctx.bufs s.heap s.next) (realloc : Bool)
    (now : UInt64) (ptr size : Nat) (fmt : VramFormat) (isDevice : Bool)
    (hs' : (vramRegister realloc now ptr size fmt isDevice s).2 = s') :
    P s'.ctx.bufs s'.heap s'.next := by
  rcases vramRegister_cases realloc now ptr size fmt isDevice s with hsame |
    ⟨buf, cap, stats, hhot, hptr, hsize, hnew⟩
  · rw [← hs', hsame]
    exact h
  · rw [← hs', hnew]
    exact hP.perm (hP.empty h hhot hptr hsize) (List.perm_append_singleton _ _).symm

/-- An unregistration keeps it. -/
theorem RecordInv.unregister (hP : RecordInv P) (h : P s.ctx.bufs s.heap s.next) (ptr : Nat)
    (hs' : (vramUnregister ptr s).2 = s') : P s'.ctx.bufs s'.heap s'.next := by
  rcases vramUnregister_cases ptr s with hsame | ⟨buf, rest, stats, hperm, hnew⟩
  · rw [← hs', hsame]
    exact h
  · rw [← hs', hnew]
    have hrest := hP.release (hP.perm h hperm)
    show P rest (s.free buf.compressedPtr).heap (s.free buf.compressedPtr).next
    rw [Vram.heap_free, Vram.next_free]
    exact hrest

/-- A decompress call keeps it. -/
theorem RecordInv.decompressBuf (hP : RecordInv P) (h : P s.ctx.bufs s.heap s.next)
    {env : DecompressEnv} {idx : Nat} {ret : Int}
    (hcall : vramDecompressBuf codec env idx s = .ok (ret, s')) :
    P s'.ctx.bufs s'.heap s'.next := by
  rcases vramDecompressBuf_cases hcall with ⟨buf, ptr, out, hd, -, hs'⟩ | ⟨-, mem, hs'⟩
  · rw [hs']
    have hrest := hP.release (hP.perm h (perm_of_getElem? hd.record))
    rw [hd.held] at hrest
    refine hP.perm ?_ (set_perm_of_getElem? hd.record _).symm
    exact hP.empty hrest rfl rfl rfl
  · rw [hs']
    exact h

/-- So does a touch. -/
theorem RecordInv.touchAt (hP : RecordInv P) (h : P s.ctx.bufs s.heap s.next) (now : UInt64)
    (idx : Nat) (hs' : vramTouch now idx s = s') : P s'.ctx.bufs s'.heap s'.next := by
  rw [← hs', vramTouch]
  split
  · exact h
  next buf hbuf =>
    refine hP.perm ?_ (set_perm_of_getElem? hbuf _).symm
    exact hP.touch now (hP.perm h (perm_of_getElem? hbuf))

/-- An operation that stores nothing keeps a record invariant. -/
theorem RecordInv.step (hP : RecordInv P) (h : P s.ctx.bufs s.heap s.next) {label : VramLabel}
    (hlabel : label.stores = false) (hstep : vramStep codec s label = some s') :
    P s'.ctx.bufs s'.heap s'.next := by
  cases label with
  | register realloc now ptr size fmt isDevice =>
      exact hP.register h realloc now ptr size fmt isDevice (Option.some.inj hstep)
  | unregister ptr => exact hP.unregister h ptr (Option.some.inj hstep)
  | compressBuf env idx targetTier => cases hlabel
  | compressAllIdle envs now idleThresholdNs targetTier => cases hlabel
  | decompressBuf env idx =>
      obtain ⟨ret, hcall⟩ := toOption_map_eq_some hstep
      exact hP.decompressBuf h hcall
  | touch now idx => exact hP.touchAt h now idx (Option.some.inj hstep)
  | write mem =>
      injection hstep with hstep
      rw [← hstep]
      exact h

end Registry

/-! ## The loop over idle buffers -/

/-- Some record is `HOT` and has a copy. -/
def HotCopy (s : Vram) : Prop :=
  ∃ buf ∈ s.ctx.bufs, buf.tier = .hot ∧ buf.compressedPtr ≠ none

/-- The call finds a `HOT` buffer that the codec makes smaller. -/
def Compresses (codec : WeightCodec) (env : CompressEnv) (idx : Nat) (targetTier : VramTier)
    (s : Vram) : Prop :=
  ∃ buf c, CompressesTo codec env idx targetTier s buf c

/-- The buffer at `idx` is one that the loop hands to `minimem_vram_compress_buf`. -/
def IdleAt (cutoff : UInt64) (s : Vram) (idx : Nat) : Prop :=
  ∃ buf, s.ctx.bufs[idx]? = some buf ∧ buf.idle cutoff = true

section Idle

variable {codec : WeightCodec} {env : CompressEnv} {envs : Nat → CompressEnv} {idx i n : Nat}
  {cutoff : UInt64} {targetTier : VramTier} {s s' : Vram} {buf : VramBuf} {c : OutCursor}
  {ret compressed : Int}

/-- A hot buffer with a copy breaks the tiers. -/
theorem HotCopy.not_tiersAgree (h : HotCopy s) : ¬TiersAgree s := by
  obtain ⟨buf, hmem, hhot, hptr⟩ := h
  intro hagree
  exact hptr ((hagree.tier buf hmem).1.1 hhot)

/-- A copy that is kept for the tier `HOT` is one. -/
theorem hotCopy_storeCopy (hc : CompressesTo codec env idx .hot s buf c) :
    HotCopy (s.storeCopy env idx buf c .hot) := by
  refine ⟨_, List.mem_of_getElem? (List.getElem?_set_self ?_), rfl, nofun⟩
  exact (List.getElem?_eq_some_iff.1 hc.record).1

/-- A call for the tier `HOT` repairs nothing. -/
theorem HotCopy.compressBuf (h : HotCopy s)
    (hcall : vramCompressBuf codec env idx .hot s = .ok (ret, s')) : HotCopy s' := by
  rcases vramCompressBuf_cases hcall with ⟨buf, c, hc, -, hs'⟩ | ⟨-, hs', -⟩
  · rw [hs']
    exact hotCopy_storeCopy hc
  · rw [hs']
    exact h

/-- What every call preserves, the loop preserves. -/
theorem compressIdleFrom_invariant {Inv : Vram → Prop}
    (hpres : ∀ idx s ret s', Inv s →
      vramCompressBuf codec (envs idx) idx targetTier s = .ok (ret, s') → Inv s')
    (h : compressIdleFrom codec envs cutoff targetTier n i compressed s = .ok (ret, s'))
    (hs : Inv s) : Inv s' := by
  induction n generalizing i compressed s with
  | zero =>
      injection h with h
      injection h with _ h
      rw [← h]
      exact hs
  | succ n ih =>
      rw [compressIdleFrom] at h
      split at h
      · cases h
      · split at h
        · split at h
          · cases h
          next ret' s₁ hcall => exact ih h (hpres i s ret' s₁ hs hcall)
        · exact ih h hs

/-- The loop for the tier `HOT` leaves everything alone or keeps a copy of a `HOT` buffer. -/
theorem compressIdleFrom_hot
    (h : compressIdleFrom codec envs cutoff .hot n i compressed s = .ok (ret, s')) :
    (s' = s ∧ ∀ j, i ≤ j → j < i + n → IdleAt cutoff s j → ¬Compresses codec (envs j) j .hot s) ∨
      (HotCopy s' ∧ ∃ j, IdleAt cutoff s j ∧ Compresses codec (envs j) j .hot s) := by
  induction n generalizing i compressed with
  | zero =>
      injection h with h
      injection h with _ h
      exact .inl ⟨h.symm, fun j hle hlt => by omega⟩
  | succ n ih =>
      rw [compressIdleFrom] at h
      split at h
      · cases h
      next buf hbuf =>
        have hrest : ∀ {compressed}, (IdleAt cutoff s i → ¬Compresses codec (envs i) i .hot s) →
            compressIdleFrom codec envs cutoff .hot n (i + 1) compressed s = .ok (ret, s') →
              (s' = s ∧ ∀ j, i ≤ j → j < i + (n + 1) → IdleAt cutoff s j →
                ¬Compresses codec (envs j) j .hot s) ∨
              (HotCopy s' ∧ ∃ j, IdleAt cutoff s j ∧ Compresses codec (envs j) j .hot s) := by
          intro compressed hi hloop
          refine (ih hloop).imp_left ?_
          rintro ⟨hs', hnone⟩
          refine ⟨hs', fun j hle hlt => ?_⟩
          rcases Nat.eq_or_lt_of_le hle with heq | hlt'
          · rw [← heq]
            exact hi
          · exact hnone j hlt' (by omega)
        split at h
        next hidle =>
          split at h
          · cases h
          next ret' s₁ hcall =>
            rcases vramCompressBuf_cases hcall with ⟨buf', c, hc, -, hs₁⟩ | ⟨-, hs₁, hnone⟩
            · have hhot : HotCopy s₁ := by
                rw [hs₁]
                exact hotCopy_storeCopy hc
              exact .inr ⟨compressIdleFrom_invariant
                (fun _ _ _ _ h' hcall' => h'.compressBuf hcall') h hhot,
                i, ⟨buf, hbuf, hidle⟩, buf', c, hc⟩
            · rw [hs₁] at h
              exact hrest (fun _ ⟨buf', c, hc⟩ => hnone buf' c hc) h
        next hidle =>
          refine hrest (fun ⟨buf', hbuf', hidle'⟩ => ?_) h
          rw [hbuf] at hbuf'
          injection hbuf' with hbuf'
          rw [← hbuf'] at hidle'
          exact absurd hidle' hidle

end Idle

/-! ## Calls that return -/

/-- No compression of the step hands the codec a buffer of more than 64 whole blocks. -/
def FitsStep (s : Vram) : VramLabel → Prop
  | .compressBuf env idx targetTier => FitsTables env idx targetTier s
  | .compressAllIdle envs now idleThresholdNs targetTier =>
      ∀ idx, IdleAt (now - idleThresholdNs) s idx → FitsTables (envs idx) idx targetTier s
  | _ => True

instance decidableIdleAt (cutoff : UInt64) (s : Vram) (idx : Nat) :
    Decidable (IdleAt cutoff s idx) :=
  decidable_of_iff ((s.ctx.bufs[idx]?.any fun buf => buf.idle cutoff) = true) <| by
    simp [IdleAt, Option.any_eq_true]

instance decidableFitsStep (s : Vram) : (label : VramLabel) → Decidable (FitsStep s label)
  | .compressBuf env idx targetTier =>
      inferInstanceAs (Decidable (FitsTables env idx targetTier s))
  | .compressAllIdle envs now idleThresholdNs targetTier =>
      decidable_of_iff (∀ idx < s.ctx.bufs.length, IdleAt (now - idleThresholdNs) s idx →
          FitsTables (envs idx) idx targetTier s) <| by
        refine ⟨fun hall idx hidle => hall idx ?_ hidle, fun hall idx _ => hall idx⟩
        obtain ⟨buf, hbuf, -⟩ := hidle
        exact (List.getElem?_eq_some_iff.1 hbuf).1
  | .register .. | .unregister .. | .decompressBuf .. | .touch .. | .write .. => .isTrue trivial

section Returns

variable {codec : WeightCodec} {env : CompressEnv} {envs : Nat → CompressEnv} {idx i n : Nat}
  {cutoff : UInt64} {targetTier : VramTier} {s s₁ s' : Vram} {buf : VramBuf} {label : VramLabel}

/-- Whether a buffer is handed to the codec depends on its record only. -/
theorem idleAt_congr (h : s₁.ctx.bufs[idx]? = s.ctx.bufs[idx]?) :
    IdleAt cutoff s₁ idx ↔ IdleAt cutoff s idx := by
  rw [IdleAt, IdleAt, h]

/-- Whether a call fits depends on its own buffer. -/
theorem fitsTables_congr (h : s₁.ctx.bufs[idx]? = s.ctx.bufs[idx]?) :
    FitsTables env idx targetTier s₁ ↔ FitsTables env idx targetTier s := by
  rw [FitsTables, FitsTables, h]

/-- A call of `minimem_vram_compress_buf` leaves the other records as they are. -/
theorem record_compressBuf {ret : Int}
    (hcall : vramCompressBuf codec env idx targetTier s = .ok (ret, s')) :
    s'.ctx.bufs.length = s.ctx.bufs.length ∧
      ∀ j, j ≠ idx → s'.ctx.bufs[j]? = s.ctx.bufs[j]? := by
  obtain ⟨buf, c, -, -, rfl⟩ | ⟨-, rfl, -⟩ := vramCompressBuf_cases hcall
  · rw [bufs_storeCopy]
    exact ⟨List.length_set, fun j hj => List.getElem?_set_ne (Ne.symm hj)⟩
  · exact ⟨rfl, fun _ _ => rfl⟩

/-- The loop returns exactly when no idle buffer before it is too large for the codec. -/
theorem compressIdleFrom_isOk_iff {compressed : Int} (hlength : i + n = s.ctx.bufs.length) :
    (∃ r, compressIdleFrom aiWeights envs cutoff targetTier n i compressed s = .ok r) ↔
      ∀ j, i ≤ j → IdleAt cutoff s j → FitsTables (envs j) j targetTier s := by
  induction n generalizing i compressed s with
  | zero =>
      refine iff_of_true ⟨_, rfl⟩ fun j hle hidle => ?_
      obtain ⟨buf, hbuf, -⟩ := hidle
      have hlt := (List.getElem?_eq_some_iff.1 hbuf).1
      omega
  | succ n ih =>
      have hi : i < s.ctx.bufs.length := by omega
      have hbuf : s.ctx.bufs[i]? = some s.ctx.bufs[i] := List.getElem?_eq_getElem hi
      have hsplit : (∀ j, i ≤ j → IdleAt cutoff s j → FitsTables (envs j) j targetTier s) ↔
          (IdleAt cutoff s i → FitsTables (envs i) i targetTier s) ∧
            ∀ j, i + 1 ≤ j → IdleAt cutoff s j → FitsTables (envs j) j targetTier s := by
        constructor
        · exact fun hall => ⟨hall i (Nat.le_refl i), fun j hle => hall j (by omega)⟩
        · intro h j hle
          rcases Nat.eq_or_lt_of_le hle with rfl | hlt
          · exact h.1
          · exact h.2 j hlt
      rw [hsplit, compressIdleFrom, hbuf]
      dsimp only
      by_cases hidle : (s.ctx.bufs[i]).idle cutoff = true
      · have hat : IdleAt cutoff s i := ⟨_, hbuf, hidle⟩
        rw [if_pos hidle, imp_iff_right hat, ← vramCompressBuf_isOk_iff]
        cases hcall : vramCompressBuf aiWeights (envs i) i targetTier s with
        | error stop => simp
        | ok r =>
            obtain ⟨ret, s'⟩ := r
            have hsame := record_compressBuf hcall
            have hrest (count : Int) := @ih (i + 1) s' count (by omega)
            simp only [hrest, Except.ok.injEq, exists_eq', true_and]
            refine forall_congr' fun j => forall_congr' fun hle => ?_
            rw [idleAt_congr (hsame.2 j (by omega)), fitsTables_congr (hsame.2 j (by omega))]
      · have hnot : ¬IdleAt cutoff s i := by
          intro hat
          obtain ⟨buf, hbuf', hidle'⟩ := hat
          simp only [hbuf, Option.some.injEq] at hbuf'
          exact hidle (by rw [hbuf', hidle'])
        rw [if_neg hidle, ih (by omega)]
        simp [hnot]

/-- With copies in order a buffer comes back or the call changes nothing. -/
theorem CopiesSound.decompressBuf_cases (h : CopiesSound codec s) (env : DecompressEnv)
    (idx : Nat) : (∃ buf ptr out, DecompressesTo codec idx s buf ptr out) ∨
      vramDecompressBuf codec env idx s = .ok (-1, s) := by
  unfold vramDecompressBuf
  split
  · exact .inr rfl
  next buf hbuf =>
    split
    · exact .inr rfl
    next htier =>
      split
      · exact .inr rfl
      next ptr hptr =>
        obtain ⟨hsize, block, out, hblock, hout, hlength⟩ :=
          StoredCopy.block (CopyInv.stored h buf (List.mem_of_getElem? hbuf)) hptr
        exact .inl ⟨buf, ptr, out, hbuf, htier, hptr, hsize, ⟨block, hblock, hout⟩, hlength⟩

theorem exists_toOption_map_iff {α β : Type} {x : Except Stop (α × β)} :
    (∃ b, x.toOption.map Prod.snd = some b) ↔ ∃ r, x = .ok r := by
  cases x with
  | error stop => simp [Except.toOption]
  | ok r => simp [Except.toOption]

/-- With copies in order every call returns but one that hands the codec a buffer of more than
64 whole blocks. -/
theorem vramStep_isSome_iff (h : CopiesSound aiWeights s) :
    (∃ s', vramStep aiWeights s label = some s') ↔ FitsStep s label := by
  cases label with
  | compressBuf env idx targetTier =>
      exact exists_toOption_map_iff.trans vramCompressBuf_isOk_iff
  | compressAllIdle envs now idleThresholdNs targetTier =>
      refine exists_toOption_map_iff.trans ?_
      refine (compressIdleFrom_isOk_iff (Nat.zero_add _)).trans ?_
      exact ⟨fun hall j => hall j (Nat.zero_le j), fun hall j _ => hall j⟩
  | decompressBuf env idx =>
      refine iff_of_true (exists_toOption_map_iff.2 ?_) trivial
      obtain ⟨buf, ptr, out, hd⟩ | hsame := h.decompressBuf_cases env idx
      · exact ⟨_, hd.eq_ok env⟩
      · exact ⟨_, hsame⟩
  | _ => exact iff_of_true ⟨_, rfl⟩ trivial

end Returns

/-! ## Whole runs -/

/-- A call for the tier `HOT` finds nothing that it could compress. -/
def KeepsTiers (codec : WeightCodec) (s : Vram) : VramLabel → Prop
  | .compressBuf env idx targetTier => targetTier = .hot → ¬Compresses codec env idx .hot s
  | .compressAllIdle envs now idleThresholdNs targetTier => targetTier = .hot →
      ∀ idx, IdleAt (now - idleThresholdNs) s idx → ¬Compresses codec (envs idx) idx .hot s
  | _ => True

/-- Tier, pointer and size of each record agree, every block that `minimem_vram_compress_buf`
has got from `malloc` and nobody has freed is held by exactly one record, and
`minimem_vram_decompress_buf` succeeds exactly on the records that hold one. -/
structure TierSound (codec : WeightCodec) (s : Vram) : Prop where
  tier : ∀ buf ∈ s.ctx.bufs, (buf.tier = .hot ↔ buf.compressedPtr = none) ∧
    (buf.compressedPtr = none ↔ buf.compressedSize = 0)
  owned : ∀ ptr, (s.heap ptr).isSome = true → holderCount s.ctx.bufs ptr = 1
  decompresses : ∀ env idx, (∃ s', vramDecompressBuf codec env idx s = .ok (0, s')) ↔
    ∃ buf, s.ctx.bufs[idx]? = some buf ∧ buf.compressedPtr ≠ none

section Runs

variable {codec : WeightCodec} {s s' : Vram} {label : VramLabel}

/-- Copies that are in order and tiers that agree make every copy come back. -/
theorem tierSound_iff (hcopies : CopiesSound codec s) : TierSound codec s ↔ TiersAgree s := by
  refine ⟨fun h => ⟨h.tier, h.owned⟩, fun h => ⟨h.tier, h.owned, fun env idx => ⟨?_, ?_⟩⟩⟩
  · rintro ⟨s', hcall⟩
    rcases vramDecompressBuf_cases hcall with ⟨buf, ptr, out, hd, -⟩ | ⟨hret, -⟩
    · exact ⟨buf, hd.record, by rw [hd.held]; exact nofun⟩
    · cases hret
  · rintro ⟨buf, hbuf, hptr⟩
    have hmem := List.mem_of_getElem? hbuf
    obtain ⟨ptr, hheld⟩ := Option.ne_none_iff_exists'.1 hptr
    obtain ⟨hsize, block, out, hblock, hout, hlength⟩ := (hcopies.stored buf hmem).block hheld
    have hd : DecompressesTo codec idx s buf ptr out :=
      ⟨hbuf, fun hhot => hptr ((h.tier buf hmem).1.1 hhot), hheld, hsize, ⟨block, hblock, hout⟩,
        hlength⟩
    exact ⟨_, hd.eq_ok env⟩

/-- Every operation keeps the copies in order. -/
theorem CopiesSound.step (hcodec : codec.RoundTrips) (h : CopiesSound codec s)
    (hstep : vramStep codec s label = some s') : CopiesSound codec s' := by
  cases label with
  | compressBuf env idx targetTier =>
      obtain ⟨ret, hcall⟩ := toOption_map_eq_some hstep
      exact h.compressBuf hcodec hcall
  | compressAllIdle envs now idleThresholdNs targetTier =>
      obtain ⟨ret, hcall⟩ := toOption_map_eq_some hstep
      exact compressIdleFrom_invariant (fun _ _ _ _ h' hcall' => h'.compressBuf hcodec hcall')
        hcall h
  | _ => exact (CopyInv.recordInv codec).step h rfl hstep

/-- A compress call keeps the tiers unless it keeps a copy for the tier `HOT`. -/
theorem TiersAgree.compressBuf_iff {env : CompressEnv} {idx : Nat} {targetTier : VramTier}
    {ret : Int} (h : TiersAgree s) (hcopies : CopiesSound codec s)
    (hcall : vramCompressBuf codec env idx targetTier s = .ok (ret, s')) :
    TiersAgree s' ↔ (targetTier = .hot → ¬Compresses codec env idx .hot s) := by
  rcases vramCompressBuf_cases hcall with ⟨buf, c, hc, -, hs'⟩ | ⟨-, hs', hnone⟩
  · rw [hs', h.storeCopy_iff hcopies hc]
    refine ⟨fun hne hhot => absurd hhot hne, fun hkeep hhot => hkeep hhot ⟨buf, c, ?_⟩⟩
    rw [← hhot]
    exact hc
  · rw [hs']
    refine iff_of_true h fun hhot => ?_
    rintro ⟨buf, c, hc⟩
    rw [hhot] at hnone
    exact hnone buf c hc

/-- So does the loop over the idle buffers. -/
theorem TiersAgree.compressAllIdle_iff {envs : Nat → CompressEnv} {now idleThresholdNs : UInt64}
    {targetTier : VramTier} {ret : Int} (hcodec : codec.RoundTrips) (h : TiersAgree s)
    (hcopies : CopiesSound codec s)
    (hcall : vramCompressAllIdle codec envs now idleThresholdNs targetTier s = .ok (ret, s')) :
    TiersAgree s' ↔ (targetTier = .hot → ∀ idx, IdleAt (now - idleThresholdNs) s idx →
      ¬Compresses codec (envs idx) idx .hot s) := by
  by_cases hhot : targetTier = .hot
  · rw [hhot] at hcall
    rcases compressIdleFrom_hot hcall with ⟨hs', hnone⟩ | ⟨hcopy, idx, hidle, hcomp⟩
    · rw [hs']
      refine iff_of_true h fun _ idx hidle => ?_
      obtain ⟨buf, hbuf, hidle'⟩ := hidle
      have hlt := (List.getElem?_eq_some_iff.1 hbuf).1
      exact hnone idx (Nat.zero_le _) (by omega) ⟨buf, hbuf, hidle'⟩
    · exact iff_of_false hcopy.not_tiersAgree fun hkeep => hkeep hhot idx hidle hcomp
  · refine iff_of_true ?_ fun hhot' => absurd hhot' hhot
    have hpres : ∀ idx s ret s', CopiesSound codec s ∧ TiersAgree s →
        vramCompressBuf codec (envs idx) idx targetTier s = .ok (ret, s') →
          CopiesSound codec s' ∧ TiersAgree s' := by
      rintro idx s ret s' ⟨hcopies, h⟩ hcall
      exact ⟨hcopies.compressBuf hcodec hcall,
        (h.compressBuf_iff hcopies hcall).2 fun hhot' => absurd hhot' hhot⟩
    exact (compressIdleFrom_invariant hpres hcall ⟨hcopies, h⟩).2

/-- An operation keeps the tiers exactly when it compresses nothing for the tier `HOT`. -/
theorem TiersAgree.step_iff (hcodec : codec.RoundTrips) (h : TiersAgree s)
    (hcopies : CopiesSound codec s) (hstep : vramStep codec s label = some s') :
    TiersAgree s' ↔ KeepsTiers codec s label := by
  cases label with
  | compressBuf env idx targetTier =>
      obtain ⟨ret, hcall⟩ := toOption_map_eq_some hstep
      exact h.compressBuf_iff hcopies hcall
  | compressAllIdle envs now idleThresholdNs targetTier =>
      obtain ⟨ret, hcall⟩ := toOption_map_eq_some hstep
      exact h.compressAllIdle_iff hcodec hcopies hcall
  | _ => exact iff_of_true (TierInv.recordInv.step h rfl hstep) trivial

/-- A new context has no copies. -/
theorem copiesSound_new (codec : WeightCodec) {initialCap : Nat} {ctx : VramCtx}
    (hctx : vramCtxCreate true true initialCap = some ctx) (mem : Nat → UInt8) :
    CopiesSound codec ⟨ctx, mem, fun _ => none, 0⟩ := by
  rw [← Option.some.inj hctx]
  exact ⟨nofun, fun _ => Nat.zero_le 1, fun _ _ => rfl⟩

/-- Along every run from a new context, tiers, copies and decompression agree exactly when no
call that returns has compressed a buffer for the tier `HOT`. -/
theorem tierSound_along_iff (hcodec : codec.RoundTrips) {initialCap : Nat} {ctx : VramCtx}
    (hctx : vramCtxCreate true true initialCap = some ctx) (mem : Nat → UInt8)
    (labels : List VramLabel) :
    Along (vramStep codec) (TierSound codec) ⟨ctx, mem, fun _ => none, 0⟩ labels ↔
      Guarded (vramStep codec)
        (fun s label => (vramStep codec s label).isSome = true → KeepsTiers codec s label)
        ⟨ctx, mem, fun _ => none, 0⟩ labels := by
  have hbufs : ctx.bufs = [] := by
    injection hctx with hctx
    rw [← hctx]
  have hcopies := copiesSound_new codec hctx mem
  have hagree : TiersAgree ⟨ctx, mem, fun _ => none, 0⟩ := by
    refine ⟨?_, nofun⟩
    rw [hbufs]
    exact nofun
  apply along_iff_guarded (I := CopiesSound codec)
  · intro s label _ hnone henabled
    rw [hnone] at henabled
    cases henabled
  · intro s label s' h hstep
    exact h.step hcodec hstep
  · intro s label s' hsound h hstep
    rw [tierSound_iff (h.step hcodec hstep), ((tierSound_iff h).1 hsound).step_iff hcodec h hstep,
      hstep]
    exact ⟨fun hkeep _ => hkeep, fun hkeep => hkeep rfl⟩
  · exact (tierSound_iff hcopies).2 hagree
  · exact hcopies

end Runs

/-- A buffer is registered, compressed, looked at and decompressed. -/
theorem tierSound_along_warm :
    Along (vramStep aiWeights) (TierSound aiWeights)
      ⟨⟨[], 4, ⟨0, 0, 0, 0, 0, 0, 0, 0⟩⟩, fun _ => 0, fun _ => none, 0⟩
      [.register true 0 0x1000 64 .fp16 false, .compressBuf ⟨some fun _ => 0, 0, 0⟩ 0 .warm,
        .touch 0 0, .decompressBuf ⟨0, 0, 0⟩ 0, .unregister 0x1000] := by
  have hctx : vramCtxCreate true true 4 = some ⟨[], 4, ⟨0, 0, 0, 0, 0, 0, 0, 0⟩⟩ := rfl
  refine (tierSound_along_iff aiWeights_roundTrips hctx _ _).2 ?_
  exact ⟨fun _ => trivial, fun _ _ => ⟨fun _ => nofun, fun _ _ => ⟨fun _ => trivial, fun _ _ =>
    ⟨fun _ => trivial, fun _ _ => ⟨fun _ => trivial, fun _ _ => trivial⟩⟩⟩⟩⟩

/-- A buffer is compressed for the tier `HOT`: it has a copy and is `HOT`, so that
`minimem_vram_decompress_buf` refuses it. -/
theorem not_tierSound_hot :
    ¬Along (vramStep aiWeights) (TierSound aiWeights)
      ⟨⟨[], 4, ⟨0, 0, 0, 0, 0, 0, 0, 0⟩⟩, fun _ => 0, fun _ => none, 0⟩
      [.register true 0 0x1000 64 .fp16 false,
        .compressBuf ⟨some fun _ => 0, 0, 0⟩ 0 .hot] := by
  intro h
  have hcompressed : (((vramCompressBuf aiWeights ⟨some fun _ => 0, 0, 0⟩ 0 .hot
      (oneBuffer 64 .fp16)).map fun r => r.2.ctx.bufs.map fun buf =>
        (buf.tier, buf.compressedPtr)).toOption) = some [(.hot, some 0)] := by
    decide +kernel
  cases hcall : vramCompressBuf aiWeights ⟨some fun _ => 0, 0, 0⟩ 0 .hot (oneBuffer 64 .fp16) with
  | error stop =>
      rw [hcall] at hcompressed
      cases hcompressed
  | ok r =>
      have hstep : vramStep aiWeights (oneBuffer 64 .fp16)
          (.compressBuf ⟨some fun _ => 0, 0, 0⟩ 0 .hot) = some r.2 := by
        rw [vramStep, hcall]
        rfl
      have hsound : TierSound aiWeights r.2 := (h.2 _ rfl).2 _ hstep
      rw [hcall] at hcompressed
      injection hcompressed with hbufs
      obtain ⟨buf, hmem, hbuf⟩ := List.mem_map.1 (hbufs ▸ List.mem_singleton_self _)
      have hnone := (hsound.tier buf hmem).1.1 (congrArg Prod.fst hbuf)
      have hsome : buf.compressedPtr = some 0 := congrArg Prod.snd hbuf
      rw [hsome] at hnone
      cases hnone

end MiniMem
