import MiniMem.Vram.Tiers

/-!
# MiniMem.Vram.Bookkeeping

The registry against what was asked of it.  A run is kept beside a log of
the registrations and the unregistrations that returned 0; the records are
the registrations that are left,

```
records  =  registered  -  unregistered
```

as multisets, since the last record moves into the place of one that goes
and since a pointer may be registered more than once.
-/

namespace MiniMem

/-! ## The log -/

/-- What a buffer is registered as. -/
structure BufKey where
  ptr : Nat
  size : Nat
  format : VramFormat
  isDevice : Bool
  deriving DecidableEq, Repr

def VramBuf.key (buf : VramBuf) : BufKey := ⟨buf.ptr, buf.size, buf.weightFormat, buf.isDevice⟩

/-- A registry with its successful registrations and the pointers of its successful
unregistrations, the latest first. -/
structure VramLog where
  vram : Vram
  registered : List BufKey
  unregistered : List Nat

/-- The operation registers or unregisters buffers. -/
def VramLabel.books : VramLabel → Bool
  | .register .. | .unregister .. => true
  | _ => false

/-- The registration that an operation makes. -/
def registrationOf (s : Vram) : VramLabel → List BufKey
  | .register realloc now ptr size fmt isDevice =>
      if (vramRegister realloc now ptr size fmt isDevice s).1 = 0 then [⟨ptr, size, fmt, isDevice⟩]
      else []
  | _ => []

/-- The unregistration that an operation makes. -/
def unregistrationOf (s : Vram) : VramLabel → List Nat
  | .unregister ptr => if (vramUnregister ptr s).1 = 0 then [ptr] else []
  | _ => []

/-- One operation, with the log. -/
def logStep (codec : WeightCodec) (s : VramLog) (label : VramLabel) : Option VramLog :=
  (vramStep codec s.vram label).map fun vram =>
    ⟨vram, registrationOf s.vram label ++ s.registered,
      unregistrationOf s.vram label ++ s.unregistered⟩

/-! ## What the operations do to the records -/

/-- The same buffers are registered, and the books say so. -/
structure SameKeys (s s' : Vram) : Prop where
  keys : s'.ctx.bufs.map VramBuf.key = s.ctx.bufs.map VramBuf.key
  cap : s'.ctx.cap = s.ctx.cap
  nBufs : s'.ctx.stats.nBufs = s.ctx.stats.nBufs
  totalVramBytes : s'.ctx.stats.totalVramBytes = s.ctx.stats.totalVramBytes

section Records

variable {codec : WeightCodec} {s s' s'' : Vram} {ret : Int} {idx : Nat} {targetTier : VramTier}
  {buf buf' : VramBuf} {label : VramLabel}

theorem SameKeys.refl (s : Vram) : SameKeys s s := ⟨rfl, rfl, rfl, rfl⟩

theorem SameKeys.trans (h : SameKeys s s') (h' : SameKeys s' s'') : SameKeys s s'' where
  keys := h'.keys.trans h.keys
  cap := h'.cap.trans h.cap
  nBufs := h'.nBufs.trans h.nBufs
  totalVramBytes := h'.totalVramBytes.trans h.totalVramBytes

/-- A record is replaced by one of the same buffer. -/
theorem map_key_set (hbuf : s.ctx.bufs[idx]? = some buf) (hkey : buf'.key = buf.key) :
    (s.ctx.bufs.set idx buf').map VramBuf.key = s.ctx.bufs.map VramBuf.key := by
  obtain ⟨hidx, heq⟩ := List.getElem?_eq_some_iff.1 hbuf
  have hmap : idx < (s.ctx.bufs.map VramBuf.key).length := by rwa [List.length_map]
  have hat : (s.ctx.bufs.map VramBuf.key)[idx] = buf.key := by rw [List.getElem_map, heq]
  rw [List.map_set, hkey, ← hat, List.set_getElem_self]

theorem SameKeys.compressBuf {env : CompressEnv}
    (hcall : vramCompressBuf codec env idx targetTier s = .ok (ret, s')) : SameKeys s s' := by
  rcases vramCompressBuf_cases hcall with ⟨buf, c, hc, -, hs'⟩ | ⟨-, hs', -⟩
  · rw [hs']
    exact ⟨map_key_set hc.record rfl, rfl, rfl, rfl⟩
  · rw [hs']
    exact .refl s

theorem SameKeys.decompressBuf {env : DecompressEnv}
    (hcall : vramDecompressBuf codec env idx s = .ok (ret, s')) : SameKeys s s' := by
  rcases vramDecompressBuf_cases hcall with ⟨buf, ptr, out, hd, -, hs'⟩ | ⟨-, mem, hs'⟩
  · rw [hs']
    exact ⟨map_key_set hd.record rfl, rfl, rfl, rfl⟩
  · rw [hs']
    exact ⟨rfl, rfl, rfl, rfl⟩

theorem SameKeys.touch (now : UInt64) (idx : Nat) (s : Vram) :
    SameKeys s (vramTouch now idx s) := by
  unfold vramTouch
  split
  · exact .refl s
  next buf hbuf => exact ⟨map_key_set hbuf rfl, rfl, rfl, rfl⟩

/-- The record that a registration adds. -/
def newBuf (now : UInt64) (ptr size : Nat) (fmt : VramFormat) (isDevice : Bool) : VramBuf :=
  ⟨ptr, none, size, 0, weightFmtToAlgo fmt, fmt, .hot, isDevice, now, 0, 0⟩

/-- A registration fails and changes nothing, or adds a record and counts it. -/
theorem vramRegister_spec (realloc : Bool) (now : UInt64) (ptr size : Nat) (fmt : VramFormat)
    (isDevice : Bool) (s : Vram) :
    vramRegister realloc now ptr size fmt isDevice s = (-1, s) ∨
      ptr ≠ 0 ∧ ∃ cap, (s.ctx.cap ≤ cap ∧ (0 < s.ctx.cap → s.ctx.bufs.length ≤ s.ctx.cap →
          s.ctx.bufs.length < cap)) ∧
        vramRegister realloc now ptr size fmt isDevice s =
          (0, { s with ctx := ⟨s.ctx.bufs ++ [newBuf now ptr size fmt isDevice], cap,
            { s.ctx.stats with
              nBufs := s.ctx.stats.nBufs + 1
              totalVramBytes := s.ctx.stats.totalVramBytes + .ofNat size }⟩ }) := by
  unfold vramRegister
  split
  · exact .inl rfl
  next hptr =>
    split
    · exact .inl rfl
    next hgrow =>
      refine .inr ⟨hptr, _, ⟨?_, ?_⟩, rfl⟩
      · split <;> omega
      · intro hpos hle
        split <;> omega

/-- An unregistration fails and changes nothing, or takes out a record of the pointer. -/
theorem vramUnregister_spec (ptr : Nat) (s : Vram) :
    vramUnregister ptr s = (-1, s) ∨
      ∃ buf rest, buf.ptr = ptr ∧ s.ctx.bufs.Perm (buf :: rest) ∧
        vramUnregister ptr s = (0, { s.free buf.compressedPtr with
          ctx := ⟨rest, s.ctx.cap, { s.ctx.stats with
            totalVramBytes := s.ctx.stats.totalVramBytes - .ofNat buf.size
            nBufs := s.ctx.stats.nBufs - 1 }⟩ }) := by
  unfold vramUnregister
  split
  · exact .inl rfl
  split
  · exact .inl rfl
  next i hi =>
    split
    · exact .inl rfl
    next buf hbuf =>
      obtain ⟨hidx, heq⟩ := List.getElem?_eq_some_iff.1 hbuf
      have hperm := perm_swapRemove hidx
      rw [heq] at hperm
      refine .inr ⟨buf, _, ?_, hperm, rfl⟩
      have hfound := (List.findIdx?_eq_some_iff_getElem.1 hi).2.1
      rw [heq] at hfound
      simpa using hfound

/-- The other operations register and unregister nothing. -/
theorem SameKeys.step (hlabel : label.books = false) (hstep : vramStep codec s label = some s') :
    SameKeys s s' ∧ registrationOf s label = [] ∧ unregistrationOf s label = [] := by
  cases label with
  | register realloc now ptr size fmt isDevice => cases hlabel
  | unregister ptr => cases hlabel
  | compressBuf env idx targetTier =>
      obtain ⟨ret, hcall⟩ := toOption_map_eq_some hstep
      exact ⟨.compressBuf hcall, rfl, rfl⟩
  | compressAllIdle envs now idleThresholdNs targetTier =>
      obtain ⟨ret, hcall⟩ := toOption_map_eq_some hstep
      have hsame : SameKeys s s' := compressIdleFrom_invariant
        (fun _ _ _ _ h hcall' => h.trans (.compressBuf hcall')) hcall (.refl s)
      exact ⟨hsame, rfl, rfl⟩
  | decompressBuf env idx =>
      obtain ⟨ret, hcall⟩ := toOption_map_eq_some hstep
      exact ⟨.decompressBuf hcall, rfl, rfl⟩
  | touch now idx =>
      injection hstep with hstep
      rw [← hstep]
      exact ⟨.touch now idx s, rfl, rfl⟩
  | write mem =>
      injection hstep with hstep
      rw [← hstep]
      exact ⟨⟨rfl, rfl, rfl, rfl⟩, rfl, rfl⟩

end Records

/-! ## The books -/

/-- The sizes of the registered buffers, together. -/
def Vram.totalSize (s : Vram) : Nat := (s.ctx.bufs.map fun buf => buf.size).sum

/-- The records are the registrations that are left, and the books agree with the records. -/
structure Booked (s : VramLog) : Prop where
  records : ∃ removed : List BufKey, removed.map (fun key => key.ptr) = s.unregistered ∧
    (s.vram.ctx.bufs.map VramBuf.key ++ removed).Perm s.registered
  nonnull : ∀ key ∈ s.registered, key.ptr ≠ 0
  cap_pos : 0 < s.vram.ctx.cap
  le_cap : s.vram.ctx.bufs.length ≤ s.vram.ctx.cap
  nBufs : s.vram.ctx.stats.nBufs = .ofNat s.vram.ctx.bufs.length
  totalVramBytes : s.vram.ctx.stats.totalVramBytes = .ofNat s.vram.totalSize

section Books

variable {codec : WeightCodec} {s : VramLog} {v v' : Vram} {label : VramLabel}

/-- The sizes are part of what the buffers are registered as. -/
theorem Vram.totalSize_eq (v : Vram) :
    v.totalSize = ((v.ctx.bufs.map VramBuf.key).map fun key => key.size).sum := by
  rw [Vram.totalSize, List.map_map]
  rfl

/-- What keeps the keys keeps the books. -/
theorem Booked.sameKeys (h : Booked s) (hsame : SameKeys s.vram v) :
    Booked ⟨v, s.registered, s.unregistered⟩ where
  records := by
    rw [hsame.keys]
    exact h.records
  nonnull := h.nonnull
  cap_pos := by
    rw [hsame.cap]
    exact h.cap_pos
  le_cap := by
    have hlen := congrArg List.length hsame.keys
    rw [List.length_map, List.length_map] at hlen
    rw [hsame.cap, hlen]
    exact h.le_cap
  nBufs := by
    have hlen := congrArg List.length hsame.keys
    rw [List.length_map, List.length_map] at hlen
    rw [hsame.nBufs, hlen]
    exact h.nBufs
  totalVramBytes := by
    rw [hsame.totalVramBytes, Vram.totalSize_eq, hsame.keys, ← Vram.totalSize_eq]
    exact h.totalVramBytes

/-- A registration is entered in the log when it returns 0. -/
theorem Booked.register (h : Booked s) (realloc : Bool) (now : UInt64) (ptr size : Nat)
    (fmt : VramFormat) (isDevice : Bool) :
    Booked ⟨(vramRegister realloc now ptr size fmt isDevice s.vram).2,
      registrationOf s.vram (.register realloc now ptr size fmt isDevice) ++ s.registered,
      s.unregistered⟩ := by
  rcases vramRegister_spec realloc now ptr size fmt isDevice s.vram with hfail |
    ⟨hptr, cap, ⟨hle, hlt⟩, hok⟩
  · have hnone : registrationOf s.vram (.register realloc now ptr size fmt isDevice) = [] :=
      if_neg (by rw [hfail]; simp)
    rw [hfail, hnone]
    exact h
  · have hone : registrationOf s.vram (.register realloc now ptr size fmt isDevice) =
        [⟨ptr, size, fmt, isDevice⟩] := if_pos (by rw [hok])
    have hroom := hlt h.cap_pos h.le_cap
    have hpos := h.cap_pos
    rw [hok, hone]
    obtain ⟨removed, hptrs, hperm⟩ := h.records
    refine ⟨⟨removed, hptrs, ?_⟩, ?_, Nat.lt_of_lt_of_le hpos hle, ?_, ?_, ?_⟩
    · rw [List.map_append, List.append_assoc]
      exact List.perm_middle.trans (hperm.cons _)
    · intro key hkey
      rcases List.mem_cons.1 hkey with rfl | hkey
      · exact hptr
      · exact h.nonnull key hkey
    · rw [List.length_append]
      exact hroom
    · show s.vram.ctx.stats.nBufs + 1 = _
      rw [h.nBufs, List.length_append, List.length_singleton, UInt64.ofNat_add]
      rfl
    · show s.vram.ctx.stats.totalVramBytes + .ofNat size = _
      rw [h.totalVramBytes, Vram.totalSize, Vram.totalSize, List.map_append, List.sum_append,
        UInt64.ofNat_add]
      rfl

/-- An unregistration takes one registration of its pointer away. -/
theorem Booked.unregister (h : Booked s) (ptr : Nat) :
    Booked ⟨(vramUnregister ptr s.vram).2, s.registered,
      unregistrationOf s.vram (.unregister ptr) ++ s.unregistered⟩ := by
  rcases vramUnregister_spec ptr s.vram with hfail | ⟨buf, rest, hptr, hbufs, hok⟩
  · have hnone : unregistrationOf s.vram (.unregister ptr) = [] :=
      if_neg (by rw [hfail]; simp)
    rw [hfail, hnone]
    exact h
  · have hone : unregistrationOf s.vram (.unregister ptr) = [ptr] := if_pos (by rw [hok])
    rw [hok, hone]
    obtain ⟨removed, hptrs, hperm⟩ := h.records
    have hlen : s.vram.ctx.bufs.length = rest.length + 1 := hbufs.length_eq
    have hsize : s.vram.totalSize = (rest.map fun buf => buf.size).sum + buf.size := by
      rw [Vram.totalSize, (hbufs.map _).sum_eq, List.map_cons, List.sum_cons, Nat.add_comm]
    have hle := h.le_cap
    refine ⟨⟨buf.key :: removed, ?_, ?_⟩, h.nonnull, h.cap_pos, ?_, ?_, ?_⟩
    · rw [List.map_cons, hptrs, ← hptr]
      rfl
    · refine List.perm_middle.trans (List.Perm.trans ?_ hperm)
      exact ((hbufs.map VramBuf.key).symm.append_right removed)
    · show rest.length ≤ s.vram.ctx.cap
      omega
    · show s.vram.ctx.stats.nBufs - 1 = .ofNat rest.length
      rw [h.nBufs, hlen, UInt64.ofNat_add]
      exact UInt64.add_sub_cancel _ _
    · show s.vram.ctx.stats.totalVramBytes - .ofNat buf.size = .ofNat _
      rw [h.totalVramBytes, hsize, UInt64.ofNat_add]
      exact UInt64.add_sub_cancel _ _

/-- Every operation keeps the books. -/
theorem Booked.step {s' : VramLog} (h : Booked s) (hstep : logStep codec s label = some s') :
    Booked s' := by
  obtain ⟨v, hv, hs'⟩ := Option.map_eq_some_iff.1 hstep
  rw [← hs']
  by_cases hlabel : label.books = true
  · cases label with
    | register realloc now ptr size fmt isDevice =>
        injection hv with hv
        rw [← hv]
        exact h.register realloc now ptr size fmt isDevice
    | unregister ptr =>
        injection hv with hv
        rw [← hv]
        exact h.unregister ptr
    | compressBuf | compressAllIdle | decompressBuf | touch | write => cases hlabel
  · obtain ⟨hsame, hreg, hunreg⟩ := SameKeys.step (by simpa using hlabel) hv
    rw [hreg, hunreg]
    exact h.sameKeys hsame

/-- A pointer is found when a record has it. -/
theorem vramFindBuf_isSome_iff (v : Vram) (ptr : Nat) :
    (vramFindBuf v ptr).isSome = true ↔ ptr ≠ 0 ∧ ∃ buf ∈ v.ctx.bufs, buf.ptr = ptr := by
  unfold vramFindBuf vramBufIndex
  by_cases hptr : ptr = 0
  · simp [hptr]
  rw [if_neg hptr]
  cases hidx : v.ctx.bufs.findIdx? fun buf => buf.ptr == ptr with
  | none =>
      rw [List.findIdx?_eq_none_iff] at hidx
      refine iff_of_false (by simp) ?_
      rintro ⟨-, buf, hmem, heq⟩
      have hno := hidx buf hmem
      simp [heq] at hno
  | some i =>
      obtain ⟨hi, hfound, -⟩ := List.findIdx?_eq_some_iff_getElem.1 hidx
      refine iff_of_true ?_ ⟨hptr, v.ctx.bufs[i], List.getElem_mem hi, by simpa using hfound⟩
      simp [List.getElem?_eq_getElem hi]

/-- A pointer is found when it has been registered more often than unregistered. -/
theorem Booked.found (h : Booked s) (ptr : Nat) :
    (vramFindBuf s.vram ptr).isSome = true ↔
      s.unregistered.count ptr < (s.registered.map fun key => key.ptr).count ptr := by
  obtain ⟨removed, hptrs, hperm⟩ := h.records
  have hcount : (s.registered.map fun key => key.ptr).count ptr =
      (s.vram.ctx.bufs.map fun buf => buf.ptr).count ptr + s.unregistered.count ptr := by
    rw [← (hperm.map _).count_eq, List.map_append, List.count_append, hptrs, List.map_map]
    rfl
  rw [vramFindBuf_isSome_iff, hcount]
  constructor
  · rintro ⟨-, buf, hmem, heq⟩
    have hpos : 0 < (s.vram.ctx.bufs.map fun buf => buf.ptr).count ptr :=
      List.count_pos_iff.2 (List.mem_map.2 ⟨buf, hmem, heq⟩)
    omega
  · intro hlt
    have hmem : ptr ∈ s.vram.ctx.bufs.map fun buf => buf.ptr := List.count_pos_iff.1 (by omega)
    obtain ⟨buf, hmem, heq⟩ := List.mem_map.1 hmem
    refine ⟨?_, buf, hmem, heq⟩
    have hkey : buf.key ∈ s.registered :=
      hperm.subset (List.mem_append_left _ (List.mem_map_of_mem hmem))
    rw [← heq]
    exact h.nonnull _ hkey

end Books

/-! ## Survivors -/

/-- A record keeps its buffer, its tier and its compressed copy. -/
structure KeepsCopy (s s' : Vram) (buf buf' : VramBuf) : Prop where
  key : buf'.key = buf.key
  tier : buf'.tier = buf.tier
  ptr : buf'.compressedPtr = buf.compressedPtr
  size : buf'.compressedSize = buf.compressedSize
  block : ∀ ptr, buf.compressedPtr = some ptr → s'.heap ptr = s.heap ptr

/-- The operation is about the record at an index. -/
def VramLabel.WorksOn (i : Nat) (buf : VramBuf) : VramLabel → Prop
  | .compressBuf _ idx _ => i = idx
  | .decompressBuf _ idx => i = idx
  | .compressAllIdle .. => buf.tier = .hot
  | _ => False

/-- An operation other than an unregistration leaves every record in its place and every record
that it is not about with its tier and its copy. -/
def KeepsRecords (s s' : Vram) (label : VramLabel) : Prop :=
  ∀ i buf, s.ctx.bufs[i]? = some buf → ¬label.WorksOn i buf →
    ∃ buf', s'.ctx.bufs[i]? = some buf' ∧ KeepsCopy s s' buf buf'

/-- An unregistration that returns 0 takes out one record of the pointer, another none, and the
rest keep their tiers and copies. -/
def KeepsRest (s s' : Vram) (ptr : Nat) : Prop :=
  ∃ gone : List VramBuf, gone.map (fun buf => buf.ptr) = unregistrationOf s (.unregister ptr) ∧
    s.ctx.bufs.Perm (gone ++ s'.ctx.bufs) ∧ ∀ buf ∈ s'.ctx.bufs, KeepsCopy s s' buf buf

section Survivors

variable {codec : WeightCodec} {s s' : Vram} {ret : Int} {idx i : Nat} {targetTier : VramTier}
  {buf : VramBuf} {label : VramLabel}

theorem KeepsCopy.refl (s : Vram) (buf : VramBuf) : KeepsCopy s s buf buf :=
  ⟨rfl, rfl, rfl, rfl, fun _ _ => rfl⟩

/-- No other record holds the copy of a record. -/
theorem CopiesSound.ne_of_ne (h : CopiesSound codec s) {ptr : Nat} {buf buf' : VramBuf}
    (hbuf : s.ctx.bufs[idx]? = some buf) (hptr : buf.compressedPtr = some ptr)
    (hbuf' : s.ctx.bufs[i]? = some buf') (hne : i ≠ idx) : buf'.compressedPtr ≠ some ptr := by
  intro hptr'
  have hmem : buf' ∈ s.ctx.bufs.eraseIdx idx :=
    List.mem_eraseIdx_iff_getElem?.2 ⟨i, hne, hbuf'⟩
  have hrest := holderCount_pos_of_mem hmem hptr'
  have hle := h.holders ptr
  rw [holderCount_perm (perm_of_getElem? hbuf), holderCount_cons, if_pos hptr] at hle
  omega

theorem CopiesSound.keeps_compressBuf (h : CopiesSound codec s) {env : CompressEnv}
    (hcall : vramCompressBuf codec env idx targetTier s = .ok (ret, s')) (hne : i ≠ idx)
    (hbuf : s.ctx.bufs[i]? = some buf) :
    s'.ctx.bufs[i]? = some buf ∧ KeepsCopy s s' buf buf := by
  rcases vramCompressBuf_cases hcall with ⟨buf', c, hc, -, hs'⟩ | ⟨-, hs', -⟩
  · rw [hs']
    refine ⟨?_, rfl, rfl, rfl, rfl, fun ptr hptr => ?_⟩
    · rw [bufs_storeCopy, List.getElem?_set_ne (Ne.symm hne)]
      exact hbuf
    · rw [heap_storeCopy, Function.update_of_ne]
      rintro rfl
      exact CopyInv.ne_next h (List.mem_of_getElem? hbuf) hptr
  · rw [hs']
    exact ⟨hbuf, .refl s buf⟩

theorem CopiesSound.keeps_decompressBuf (h : CopiesSound codec s) {env : DecompressEnv}
    (hcall : vramDecompressBuf codec env idx s = .ok (ret, s')) (hne : i ≠ idx)
    (hbuf : s.ctx.bufs[i]? = some buf) :
    s'.ctx.bufs[i]? = some buf ∧ KeepsCopy s s' buf buf := by
  rcases vramDecompressBuf_cases hcall with ⟨buf', held, out, hd, -, hs'⟩ | ⟨-, mem, hs'⟩
  · rw [hs']
    refine ⟨?_, rfl, rfl, rfl, rfl, fun ptr hptr => ?_⟩
    · show (s.ctx.bufs.set idx _)[i]? = some buf
      rw [List.getElem?_set_ne (Ne.symm hne)]
      exact hbuf
    · show Function.update s.heap held none ptr = s.heap ptr
      rw [Function.update_of_ne]
      rintro rfl
      exact h.ne_of_ne hd.record hd.held hbuf hne hptr
  · rw [hs']
    exact ⟨hbuf, rfl, rfl, rfl, rfl, fun _ _ => rfl⟩

/-- A record of `s` is where it was in `v`, with its copy. -/
structure StaysAt (codec : WeightCodec) (s : Vram) (i : Nat) (buf : VramBuf) (v : Vram) : Prop where
  copies : CopiesSound codec v
  record : v.ctx.bufs[i]? = some buf
  keeps : KeepsCopy s v buf buf

/-- `minimem_vram_compress_buf` refuses a record that is not `HOT`. -/
theorem StaysAt.compressBuf (hcodec : codec.RoundTrips) {env : CompressEnv} {v v' : Vram}
    (h : StaysAt codec s i buf v) (hhot : buf.tier ≠ .hot)
    (hcall : vramCompressBuf codec env idx targetTier v = .ok (ret, v')) :
    StaysAt codec s i buf v' := by
  have hstep : v'.ctx.bufs[i]? = some buf ∧ KeepsCopy v v' buf buf := by
    by_cases heq : i = idx
    · subst heq
      rcases vramCompressBuf_cases hcall with ⟨buf', c, hc, -, -⟩ | ⟨-, hv', -⟩
      · have hsame := hc.record
        rw [h.record] at hsame
        injection hsame with hsame
        rw [hsame] at hhot
        exact absurd hc.hot hhot
      · rw [hv']
        exact ⟨h.record, .refl v buf⟩
    · exact h.copies.keeps_compressBuf hcall heq h.record
  refine ⟨h.copies.compressBuf hcodec hcall, hstep.1, rfl, rfl, rfl, rfl, fun ptr hptr => ?_⟩
  rw [hstep.2.block ptr hptr, h.keeps.block ptr hptr]

/-- Every operation but an unregistration keeps the records in their places. -/
theorem CopiesSound.keepsRecords (hcodec : codec.RoundTrips) (h : CopiesSound codec s)
    (hlabel : ∀ ptr, label ≠ .unregister ptr) (hstep : vramStep codec s label = some s') :
    KeepsRecords s s' label := by
  intro i buf hbuf hworks
  cases label with
  | register realloc now ptr size fmt isDevice =>
      injection hstep with hstep
      rw [← hstep]
      rcases vramRegister_spec realloc now ptr size fmt isDevice s with hfail | ⟨-, cap, -, hok⟩
      · rw [hfail]
        exact ⟨buf, hbuf, .refl s buf⟩
      · rw [hok]
        refine ⟨buf, ?_, rfl, rfl, rfl, rfl, fun _ _ => rfl⟩
        show (s.ctx.bufs ++ [_])[i]? = some buf
        rw [List.getElem?_append_left (List.getElem?_eq_some_iff.1 hbuf).1]
        exact hbuf
  | unregister ptr => exact absurd rfl (hlabel ptr)
  | compressBuf env idx targetTier =>
      obtain ⟨ret, hcall⟩ := toOption_map_eq_some hstep
      exact ⟨buf, h.keeps_compressBuf hcall hworks hbuf⟩
  | compressAllIdle envs now idleThresholdNs targetTier =>
      obtain ⟨ret, hcall⟩ := toOption_map_eq_some hstep
      have hstays : StaysAt codec s i buf s' := compressIdleFrom_invariant
        (fun _ _ _ _ h' hcall' => h'.compressBuf hcodec hworks hcall') hcall ⟨h, hbuf, .refl s buf⟩
      exact ⟨buf, hstays.record, hstays.keeps⟩
  | decompressBuf env idx =>
      obtain ⟨ret, hcall⟩ := toOption_map_eq_some hstep
      exact ⟨buf, h.keeps_decompressBuf hcall hworks hbuf⟩
  | touch now idx =>
      injection hstep with hstep
      rw [← hstep, vramTouch]
      split
      · exact ⟨buf, hbuf, .refl s buf⟩
      next buf' hbuf' =>
        by_cases heq : idx = i
        · subst heq
          rw [hbuf] at hbuf'
          injection hbuf' with hbuf'
          subst hbuf'
          refine ⟨_, List.getElem?_set_self (List.getElem?_eq_some_iff.1 hbuf).1, ?_⟩
          exact ⟨rfl, rfl, rfl, rfl, fun _ _ => rfl⟩
        · refine ⟨buf, ?_, rfl, rfl, rfl, rfl, fun _ _ => rfl⟩
          show (s.ctx.bufs.set idx _)[i]? = some buf
          rw [List.getElem?_set_ne heq]
          exact hbuf
  | write mem =>
      injection hstep with hstep
      rw [← hstep]
      exact ⟨buf, hbuf, rfl, rfl, rfl, rfl, fun _ _ => rfl⟩

/-- An unregistration frees the block of the record that goes, which nobody else holds. -/
theorem CopiesSound.keepsRest (h : CopiesSound codec s) (ptr : Nat) :
    KeepsRest s (vramUnregister ptr s).2 ptr := by
  rcases vramUnregister_spec ptr s with hfail | ⟨buf, rest, hptr, hbufs, hok⟩
  · have hnone : unregistrationOf s (.unregister ptr) = [] := if_neg (by rw [hfail]; simp)
    rw [KeepsRest, hfail, hnone]
    exact ⟨[], rfl, .refl _, fun buf _ => .refl s buf⟩
  · have hone : unregistrationOf s (.unregister ptr) = [ptr] := if_pos (by rw [hok])
    rw [KeepsRest, hok, hone]
    refine ⟨[buf], by rw [← hptr]; rfl, hbufs, fun buf' hmem => ⟨rfl, rfl, rfl, rfl, ?_⟩⟩
    intro held hheld
    show (s.free buf.compressedPtr).heap held = s.heap held
    rw [Vram.heap_free]
    cases hgone : buf.compressedPtr with
    | none => rfl
    | some gone =>
        rw [freeBlock, Function.update_of_ne]
        rintro rfl
        have hle := (CopyInv.perm h hbufs).holders held
        have hpos : 0 < holderCount rest held := holderCount_pos_of_mem hmem hheld
        rw [holderCount_cons, if_pos hgone] at hle
        omega

end Survivors

/-! ## Whole runs -/

/-- The records are the registrations that are left; they keep their tiers and copies until an
operation is about them; the books agree with the records; and a pointer is found when it is
registered. -/
structure RegistrySound (codec : WeightCodec) (s : VramLog) : Prop where
  records : ∃ removed : List BufKey, removed.map (fun key => key.ptr) = s.unregistered ∧
    (s.vram.ctx.bufs.map VramBuf.key ++ removed).Perm s.registered
  survivors : ∀ label s', (∀ ptr, label ≠ .unregister ptr) →
    vramStep codec s.vram label = some s' → KeepsRecords s.vram s' label
  rest : ∀ ptr, KeepsRest s.vram (vramUnregister ptr s.vram).2 ptr
  le_cap : s.vram.ctx.bufs.length ≤ s.vram.ctx.cap
  nBufs : s.vram.ctx.stats.nBufs = .ofNat s.vram.ctx.bufs.length
  totalVramBytes : s.vram.ctx.stats.totalVramBytes.toNat = s.vram.totalSize
  found : ∀ ptr, (vramFindBuf s.vram ptr).isSome = true ↔
    s.unregistered.count ptr < (s.registered.map fun key => key.ptr).count ptr

/-- No registration that gets through brings the sizes to 2^64 or more. -/
def SumFits (s : Vram) : VramLabel → Prop
  | .register realloc _ ptr size _ _ =>
      ptr ≠ 0 → (s.ctx.bufs.length < s.ctx.cap ∨ realloc = true) → s.totalSize + size < 2 ^ 64
  | _ => True

instance decidableSumFits (s : Vram) : (label : VramLabel) → Decidable (SumFits s label)
  | .register realloc _ ptr size _ _ =>
      inferInstanceAs (Decidable (ptr ≠ 0 →
        (s.ctx.bufs.length < s.ctx.cap ∨ realloc = true) → s.totalSize + size < 2 ^ 64))
  | .unregister .. | .compressBuf .. | .compressAllIdle .. | .decompressBuf .. | .touch ..
  | .write .. => .isTrue trivial

section Runs

variable {codec : WeightCodec} {s s' : VramLog} {label : VramLabel}

/-- The counter of bytes is 64 bits wide. -/
theorem Booked.totalVramBytes_iff (h : Booked s) :
    s.vram.ctx.stats.totalVramBytes.toNat = s.vram.totalSize ↔ s.vram.totalSize < 2 ^ 64 := by
  have hmod : s.vram.ctx.stats.totalVramBytes.toNat = s.vram.totalSize % 2 ^ 64 := by
    rw [h.totalVramBytes]
    exact UInt64.toNat_ofNat'
  omega

theorem Booked.registrySound_iff (hcodec : codec.RoundTrips) (h : Booked s)
    (hcopies : CopiesSound codec s.vram) :
    RegistrySound codec s ↔ s.vram.totalSize < 2 ^ 64 := by
  rw [← h.totalVramBytes_iff]
  refine ⟨fun hsound => hsound.totalVramBytes, fun hsum => ?_⟩
  exact {
    records := h.records
    survivors := fun label s' hlabel hstep => hcopies.keepsRecords hcodec hlabel hstep
    rest := fun ptr => hcopies.keepsRest ptr
    le_cap := h.le_cap
    nBufs := h.nBufs
    totalVramBytes := hsum
    found := h.found }

theorem totalSize_register (realloc : Bool) (now : UInt64) (ptr size : Nat) (fmt : VramFormat)
    (isDevice : Bool) (v : Vram) :
    (vramRegister realloc now ptr size fmt isDevice v).2.totalSize =
      if ptr ≠ 0 ∧ (v.ctx.bufs.length < v.ctx.cap ∨ realloc = true) then v.totalSize + size
      else v.totalSize := by
  have hroom : (v.ctx.bufs.length < v.ctx.cap ∨ realloc = true) ↔
      ¬(v.ctx.bufs.length ≥ v.ctx.cap ∧ realloc = false) := by
    cases realloc <;> simp
  simp only [hroom, vramRegister]
  by_cases hptr : ptr = 0
  · simp [hptr]
  by_cases hfull : v.ctx.bufs.length ≥ v.ctx.cap ∧ realloc = false
  · simp [hptr, hfull]
  · simp [hptr, hfull, Vram.totalSize]

/-- Whether a step brings the sizes to 2^64 is decided by its registration. -/
theorem totalSize_step (hlt : s.vram.totalSize < 2 ^ 64)
    (hstep : logStep codec s label = some s') :
    s'.vram.totalSize < 2 ^ 64 ↔ SumFits s.vram label := by
  obtain ⟨v, hv, hs'⟩ := Option.map_eq_some_iff.1 hstep
  rw [← hs']
  dsimp only
  cases label with
  | register realloc now ptr size fmt isDevice =>
      rw [← Option.some.inj hv, totalSize_register, SumFits]
      split
      next hadds => exact ⟨fun hsum _ _ => hsum, fun hsum => hsum hadds.1 hadds.2⟩
      next hadds => exact iff_of_true hlt fun hptr hroom => absurd ⟨hptr, hroom⟩ hadds
  | unregister ptr =>
      refine iff_of_true ?_ trivial
      rw [← Option.some.inj hv]
      rcases vramUnregister_spec ptr s.vram with hfail | ⟨buf, rest, -, hbufs, hok⟩
      · rw [hfail]
        exact hlt
      · have hsum := (hbufs.map fun buf => buf.size).sum_eq
        rw [List.map_cons, List.sum_cons] at hsum
        rw [hok]
        refine Nat.lt_of_le_of_lt ?_ hlt
        show (rest.map fun buf => buf.size).sum ≤ s.vram.totalSize
        rw [Vram.totalSize, hsum]
        exact Nat.le_add_left _ _
  | _ =>
      refine iff_of_true ?_ trivial
      rw [Vram.totalSize_eq, (SameKeys.step rfl hv).1.keys, ← Vram.totalSize_eq]
      exact hlt

end Runs

/-- A new registry, with nothing in its log. -/
def VramLog.new (ctx : VramCtx) (mem : Nat → UInt8) : VramLog :=
  ⟨⟨ctx, mem, fun _ => none, 0⟩, [], []⟩

theorem booked_new {initialCap : Nat} {ctx : VramCtx}
    (hctx : vramCtxCreate true true initialCap = some ctx) (mem : Nat → UInt8) :
    Booked (.new ctx mem) := by
  injection hctx with hctx
  subst hctx
  refine ⟨⟨[], rfl, .refl _⟩, nofun, ?_, Nat.zero_le _, rfl, rfl⟩
  show 0 < if initialCap > 0 then initialCap else 64
  split <;> omega

/-- **The registry**: in a run from a new context every call returns, the records are the
registrations that are left and everything that is said of them holds in every state, exactly
when no compression hands the codec a buffer of more than 64 whole blocks and no registration
brings the sizes to 2^64. -/
theorem registrySound_along_iff {initialCap : Nat} {ctx : VramCtx}
    (hctx : vramCtxCreate true true initialCap = some ctx) (mem : Nat → UInt8)
    (labels : List VramLabel) :
    AlongAll (logStep aiWeights) (RegistrySound aiWeights) (.new ctx mem) labels ↔
      Guarded (logStep aiWeights) (fun s label => FitsStep s.vram label ∧ SumFits s.vram label)
        (.new ctx mem) labels := by
  have hbooked := booked_new hctx mem
  have hcopies : CopiesSound aiWeights (VramLog.new ctx mem).vram :=
    copiesSound_new aiWeights hctx mem
  have hkeep : ∀ s label s', Booked s ∧ CopiesSound aiWeights s.vram →
      logStep aiWeights s label = some s' → Booked s' ∧ CopiesSound aiWeights s'.vram := by
    intro s label s' h hstep
    obtain ⟨v, hv, hs'⟩ := Option.map_eq_some_iff.1 hstep
    refine ⟨h.1.step hstep, ?_⟩
    rw [← hs']
    exact h.2.step aiWeights_roundTrips hv
  apply alongAll_iff_guarded (I := fun s => Booked s ∧ CopiesSound aiWeights s.vram) hkeep
  · intro s label hsound h
    have hlt := (h.1.registrySound_iff aiWeights_roundTrips h.2).1 hsound
    have hfits : (∃ s', logStep aiWeights s label = some s') ↔ FitsStep s.vram label := by
      simp [← vramStep_isSome_iff h.2, logStep]
    rw [← hfits]
    constructor
    · rintro ⟨s', hstep, hsound'⟩
      have h' := hkeep s label s' h hstep
      rw [h'.1.registrySound_iff aiWeights_roundTrips h'.2, totalSize_step hlt hstep] at hsound'
      exact ⟨⟨s', hstep⟩, hsound'⟩
    · rintro ⟨⟨s', hstep⟩, hsum⟩
      have h' := hkeep s label s' h hstep
      refine ⟨s', hstep, ?_⟩
      rwa [h'.1.registrySound_iff aiWeights_roundTrips h'.2, totalSize_step hlt hstep]
  · rw [hbooked.registrySound_iff aiWeights_roundTrips hcopies]
    injection hctx with hctx
    rw [← hctx]
    exact Nat.two_pow_pos 64
  · exact ⟨hbooked, hcopies⟩

/-- A context for two buffers, the same pointer registered twice, its first buffer compressed and
then unregistered. -/
theorem registrySound_twice :
    AlongAll (logStep aiWeights) (RegistrySound aiWeights)
      (.new ⟨[], 2, ⟨0, 0, 0, 0, 0, 0, 0, 0⟩⟩ fun _ => 0)
      [.register true 0 0x1000 64 .fp16 false, .register true 0 0x1000 128 .int8 true,
        .register true 0 0x2000 64 .bf16 false, .compressBuf ⟨some fun _ => 0, 0, 0⟩ 0 .warm,
        .unregister 0x1000, .touch 0 0] := by
  have hctx : vramCtxCreate true true 2 = some ⟨[], 2, ⟨0, 0, 0, 0, 0, 0, 0, 0⟩⟩ := rfl
  refine (registrySound_along_iff hctx _ _).2 ?_
  decide +kernel

/-- A buffer of 8192 bytes is registered and compressed: the codec writes behind its tables. -/
theorem not_registrySound_large :
    ¬AlongAll (logStep aiWeights) (RegistrySound aiWeights)
      (.new ⟨[], 4, ⟨0, 0, 0, 0, 0, 0, 0, 0⟩⟩ fun _ => 0)
      [.register true 0 0x1000 8192 .fp16 false, .compressBuf ⟨some fun _ => 0, 0, 0⟩ 0 .warm] := by
  have hctx : vramCtxCreate true true 4 = some ⟨[], 4, ⟨0, 0, 0, 0, 0, 0, 0, 0⟩⟩ := rfl
  rw [registrySound_along_iff hctx]
  intro h
  have hle := (h.2 _ rfl).1.1 _ rfl rfl nofun rfl (by decide)
  revert hle
  decide

end MiniMem
