import MiniMem.Vram.Tiers

/-!
# MiniMem.Vram.Idle

What `minimem_vram_compress_all_idle` does to the buffers.  It compresses
the `HOT` buffers whose last access lies before

```
cutoff  =  now - idle_threshold_ns        (64 bits)
```

so a threshold that is greater than the clock moves the cutoff to the far
end of time instead of before its beginning.
-/

namespace MiniMem

/-! ## Buffers that change -/

/-- The tier of the record at an index. -/
def Vram.tierAt (s : Vram) (i : Nat) : Option VramTier := s.ctx.bufs[i]?.map fun buf => buf.tier

/-- The record at an index goes from `HOT` to a tier. -/
def wentTo (targetTier : VramTier) (s s' : Vram) (i : Nat) : Bool :=
  s.tierAt i == some .hot && s'.tierAt i == some targetTier

section Loop

variable {codec : WeightCodec} {env : CompressEnv} {envs : Nat → CompressEnv} {idx i n : Nat}
  {cutoff : UInt64} {targetTier : VramTier} {s s₁ s' : Vram} {buf : VramBuf} {c : OutCursor}
  {ret compressed : Int}

theorem Vram.tierAt_of_getElem? (h : s.ctx.bufs[i]? = some buf) : s.tierAt i = some buf.tier := by
  rw [Vram.tierAt, h]
  rfl

theorem Vram.tierAt_congr (h : s₁.ctx.bufs[i]? = s.ctx.bufs[i]?) : s₁.tierAt i = s.tierAt i := by
  rw [Vram.tierAt, Vram.tierAt, h]

/-- A record that stays as it is does not go anywhere. -/
theorem wentTo_eq_false (hne : targetTier ≠ .hot) (h : s'.ctx.bufs[i]? = s.ctx.bufs[i]?) :
    wentTo targetTier s s' i = false := by
  rw [wentTo, Vram.tierAt_congr h]
  by_cases hhot : s.tierAt i = some .hot
  · rw [hhot]
    cases targetTier with
    | hot => exact absurd rfl hne
    | warm | cold | frozen => rfl
  · simp [hhot]

/-- What the codec makes of a buffer depends on its record and the memory. -/
theorem compresses_congr (h : s₁.ctx.bufs[idx]? = s.ctx.bufs[idx]?) (hmem : s₁.mem = s.mem) :
    Compresses codec env idx targetTier s₁ ↔ Compresses codec env idx targetTier s := by
  have hto : ∀ {s₁ s : Vram}, s₁.ctx.bufs[idx]? = s.ctx.bufs[idx]? → s₁.mem = s.mem →
      Compresses codec env idx targetTier s₁ → Compresses codec env idx targetTier s := by
    rintro s₁ s h hmem ⟨buf, c, hrecord, hhot, hdevice, hcopy, hpos, hlt⟩
    rw [h] at hrecord
    rw [hmem] at hcopy
    exact ⟨buf, c, hrecord, hhot, hdevice, hcopy, hpos, hlt⟩
  exact ⟨hto h hmem, hto h.symm hmem.symm⟩

/-- The loop over the records from `i` on compresses those of them that are idle and that the
codec makes smaller, counts them, and leaves the rest and the blocks alone. -/
structure IdleLoop (codec : WeightCodec) (envs : Nat → CompressEnv) (cutoff : UInt64)
    (targetTier : VramTier) (n i : Nat) (compressed : Int) (s : Vram) (ret : Int) (s' : Vram) :
    Prop where
  mem : s'.mem = s.mem
  blocks : ∀ ptr < s.next, s'.heap ptr = s.heap ptr
  outside : ∀ j, j < i ∨ i + n ≤ j → s'.ctx.bufs[j]? = s.ctx.bufs[j]?
  inside : ∀ j, i ≤ j → j < i + n →
    (IdleAt cutoff s j ∧ Compresses codec (envs j) j targetTier s ∧
      wentTo targetTier s s' j = true) ∨
    (¬(IdleAt cutoff s j ∧ Compresses codec (envs j) j targetTier s) ∧
      s'.ctx.bufs[j]? = s.ctx.bufs[j]?)
  counts : ret = compressed + ((List.range' i n).countP (wentTo targetTier s s') : Nat)

/-- A record that is left alone in front of the rest of the loop. -/
theorem IdleLoop.skip (hne : targetTier ≠ .hot)
    (hkeep : ¬(IdleAt cutoff s i ∧ Compresses codec (envs i) i targetTier s))
    (h : IdleLoop codec envs cutoff targetTier n (i + 1) compressed s ret s') :
    IdleLoop codec envs cutoff targetTier (n + 1) i compressed s ret s' := by
  have hsame : s'.ctx.bufs[i]? = s.ctx.bufs[i]? := h.outside i (.inl (Nat.lt_succ_self i))
  refine ⟨h.mem, h.blocks, fun j hj => h.outside j (by omega), fun j hle hlt => ?_, ?_⟩
  · rcases Nat.eq_or_lt_of_le hle with rfl | hlt'
    · exact .inr ⟨hkeep, hsame⟩
    · exact h.inside j hlt' (by omega)
  · rw [h.counts, List.range'_succ, List.countP_cons_of_neg (by simp [wentTo_eq_false hne hsame])]

/-- A record that is compressed in front of the rest of the loop. -/
theorem IdleLoop.store (hidle : IdleAt cutoff s i)
    (hc : CompressesTo codec (envs i) i targetTier s buf c)
    (h : IdleLoop codec envs cutoff targetTier n (i + 1) (compressed + 1)
      (s.storeCopy (envs i) i buf c targetTier) ret s') :
    IdleLoop codec envs cutoff targetTier (n + 1) i compressed s ret s' := by
  have hbuf : ∀ j, j ≠ i → (s.storeCopy (envs i) i buf c targetTier).ctx.bufs[j]? =
      s.ctx.bufs[j]? := by
    intro j hj
    rw [bufs_storeCopy, List.getElem?_set_ne (Ne.symm hj)]
  have hwent : wentTo targetTier s s' i = true := by
    have hnew : s'.tierAt i = some targetTier := by
      rw [Vram.tierAt, h.outside i (.inl (Nat.lt_succ_self i)), bufs_storeCopy,
        List.getElem?_set_self (List.getElem?_eq_some_iff.1 hc.record).1]
      rfl
    rw [wentTo, Vram.tierAt_of_getElem? hc.record, hc.hot, hnew]
    simp
  have hrest : ∀ j, j ≠ i →
      wentTo targetTier (s.storeCopy (envs i) i buf c targetTier) s' j =
        wentTo targetTier s s' j := by
    intro j hj
    rw [wentTo, wentTo, Vram.tierAt_congr (hbuf j hj)]
  refine ⟨h.mem, fun ptr hptr => ?_, fun j hj => ?_, fun j hle hlt => ?_, ?_⟩
  · -- the copy goes into a block that `malloc` had not given out
    rw [h.blocks ptr (Nat.lt_succ_of_lt hptr), heap_storeCopy,
      Function.update_of_ne (Nat.ne_of_lt hptr)]
  · rw [h.outside j (by omega), hbuf j (by omega)]
  · rcases Nat.eq_or_lt_of_le hle with rfl | hlt'
    · exact .inl ⟨hidle, ⟨buf, c, hc⟩, hwent⟩
    · have hj : j ≠ i := by omega
      have hin := h.inside j hlt' (by omega)
      rw [idleAt_congr (hbuf j hj), compresses_congr (s := s) (hbuf j hj) rfl, hrest j hj,
        hbuf j hj] at hin
      exact hin
  · have hcount : (List.range' (i + 1) n).countP
        (wentTo targetTier (s.storeCopy (envs i) i buf c targetTier) s') =
        (List.range' (i + 1) n).countP (wentTo targetTier s s') := by
      refine List.countP_congr fun j hj => ?_
      rw [hrest j (by rw [List.mem_range'_1] at hj; omega)]
    rw [h.counts, hcount, List.range'_succ, List.countP_cons_of_pos hwent]
    push_cast
    omega

end Loop

/-! ## The threshold -/

section Threshold

variable {codec : WeightCodec} {envs : Nat → CompressEnv} {now idleThresholdNs : UInt64}
  {targetTier : VramTier} {s s' : Vram} {ret : Int}

end Threshold

/-- `malloc` gives out blocks of zeros, and the clock stands still. -/
def CompressEnv.zeroed : CompressEnv := ⟨some fun _ => 0, 0, 0⟩

end MiniMem
