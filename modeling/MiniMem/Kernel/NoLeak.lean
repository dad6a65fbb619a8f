import MiniMem.Kernel.Ops

/-!
# MiniMem.Kernel.NoLeak

Map, pool and counter agree: every live handle belongs to exactly one map
entry, every entry's handle is live, and the counter counts the entries.

`minimem_map_store` counts up and puts its entry in place of whatever was
there, so the agreement survives an operation exactly when the operation
does not store at an address that already has an entry.
-/

namespace MiniMem

/-- The representation invariant of map, pool and counter. -/
structure NoLeak (k : Kernel) : Prop where
  live_iff : ∀ h, k.pool.Live h ↔ ∃ i entry, k.map.entries.load i = some entry ∧ entry.zsHandle = h
  unique : ∀ i j e e', k.map.entries.load i = some e → k.map.entries.load j = some e' →
    e.zsHandle = e'.zsHandle → i = j
  count_eq : k.map.count = k.map.entries.size

/-- An operation enters pages at free addresses only. -/
def StoresVacant (codec : Codec) (k : Kernel) (op : Op) : Prop :=
  ∀ vaddr, storesAt codec k op = some vaddr → mapLookup k.map vaddr = none

theorem SameStorage.noLeak_iff {k k' : Kernel} (hsame : SameStorage k k') :
    NoLeak k' ↔ NoLeak k := by
  constructor
  · rintro ⟨hlive, hunique, hcount⟩
    simp only [Pool.Live, hsame.map, hsame.objs] at hlive hunique hcount
    exact ⟨hlive, hunique, hcount⟩
  · rintro ⟨hlive, hunique, hcount⟩
    refine ⟨?_, ?_, ?_⟩
    · simpa only [Pool.Live, hsame.map, hsame.objs] using hlive
    · simpa only [hsame.map] using hunique
    · simpa only [hsame.map] using hcount

/-- Dropping an entry with its handle keeps the agreement. -/
theorem NoLeak.drop {k : Kernel} {vaddr : Nat} {entry : MapEntry}
    (hlookup : mapLookup k.map vaddr = some entry) (h : NoLeak k) :
    NoLeak (k.dropEntry vaddr entry.zsHandle) where
  live_iff := by
    intro handle
    rw [Pool.Live, pool_dropEntry, objs_free]
    by_cases hh : handle = entry.zsHandle
    · simp only [if_pos hh, Option.isSome_none, Bool.false_eq_true, false_iff, not_exists, not_and]
      intro i e hload he
      rw [load_dropEntry] at hload
      split at hload
      · cases hload
      next hi =>
        exact hi (h.unique i _ e entry hload hlookup (he.trans hh))
    · rw [if_neg hh]
      rw [show (k.pool.objs handle).isSome = true ↔ k.pool.Live handle from Iff.rfl, h.live_iff]
      constructor
      · rintro ⟨i, e, hload, he⟩
        refine ⟨i, e, ?_, he⟩
        rw [load_dropEntry, if_neg, hload]
        rintro rfl
        rw [mapLookup] at hlookup
        rw [hlookup] at hload
        injection hload with hload
        exact hh (by rw [← he, hload])
      · rintro ⟨i, e, hload, he⟩
        rw [load_dropEntry] at hload
        split at hload
        · cases hload
        · exact ⟨i, e, hload, he⟩
  unique := unique_dropEntry h.unique vaddr entry.zsHandle
  count_eq := by
    have hpos := XArray.size_pos_of_load hlookup
    rw [Kernel.dropEntry, mapRemove_of_lookup hlookup]
    show k.map.count - 1 = ((k.map.entries.erase (vaddrToIndex vaddr)).size : Nat)
    rw [XArray.size_erase, if_neg (by rw [← mapLookup, hlookup]; simp), h.count_eq]
    omega

theorem dropClosed_noLeak : DropClosed NoLeak where
  same _ _ hsame h := hsame.noLeak_iff.2 h
  drop _ _ _ hlookup h := h.drop hlookup

/-- Entering a page at a free address keeps the agreement. -/
theorem NoLeak.add {k : Kernel} (hwf : k.pool.Wf) {vaddr : Nat}
    (hvacant : mapLookup k.map vaddr = none) (algo : AlgoId) (bytes : List UInt8)
    (h : NoLeak k) : NoLeak (k.addEntry vaddr algo bytes) where
  live_iff := by
    intro handle
    rw [Pool.Live, Kernel.addEntry, objs_malloc]
    by_cases hh : handle = k.pool.next
    · simp only [if_pos hh, Option.isSome_some, true_iff]
      exact ⟨vaddrToIndex vaddr, _, XArray.load_store_self, hh.symm⟩
    · rw [if_neg hh]
      rw [show (k.pool.objs handle).isSome = true ↔ k.pool.Live handle from Iff.rfl, h.live_iff]
      constructor
      · rintro ⟨i, e, hload, he⟩
        refine ⟨i, e, ?_, he⟩
        rw [XArray.load_store_of_ne, hload]
        rintro rfl
        rw [mapLookup, hload] at hvacant
        cases hvacant
      · rintro ⟨i, e, hload, he⟩
        rw [XArray.load_store] at hload
        split at hload
        · injection hload with hload
          exact absurd (by rw [← he, ← hload]) hh
        · exact ⟨i, e, hload, he⟩
  unique := by
    have hfresh : ∀ i e, k.map.entries.load i = some e → e.zsHandle ≠ k.pool.next := by
      intro i e hload he
      have hlt := hwf.lt_next _ ((h.live_iff _).2 ⟨i, e, hload, rfl⟩)
      omega
    exact unique_addEntry h.unique hfresh vaddr algo bytes
  count_eq := by
    show k.map.count + 1 = ((k.map.entries.store _ _).size : Nat)
    rw [mapLookup] at hvacant
    rw [XArray.size_store, if_pos hvacant, h.count_eq]
    rfl

/-- A handle whose entry was overwritten is live and in no entry. -/
theorem NoLeak.not_of_overwritten {k k' : Kernel} {vaddr : Nat} {entry : MapEntry}
    (hlookup : mapLookup k.map vaddr = some entry) (h : NoLeak k)
    (hlive : k'.pool.Live entry.zsHandle)
    (hload : ∀ i e, k'.map.entries.load i = some e → e.zsHandle = entry.zsHandle →
      i ≠ vaddrToIndex vaddr ∧ k.map.entries.load i = some e) : ¬ NoLeak k' := by
  intro h'
  obtain ⟨i, e, hi, he⟩ := (h'.live_iff _).1 hlive
  obtain ⟨hne, hold⟩ := hload i e hi he
  exact hne (h.unique i _ e entry hold hlookup he)

/-- Entering a page over an existing entry breaks the agreement, whether it stays or is
taken back out. -/
theorem NoLeak.not_add {k : Kernel} (hwf : k.pool.Wf) {vaddr : Nat} {entry : MapEntry}
    (hlookup : mapLookup k.map vaddr = some entry) (algo : AlgoId) (bytes : List UInt8)
    (h : NoLeak k) :
    ¬ NoLeak (k.addEntry vaddr algo bytes) ∧
      ¬ NoLeak ((k.addEntry vaddr algo bytes).dropEntry vaddr k.pool.next) := by
  have hlive : k.pool.Live entry.zsHandle := (h.live_iff _).2 ⟨_, entry, hlookup, rfl⟩
  have hne : entry.zsHandle ≠ k.pool.next := by
    have := hwf.lt_next _ hlive
    omega
  have hlive' : (k.addEntry vaddr algo bytes).pool.Live entry.zsHandle := by
    rw [Pool.Live, Kernel.addEntry, objs_malloc, if_neg hne]
    exact hlive
  constructor
  · apply h.not_of_overwritten hlookup hlive'
    intro i e hi he
    rw [load_addEntry] at hi
    split at hi
    · injection hi with hi
      exact absurd (by rw [← he, ← hi]) hne
    next hiv => exact ⟨hiv, hi⟩
  · apply h.not_of_overwritten hlookup
    · rw [Pool.Live, pool_dropEntry, objs_free, if_neg hne]
      exact hlive'
    · intro i e hi he
      rw [load_dropEntry] at hi
      split at hi
      · cases hi
      next hiv =>
        rw [load_addEntry, if_neg hiv] at hi
        exact ⟨hiv, hi⟩

/-- One operation keeps the agreement exactly when it stores at free addresses only. -/
theorem noLeak_exec_iff {codec : Codec} {k : Kernel} (hwf : k.pool.Wf) (h : NoLeak k) (op : Op) :
    NoLeak (exec codec k op) ↔ StoresVacant codec k op := by
  cases hop : storesAt codec k op with
  | none =>
      have hkeep := dropClosed_noLeak.exec hwf hop h
      simp [StoresVacant, hop, hkeep]
  | some vaddr =>
      obtain ⟨algo, bytes, hsame⟩ := exec_of_storesAt hwf hop
      simp only [StoresVacant, hop, Option.some.injEq, forall_eq']
      cases hlookup : mapLookup k.map vaddr with
      | none =>
          simp only [iff_true]
          have hadd := h.add hwf hlookup algo bytes
          rcases hsame with hsame | hsame
          · exact hsame.noLeak_iff.2 hadd
          · have hself : mapLookup (k.addEntry vaddr algo bytes).map vaddr
                = some ⟨algo, bytes.length, k.pool.next⟩ := by
              rw [mapLookup, load_addEntry, if_pos rfl]
            exact hsame.noLeak_iff.2 (hadd.drop hself)
      | some entry =>
          obtain ⟨hnot, hnotDrop⟩ := h.not_add hwf hlookup algo bytes
          simp only [reduceCtorEq, iff_false]
          intro hexec
          rcases hsame with hsame | hsame
          · exact hnot (hsame.noLeak_iff.1 hexec)
          · exact hnotDrop (hsame.noLeak_iff.1 hexec)

/-- The state at load agrees. -/
theorem noLeak_loaded (mms : Nat → Mm) (frames : Frames) (maxPoolPages minSavingsPct : Int)
    (symbolsResolved : Bool) :
    NoLeak (.loaded mms frames maxPoolPages minSavingsPct symbolsResolved) where
  live_iff := by simp [Kernel.loaded, Pool.Live]
  unique := by simp [Kernel.loaded]
  count_eq := by simp [Kernel.loaded]

/-- A run from a state that agrees, agrees throughout exactly when every operation of it
stores at free addresses only. -/
theorem noLeak_along_iff_of {codec : Codec} {k : Kernel} (hwf : k.pool.Wf) (h : NoLeak k)
    (ops : List Op) :
    Along (opStep codec) NoLeak k ops ↔ Guarded (opStep codec) (StoresVacant codec) k ops := by
  apply along_iff_guarded (I := fun k => k.pool.Wf) _ _ _ ops h hwf
  · intro k op _ hstep
    cases hstep
  · intro k op k' hwf hstep
    cases hstep
    exact wf_exec hwf op
  · intro k op k' h hwf hstep
    cases hstep
    exact noLeak_exec_iff hwf h op

/-- **No leaked storage**: from module load on, map, pool and counter agree in every state
of a run exactly when no operation of it stores at an address that has an entry. -/
theorem noLeak_along_iff (codec : Codec) (mms : Nat → Mm) (frames : Frames)
    (maxPoolPages minSavingsPct : Int) (symbolsResolved : Bool) (ops : List Op) :
    Along (opStep codec) NoLeak
        (.loaded mms frames maxPoolPages minSavingsPct symbolsResolved) ops ↔
      Guarded (opStep codec) (StoresVacant codec)
        (.loaded mms frames maxPoolPages minSavingsPct symbolsResolved) ops :=
  noLeak_along_iff_of (wf_loaded mms frames _ _ _) (noLeak_loaded mms frames _ _ _) ops

/-! ## Storing twice -/

/-- Storing the zero page twice at one address. -/
def storeTwice : List Op := [.store .ok 0x1000 0, .store .ok 0x1000 0]

/-- The second store leaves the first handle live and in no entry. -/
theorem not_noLeak_storeTwice : ¬ Along (opStep samePageCodec) NoLeak .blank storeTwice := by
  have hstore : ∀ k : Kernel, k.maxPoolPages = 0 → k.minSavingsPct = 0 →
      k.frames.data 0 = Page.fill 0 →
      storesAt samePageCodec k (.store .ok 0x1000 0) = some 0x1000 ∧
        (exec samePageCodec k (.store .ok 0x1000 0)).map
          = (k.addEntry 0x1000 .samePage [0]).map ∧
        (exec samePageCodec k (.store .ok 0x1000 0)).frames = k.frames ∧
        (exec samePageCodec k (.store .ok 0x1000 0)).maxPoolPages = 0 ∧
        (exec samePageCodec k (.store .ok 0x1000 0)).minSavingsPct = 0 := by
    intro k hlimit hpct hpage
    have hbuf : compressBuf samePageCodec .ok k.minSavingsPct (k.frames.data 0)
        = .ok (.samePage, [0]) := by
      rw [hpct, hpage, compressBuf_fill (samePageCodec_compress_fill 0)]
    have hnolimit : ¬ (k.maxPoolPages > 0 ∧ k.stats.storedPages ≥ k.maxPoolPages) := by omega
    refine ⟨?_, ?_⟩
    · rw [storesAt, if_neg hnolimit, reachesStore_of_ok hbuf]
      rfl
    · rw [exec, compressAndStore, if_neg hnolimit, hbuf]
      exact ⟨rfl, rfl, hlimit, hpct⟩
  obtain ⟨-, hmap, hframes, hlimit, hpct⟩ := hstore .blank rfl rfl rfl
  obtain ⟨hat, -⟩ := hstore _ hlimit hpct (by rw [hframes]; rfl)
  rw [Kernel.blank, noLeak_along_iff_of (wf_loaded _ _ _ _ _) (noLeak_loaded _ _ _ _ _)]
  rintro ⟨-, hguarded⟩
  obtain ⟨hvacant, -⟩ := hguarded _ rfl
  have hnone := hvacant _ hat
  rw [← Kernel.blank, mapLookup, hmap, load_addEntry] at hnone
  cases hnone

end MiniMem
