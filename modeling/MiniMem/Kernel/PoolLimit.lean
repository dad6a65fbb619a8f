import MiniMem.Kernel.Accounting

/-!
# MiniMem.Kernel.PoolLimit

The limit on the pool.  `minimem_compress_and_store` refuses a page while
`mm_stored_pages` is at `max_pool_pages`; a replacement does not look at the
limit, and neither counts what it adds.

The number of entries stays within the limit exactly as long as every
operation that adds one finds fewer than the limit.  The check of
`minimem_compress_and_store` sees to that as long as no replacement adds an
entry, because then `mm_stored_pages` is never behind the map.
-/

namespace MiniMem

/-- The map holds at most `limit` entries. -/
def WithinLimit (limit : Nat) (k : Kernel) : Prop := k.map.entries.size ≤ limit

/-- An operation leaves an entry where there was none. -/
def Adds (codec : Codec) (k : Kernel) : PoolOp → Prop
  | .store env vaddr pfn =>
      storesAt codec k (.store env vaddr pfn) ≠ none ∧ mapLookup k.map vaddr = none
  | .replace env mm addr =>
      replaceStores codec env k mm addr ≠ none ∧ ReplaceInstalls env k mm addr ∧
        mapLookup k.map addr = none
  | _ => False

/-- An operation that adds an entry finds room for it. -/
def HasRoom (limit : Nat) (codec : Codec) (k : Kernel) (op : PoolOp) : Prop :=
  Adds codec k op → k.map.entries.size < limit

/-- No replacement adds an entry. -/
def NoReplaceAdds (codec : Codec) (k : Kernel) (op : PoolOp) : Prop :=
  ∀ env mm addr, op = .replace env mm addr → ¬Adds codec k op

/-! ## What an operation adds -/

theorem entriesLe_of_books {k k' : Kernel} {C : Prop}
    (hcases : (C ∧ EntriesLt k k') ∨ (¬C ∧ SameBooks k k')) : EntriesLe k k' := by
  rcases hcases with ⟨-, hlt⟩ | ⟨-, hsame⟩
  · exact hlt.toEntriesLe
  · exact hsame.entriesLe

theorem size_addEntry (k : Kernel) (vaddr : Nat) (algo : AlgoId) (bytes : List UInt8) :
    (k.addEntry vaddr algo bytes).map.entries.size =
      if mapLookup k.map vaddr = none then k.map.entries.size + 1 else k.map.entries.size :=
  XArray.size_store

/-- A replacement that does not add an entry takes none in, and counts none out. -/
theorem entriesLe_or_adds_replace (codec : Codec) (env : ReplaceEnv) {k : Kernel}
    (hok : PoolOk k) (mm addr : Nat) :
    ((compressAndReplacePte codec env k mm addr).2.map.entries.size = k.map.entries.size + 1 ∧
      Adds codec k (.replace env mm addr)) ∨
    ((compressAndReplacePte codec env k mm addr).2.map.entries.size ≤ k.map.entries.size ∧
      (compressAndReplacePte codec env k mm addr).2.stats.storedPages = k.stats.storedPages ∧
      ¬Adds codec k (.replace env mm addr)) := by
  have hcases := replace_cases codec env hok.storage.wf mm addr
  generalize compressAndReplacePte codec env k mm addr = result at hcases
  unfold Adds
  cases hcases with
  | refused hret hstores => exact .inr ⟨Nat.le_refl _, rfl, fun h => h.1 hstores⟩
  | @undone ret pfn algo bytes hret hstores hinstalls =>
      refine .inr ⟨?_, ?_, fun h => hinstalls h.2.1⟩
      · rw [map_unreplaced, map_relock]
        show (k.map.entries.erase _).size ≤ _
        rw [XArray.size_erase]
        split <;> omega
      · show (k.relock mm (pageMask addr) env.relock).1.stats.storedPages = _
        rw [stats_relock]
  | @done pfn algo bytes hstores hinstalls =>
      have hsize : (k.replaced mm (pageMask addr) pfn algo bytes).map.entries.size = _ :=
        size_addEntry k (pageMask addr) algo bytes
      rw [mapLookup_pageMask] at hsize
      by_cases hvacant : mapLookup k.map addr = none
      · rw [if_pos hvacant] at hsize
        exact .inl ⟨hsize, by simp [hstores], hinstalls, hvacant⟩
      · rw [if_neg hvacant] at hsize
        exact .inr ⟨Nat.le_of_eq hsize, rfl, fun h => hvacant h.2.2⟩

/-- Neither stores nor replaces. -/
theorem entriesLe_exec (codec : Codec) {k : Kernel} (hok : PoolOk k) {op : PoolOp}
    (hstore : ∀ env vaddr pfn, op ≠ .store env vaddr pfn)
    (hreplace : ∀ env mm addr, op ≠ .replace env mm addr) :
    EntriesLe k (poolExec codec k op) := by
  cases op with
  | write mm vaddr page => exact (userWrite_books k mm vaddr page).entriesLe
  | store env vaddr pfn => exact absurd rfl (hstore env vaddr pfn)
  | replace env mm addr => exact absurd rfl (hreplace env mm addr)
  | restore env vaddr pfn => exact entriesLe_of_books (restore_books codec env hok vaddr pfn)
  | vmFault env vmf => exact entriesLe_of_books (vmFault_books codec env hok vmf)
  | stockFault env vmf =>
      have hbooks := vmFault_books codec env hok vmf
      rw [← stockMarkerFault_snd] at hbooks
      exact entriesLe_of_books hbooks
  | remove vaddr => exact entriesLe_of_books (zswapRemove_books hok vaddr)
  | zapCb addr => exact entriesLe_of_books (zapCb_books hok addr)
  | shrink nrToScan => exact entriesLe_of_books (shrinkScan_books hok nrToScan)
  | drain tasks => exact entriesLe_of_books (drainAndRestore_books codec hok tasks)

/-- An operation adds one entry or none. -/
theorem size_exec (codec : Codec) {k : Kernel} (hok : PoolOk k) (op : PoolOp) :
    (Adds codec k op ∧ (poolExec codec k op).map.entries.size = k.map.entries.size + 1) ∨
    (¬Adds codec k op ∧ (poolExec codec k op).map.entries.size ≤ k.map.entries.size) := by
  cases op with
  | store env vaddr pfn =>
      unfold Adds
      rcases compressAndStore_cases codec env hok.storage.wf vaddr pfn with ⟨hnone, hsame⟩ |
        ⟨algo, bytes, hat, -, hdone⟩
      · exact .inr ⟨fun h => h.1 hnone, hsame.entriesLe.size⟩
      · have hsize : (poolExec codec k (.store env vaddr pfn)).map.entries.size = _ :=
          (congrArg (fun k => k.map.entries.size) hdone).trans (size_addEntry k vaddr algo bytes)
        by_cases hvacant : mapLookup k.map vaddr = none
        · rw [if_pos hvacant] at hsize
          exact .inl ⟨⟨by simp [hat], hvacant⟩, hsize⟩
        · rw [if_neg hvacant] at hsize
          exact .inr ⟨fun h => hvacant h.2, Nat.le_of_eq hsize⟩
  | replace env mm addr =>
      rcases entriesLe_or_adds_replace codec env hok mm addr with ⟨hsize, hadds⟩ |
        ⟨hsize, -, hadds⟩
      · exact .inl ⟨hadds, hsize⟩
      · exact .inr ⟨hadds, hsize⟩
  | _ => exact .inr ⟨id, (entriesLe_exec codec hok (by simp) (by simp)).size⟩

/-- Unless a replacement adds an entry, `mm_stored_pages` does not fall behind the map. -/
theorem uncounted_exec (codec : Codec) {k : Kernel} (hok : PoolOk k) {op : PoolOp}
    (hadds : NoReplaceAdds codec k op) :
    (poolExec codec k op).map.entries.size - (poolExec codec k op).stats.storedPages ≤
      k.map.entries.size - k.stats.storedPages := by
  cases op with
  | store env vaddr pfn =>
      rcases compressAndStore_cases codec env hok.storage.wf vaddr pfn with ⟨-, hsame⟩ |
        ⟨algo, bytes, -, -, hdone⟩
      · exact hsame.entriesLe.uncounted
      · have hsize := size_addEntry k vaddr algo bytes
        show ((compressAndStore codec env k vaddr pfn).2.map.entries.size : Int) -
          (compressAndStore codec env k vaddr pfn).2.stats.storedPages ≤ _
        rw [hdone]
        show ((k.addEntry vaddr algo bytes).map.entries.size : Int) - (k.stats.storedPages + 1) ≤ _
        split at hsize <;> omega
  | replace env mm addr =>
      rcases entriesLe_or_adds_replace codec env hok mm addr with ⟨-, hadds'⟩ |
        ⟨hsize, hstored, -⟩
      · exact absurd hadds' (hadds env mm addr rfl)
      · show ((compressAndReplacePte codec env k mm addr).2.map.entries.size : Int) -
          (compressAndReplacePte codec env k mm addr).2.stats.storedPages ≤ _
        omega
  | _ => exact (entriesLe_exec codec hok (by simp) (by simp)).uncounted

/-! ## The limit does not change -/

theorem maxPoolPages_relock (k : Kernel) (mm vaddr : Nat) (relock : Relock) :
    (k.relock mm vaddr relock).1.maxPoolPages = k.maxPoolPages := by
  cases relock <;> rfl

theorem maxPoolPages_installPage (k : Kernel) (vma : Vma) (mm vaddr : Nat) (orig : Pte)
    (page : Page) (relock : Relock) :
    (k.installPage vma mm vaddr orig page relock).maxPoolPages = k.maxPoolPages := by
  rw [installPage_eq]
  split <;> exact maxPoolPages_relock ..

theorem maxPoolPages_mapDrainLoop (n cursor : Nat) (k : Kernel) :
    (mapDrainLoop shrinkDrainCallback n cursor k).2.maxPoolPages = k.maxPoolPages := by
  induction n generalizing cursor k with
  | zero => rfl
  | succ n ih =>
      unfold mapDrainLoop
      split
      · rfl
      · exact ih ..

theorem maxPoolPages_drainVisit (codec : Codec) (acc : Nat × Kernel) (v : Visit) :
    (drainVisit codec acc v).2.maxPoolPages = acc.2.maxPoolPages := by
  obtain ⟨n, k⟩ := acc
  rcases drainVisit_cases codec n k v with ⟨hdone, -⟩ |
    ⟨orig, entry, -, -, -, -, ⟨-, hdone⟩ | ⟨page, -, hdone⟩⟩
  · rw [hdone]
  · rw [hdone]
    rfl
  · rw [hdone]
    exact maxPoolPages_installPage ..

theorem maxPoolPages_visits (codec : Codec) (vs : List Visit) (acc : Nat × Kernel) :
    (vs.foldl (drainVisit codec) acc).2.maxPoolPages = acc.2.maxPoolPages := by
  induction vs generalizing acc with
  | nil => rfl
  | cons v vs ih => rw [List.foldl_cons, ih, maxPoolPages_drainVisit]

theorem maxPoolPages_storeCompressed (k : Kernel) (env : StoreEnv) (vaddr : Nat) (algo : AlgoId)
    (bytes : List UInt8) :
    (storeCompressed k env vaddr algo bytes).2.maxPoolPages = k.maxPoolPages := by
  unfold storeCompressed
  split
  · rfl
  · dsimp only
    split <;> rfl

theorem maxPoolPages_resolveFault (codec : Codec) (env : FaultEnv) (k : Kernel)
    (vmf : FaultInfo) :
    (resolveFault codec env k vmf).2.maxPoolPages = k.maxPoolPages := by
  unfold resolveFault
  dsimp only
  repeat' split
  all_goals first | rfl | exact maxPoolPages_installPage ..

theorem maxPoolPages_vmFaultHandler (codec : Codec) (env : FaultEnv) (k : Kernel)
    (vmf : FaultInfo) :
    (vmFaultHandler codec env k vmf).2.maxPoolPages = k.maxPoolPages := by
  rw [vmFaultHandler_snd]
  split
  · rfl
  · exact maxPoolPages_resolveFault ..

/-- No operation changes `max_pool_pages`. -/
theorem maxPoolPages_exec (codec : Codec) {k : Kernel} (hok : PoolOk k) (op : PoolOp) :
    (poolExec codec k op).maxPoolPages = k.maxPoolPages := by
  cases op with
  | write mm vaddr page =>
      show (userWrite k mm vaddr page).maxPoolPages = _
      unfold userWrite
      split <;> rfl
  | store env vaddr pfn =>
      show (compressAndStore codec env k vaddr pfn).2.maxPoolPages = _
      unfold compressAndStore
      split
      · rfl
      split
      · rfl
      next algo bytes _ =>
        have hkeep := maxPoolPages_storeCompressed k env vaddr algo bytes
        generalize storeCompressed k env vaddr algo bytes = stored at hkeep
        obtain ⟨result, k'⟩ := stored
        cases result <;> exact hkeep
  | replace env mm addr =>
      show (compressAndReplacePte codec env k mm addr).2.maxPoolPages = _
      have hcases := replace_cases codec env hok.storage.wf mm addr
      generalize compressAndReplacePte codec env k mm addr = result at hcases
      cases hcases with
      | refused => rfl
      | undone => exact maxPoolPages_relock ..
      | done => rfl
  | restore env vaddr pfn =>
      show (decompressAndRestore codec env k vaddr pfn).2.maxPoolPages = _
      unfold decompressAndRestore
      dsimp only
      repeat' split
      all_goals rfl
  | vmFault env vmf => exact maxPoolPages_vmFaultHandler ..
  | stockFault env vmf =>
      show (stockMarkerFault codec env k vmf).2.maxPoolPages = _
      rw [stockMarkerFault_snd, maxPoolPages_vmFaultHandler]
  | remove vaddr =>
      show (zswapRemove k vaddr).2.maxPoolPages = _
      unfold zswapRemove
      repeat' split
      all_goals rfl
  | zapCb addr =>
      show (zapCb k addr).maxPoolPages = _
      unfold zapCb
      dsimp only
      split <;> rfl
  | shrink nrToScan =>
      show (shrinkScan k nrToScan).2.maxPoolPages = _
      unfold shrinkScan
      split
      · rfl
      · exact maxPoolPages_mapDrainLoop ..
  | drain tasks =>
      show (drainAndRestore codec tasks k).2.maxPoolPages = _
      unfold drainAndRestore
      split
      · rfl
      · rw [drainProcess_foldl_eq]
        exact maxPoolPages_visits ..

/-! ## Runs -/

/-- One operation from within the limit stays within it exactly when it has room. -/
theorem withinLimit_exec_iff (codec : Codec) {limit : Nat} {k : Kernel} (hok : PoolOk k)
    (h : WithinLimit limit k) (op : PoolOp) :
    WithinLimit limit (poolExec codec k op) ↔ HasRoom limit codec k op := by
  unfold WithinLimit HasRoom at *
  rcases size_exec codec hok op with ⟨hadds, hsize⟩ | ⟨hadds, hsize⟩
  · rw [hsize]
    exact ⟨fun hle _ => hle, fun hroom => hroom hadds⟩
  · exact iff_of_true (Nat.le_trans hsize h) fun hadds' => absurd hadds' hadds

theorem withinLimit_along_iff_of (codec : Codec) {limit : Nat} {k : Kernel} (hok : PoolOk k)
    (h : WithinLimit limit k) (ops : List PoolOp) :
    Along (poolStep codec) (WithinLimit limit) k ops ↔
      Guarded (poolStep codec) (HasRoom limit codec) k ops := by
  apply along_iff_guarded (I := PoolOk) _ _ _ ops h hok
  · intro k op _ hstep
    cases hstep
  · intro k op k' hok hstep
    cases hstep
    exact poolOk_exec codec hok op
  · intro k op k' h hok hstep
    cases hstep
    exact withinLimit_exec_iff codec hok h op

/-- What keeps the limit while no replacement adds an entry: the counter that
`minimem_compress_and_store` checks is not behind the map. -/
structure LimitInv (limit : Nat) (k : Kernel) : Prop where
  pool : PoolOk k
  maxPoolPages : k.maxPoolPages = limit
  counted : (k.map.entries.size : Int) ≤ k.stats.storedPages
  within : WithinLimit limit k

theorem LimitInv.exec {codec : Codec} {limit : Nat} (hlimit : 0 < limit) {k : Kernel}
    (h : LimitInv limit k) {op : PoolOp} (hadds : NoReplaceAdds codec k op) :
    LimitInv limit (poolExec codec k op) where
  pool := poolOk_exec codec h.pool op
  maxPoolPages := (maxPoolPages_exec codec h.pool op).trans h.maxPoolPages
  counted := by
    have hlag := uncounted_exec codec h.pool hadds
    have hcounted := h.counted
    omega
  within := by
    rw [withinLimit_exec_iff codec h.pool h.within]
    intro hadds'
    cases op with
    | store env vaddr pfn =>
        -- the check of the limit, on a counter that is not behind the map
        have hbelow : k.stats.storedPages < limit := by
          by_contra hfull
          apply hadds'.1
          rw [storesAt, if_pos]
          rw [h.maxPoolPages]
          omega
        have hcounted := h.counted
        omega
    | replace env mm addr => exact absurd hadds' (hadds env mm addr rfl)
    | _ => exact absurd hadds' id

theorem limitInv_loaded (mms : Nat → Mm) (frames : Frames) (limit : Nat) (minSavingsPct : Int)
    (symbolsResolved : Bool) :
    LimitInv limit (.loaded mms frames limit minSavingsPct symbolsResolved) where
  pool := poolOk_loaded ..
  maxPoolPages := rfl
  counted := by simp [Kernel.loaded]
  within := by simp [Kernel.loaded, WithinLimit]

/-- **Pool limit**: with `max_pool_pages` at `limit` from module load on, the check of
`minimem_compress_and_store` keeps the map at no more than `limit` entries in every run in which
no replacement adds one, whatever else happens; and where replacements add entries, the limit is
kept exactly when every operation that adds one finds fewer. -/
theorem withinLimit_along_iff (codec : Codec) (mms : Nat → Mm) (frames : Frames) {limit : Nat}
    (hlimit : 0 < limit) (minSavingsPct : Int) (symbolsResolved : Bool) (ops : List PoolOp) :
    (Along (poolStep codec) (WithinLimit limit)
        (.loaded mms frames limit minSavingsPct symbolsResolved) ops ↔
      Guarded (poolStep codec) (HasRoom limit codec)
        (.loaded mms frames limit minSavingsPct symbolsResolved) ops) ∧
    (Guarded (poolStep codec) (NoReplaceAdds codec)
        (.loaded mms frames limit minSavingsPct symbolsResolved) ops →
      Along (poolStep codec) (WithinLimit limit)
        (.loaded mms frames limit minSavingsPct symbolsResolved) ops) := by
  have hinit := limitInv_loaded mms frames limit minSavingsPct symbolsResolved
  refine ⟨withinLimit_along_iff_of codec hinit.pool hinit.within ops, fun hguarded => ?_⟩
  apply Guarded.along (I := LimitInv limit) _ (fun _ h => h.within) hinit hguarded
  intro k op k' hinv hadds hstep
  cases hstep
  exact hinv.exec hlimit hadds

/-! ## One page too many -/

/-- Two mapped pages of zeros, at `0x1000` and `0x2000`, and room for one. -/
def twoPages : Kernel :=
  .loaded (fun _ => ⟨fun _ => some (.present 0 true true false), [], 0⟩)
    ⟨fun _ => Page.fill 0, fun _ => 1, 1⟩ (1 : Nat) 0 true

/-- Stored, the second page is refused. -/
theorem withinLimit_store_twoPages : Along (poolStep samePageCodec) (WithinLimit 1) twoPages
    [.store .ok 0x1000 0, .store .ok 0x2000 0] := by
  apply (withinLimit_along_iff samePageCodec _ _ Nat.one_pos 0 true _).2
  refine ⟨?_, fun s _ => ⟨?_, fun _ _ => trivial⟩⟩
  · intro env mm addr hop
    cases hop
  · intro env mm addr hop
    cases hop

/-- Replaced, it is not: no replacement looks at the limit. -/
theorem not_withinLimit_replace_twoPages : ¬Along (poolStep samePageCodec) (WithinLimit 1)
    twoPages [.replace .ok 0 0x1000, .replace .ok 0 0x2000] := by
  have hfirst : poolExec samePageCodec twoPages (.replace .ok 0 0x1000) =
      twoPages.replaced 0 0x1000 0 .samePage [0] := by
    have hstores := @replaceStores_fill .ok rfl rfl twoPages rfl rfl 0 0x1000 0 true true
      false 0 rfl rfl
    rw [poolExec, replace_of_installs (fun _ _ => rfl) hstores rfl,
      show pageMask 0x1000 = 0x1000 by decide]
  have hwf : (twoPages.replaced 0 0x1000 0 .samePage [0]).pool.Wf :=
    Pool.Wf.malloc _ fun _ _ => rfl
  have hpte : (twoPages.replaced 0 0x1000 0 .samePage [0]).pteAt 0 (pageMask 0x2000) =
      some (.present 0 true true false) := by
    rw [pteAt_replaced, if_neg (by decide)]
    rfl
  have hsecond : poolExec samePageCodec (twoPages.replaced 0 0x1000 0 .samePage [0])
      (.replace .ok 0 0x2000) =
        (twoPages.replaced 0 0x1000 0 .samePage [0]).replaced 0 0x2000 0 .samePage [0] := by
    have hstores := @replaceStores_fill .ok rfl rfl
      (twoPages.replaced 0 0x1000 0 .samePage [0]) rfl rfl 0 0x2000 0 true true false 0 hpte rfl
    rw [poolExec, replace_of_installs hwf hstores rfl, show pageMask 0x2000 = 0x2000 by decide]
  have hsize₁ : (twoPages.replaced 0 0x1000 0 .samePage [0]).map.entries.size = _ :=
    size_addEntry twoPages 0x1000 .samePage [0]
  have hsize₂ : ((twoPages.replaced 0 0x1000 0 .samePage [0]).replaced 0 0x2000 0 .samePage
      [0]).map.entries.size = _ :=
    size_addEntry (twoPages.replaced 0 0x1000 0 .samePage [0]) 0x2000 .samePage [0]
  have hvacant : mapLookup (twoPages.replaced 0 0x1000 0 .samePage [0]).map 0x2000 = none := by
    rw [mapLookup, map_replaced, load_addEntry, if_neg (by decide)]
    exact XArray.load_empty
  have hempty : mapLookup twoPages.map 0x1000 = none := XArray.load_empty
  rw [if_pos hempty] at hsize₁
  rw [if_pos hvacant, hsize₁] at hsize₂
  rintro ⟨-, halong⟩
  have htwo := ((halong _ (by rw [poolStep, hfirst])).2 _ (by rw [poolStep, hsecond])).head
  rw [WithinLimit, hsize₂] at htwo
  omega

end MiniMem
