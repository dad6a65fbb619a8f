import MiniMem.Kernel.Replace

/-!
# MiniMem.Kernel.EventCounts

Three of the counters in sysfs, against the events that they are documented
to count: `pages_compressed` and `pages_decompressed`, which show fields of
`minimem_stats`, and `hook_faults`, which shows `hook_faults_handled`.

The fields of `minimem_stats` are set to 0 when the module is loaded, and no
operation moves them.  `hook_faults_handled` goes up with every fault that
is resolved, and with every page that is replaced.
-/

namespace MiniMem

/-! ## Events -/

/-- The fields of `struct minimem_stats` that `pages_compressed_show` and
`pages_decompressed_show` print. -/
structure MinimemStats where
  pagesCompressed : Int
  pagesDecompressed : Int
  deriving DecidableEq, Repr

/-- The fields as `minimem_init` sets them. -/
def MinimemStats.init : MinimemStats := ⟨0, 0⟩

/-- A call of `minimem_compress_and_store` or of `minimem_compress_and_replace_pte` that
succeeds. -/
def Op.compresses (codec : Codec) (k : Kernel) : Op → Bool
  | .store env vaddr pfn => decide ((compressAndStore codec env k vaddr pfn).1 = 0)
  | .replace env mm addr => decide ((compressAndReplacePte codec env k mm addr).1 = 0)
  | _ => false

/-- A call of `minimem_compress_and_replace_pte` that succeeds. -/
def Op.replaces (codec : Codec) (k : Kernel) : Op → Bool
  | .replace env mm addr => decide ((compressAndReplacePte codec env k mm addr).1 = 0)
  | _ => false

/-- A call of `minimem_decompress_and_restore` that succeeds. -/
def Op.restores (codec : Codec) (k : Kernel) : Op → Bool
  | .restore env vaddr pfn => decide ((decompressAndRestore codec env k vaddr pfn).1 = 0)
  | _ => false

/-- A fault that the hook resolves, on a patched or on a stock kernel. -/
def Op.resolves (codec : Codec) (k : Kernel) : Op → Bool
  | .vmFault env vmf => decide ((vmFaultHandler codec env k vmf).1 = .nopage)
  | .stockFault env vmf => decide ((stockMarkerFault codec env k vmf).1 = .nopage)
  | _ => false

/-- The module with its counters and the numbers of events since it was loaded. -/
structure Monitor where
  kernel : Kernel
  stats : MinimemStats
  compressed : Nat
  replaced : Nat
  restored : Nat
  resolved : Nat

/-- One operation and its events. -/
def monitorStep (codec : Codec) (m : Monitor) (op : Op) : Option Monitor :=
  some ⟨exec codec m.kernel op, m.stats,
    m.compressed + (op.compresses codec m.kernel).toNat,
    m.replaced + (op.replaces codec m.kernel).toNat,
    m.restored + (op.restores codec m.kernel).toNat,
    m.resolved + (op.resolves codec m.kernel).toNat⟩

/-- The counters agree with the events. -/
structure CountsEvents (m : Monitor) : Prop where
  pagesCompressed : m.stats.pagesCompressed = m.compressed
  pagesDecompressed : m.stats.pagesDecompressed = m.restored + m.resolved
  hookFaults : m.kernel.stats.faultsHandled = m.resolved

/-! ## What moves `hook_faults_handled` -/

section Moves

variable (codec : Codec) (k : Kernel)

theorem stats_storeCompressed (env : StoreEnv) (vaddr : Nat) (algo : AlgoId)
    (bytes : List UInt8) : (storeCompressed k env vaddr algo bytes).2.stats = k.stats := by
  unfold storeCompressed
  split
  · rfl
  · dsimp only
    split <;> rfl

theorem faultsHandled_compressAndStore (env : StoreEnv) (vaddr pfn : Nat) :
    (compressAndStore codec env k vaddr pfn).2.stats.faultsHandled = k.stats.faultsHandled := by
  unfold compressAndStore
  split
  · rfl
  split
  · rfl
  next algo bytes _ =>
    have hstats := congrArg Stats.faultsHandled (stats_storeCompressed k env vaddr algo bytes)
    cases hstore : storeCompressed k env vaddr algo bytes with
    | mk ret k' =>
        rw [hstore] at hstats
        cases ret <;> exact hstats

theorem faultsHandled_decompressAndRestore (env : RestoreEnv) (vaddr : Nat) (pfn : Option Nat) :
    (decompressAndRestore codec env k vaddr pfn).2.stats.faultsHandled =
      k.stats.faultsHandled := by
  unfold decompressAndRestore
  split
  · rfl
  split
  · rfl
  split
  · rfl
  split
  · rfl
  split
  · rfl
  split
  · rfl
  · cases pfn <;> rfl

theorem faultsHandled_zswapRemove (vaddr : Nat) :
    (zswapRemove k vaddr).2.stats.faultsHandled = k.stats.faultsHandled := by
  unfold zswapRemove
  split
  · rfl
  split <;> rfl

theorem faultsHandled_zapCb (addr : Nat) :
    (zapCb k addr).stats.faultsHandled = k.stats.faultsHandled := by
  unfold zapCb
  dsimp only
  split <;> rfl

theorem faultsHandled_shrinkScan (nrToScan : Nat) :
    (shrinkScan k nrToScan).2.stats.faultsHandled = k.stats.faultsHandled := by
  have hloop : ∀ (n cursor : Nat) (k : Kernel),
      (mapDrainLoop shrinkDrainCallback n cursor k).2.stats.faultsHandled =
        k.stats.faultsHandled := by
    intro n
    induction n with
    | zero => exact fun _ _ => rfl
    | succ n ih =>
        intro cursor k
        rw [mapDrainLoop]
        split
        · rfl
        · exact ih _ _
  unfold shrinkScan
  split
  · rfl
  · exact hloop nrToScan 0 k

theorem faultsHandled_mmuRelease (env : ZapEnv) (mm : Nat) :
    (mmuRelease env k mm).2.stats.faultsHandled = k.stats.faultsHandled := by
  have hpage : ∀ (s : ZapState) (addr : Nat),
      s.kernel.stats.faultsHandled = k.stats.faultsHandled →
      (zapPage env mm s addr).kernel.stats.faultsHandled = k.stats.faultsHandled := by
    intro s addr h
    unfold zapPage
    dsimp only
    repeat' split
    all_goals exact h
  have hremove : ∀ (vaddrs : List Nat) (acc : Nat × Kernel),
      (zapRemove vaddrs acc).2.stats.faultsHandled = acc.2.stats.faultsHandled := by
    intro vaddrs
    induction vaddrs with
    | nil => exact fun _ => rfl
    | cons vaddr vaddrs ih =>
        rintro ⟨freed, k⟩
        exact (ih _).trans (faultsHandled_zswapRemove k vaddr)
  unfold mmuRelease zapRange
  split
  · rfl
  · exact (hremove _ _).trans (zapVmas_keeps hpage 0 ulongMax _ rfl)

/-- The body of the handlers counts a fault as handled when it says so. -/
theorem faultsHandled_resolveFault (env : FaultEnv) (vmf : FaultInfo) :
    (resolveFault codec env k vmf).2.stats.faultsHandled = k.stats.faultsHandled +
      ((decide ((resolveFault codec env k vmf).1 = .handled)).toNat : Nat) := by
  generalize hres : resolveFault codec env k vmf = res
  have hmissed : ∀ exit, exit ≠ FaultExit.handled → (exit, k.faultMissed) = res →
      res.2.stats.faultsHandled =
        k.stats.faultsHandled + ((decide (res.1 = .handled)).toNat : Nat) := by
    rintro exit hne rfl
    simp [Kernel.faultMissed, hne]
  unfold resolveFault at hres
  dsimp only at hres
  split at hres
  · exact hmissed .noEntry (by decide) hres
  split at hres
  · exact hmissed .noPage (by decide) hres
  split at hres
  · exact hmissed .noBuffer (by decide) hres
  split at hres
  · exact hmissed .noRead (by decide) hres
  split at hres
  · exact hmissed .badData (by decide) hres
  · rw [← hres]
    simp only [Kernel.faultHandled, stats_installPage]
    rfl

theorem faultsHandled_vmFaultHandler (env : FaultEnv) (vmf : FaultInfo) :
    (vmFaultHandler codec env k vmf).2.stats.faultsHandled = k.stats.faultsHandled +
      ((decide ((vmFaultHandler codec env k vmf).1 = .nopage)).toNat : Nat) := by
  have hres := faultsHandled_resolveFault codec k env vmf
  unfold vmFaultHandler
  by_cases hsymbols : k.symbolsResolved = false
  · simp [hsymbols]
  by_cases hmarker : vmf.origPte.isMinimem = false
  · simp [hsymbols, hmarker]
  rw [if_neg hsymbols, if_neg hmarker]
  cases hfault : resolveFault codec env k vmf with
  | mk exit k' =>
      rw [hfault] at hres
      cases exit <;> exact hres

theorem faultsHandled_stockMarkerFault (env : FaultEnv) (vmf : FaultInfo) :
    (stockMarkerFault codec env k vmf).2.stats.faultsHandled = k.stats.faultsHandled +
      ((decide ((stockMarkerFault codec env k vmf).1 = .nopage)).toNat : Nat) := by
  have hres := faultsHandled_resolveFault codec k env vmf
  unfold stockMarkerFault kretprobeEntry handleSwapFault
  by_cases hsymbols : k.symbolsResolved = false
  · simp [hsymbols, kretprobeReturn]
  by_cases hmarker : vmf.origPte.isMinimem = false
  · simp [hsymbols, hmarker, kretprobeReturn]
  rw [if_neg hsymbols, if_neg hmarker, if_neg hmarker, if_neg hsymbols]
  cases hfault : resolveFault codec env k vmf with
  | mk exit k' =>
      rw [hfault] at hres
      cases exit <;> exact hres

theorem faultsHandled_replaceInstall (env : ReplaceEnv) (mm vaddr pfn handle : Nat)
    (oldPte : Pte) :
    (replaceInstall env k mm vaddr pfn handle oldPte).2.stats.faultsHandled =
      k.stats.faultsHandled +
        ((decide ((replaceInstall env k mm vaddr pfn handle oldPte).1 = 0)).toNat : Nat) := by
  have hstats := congrArg Stats.faultsHandled (stats_relock k mm vaddr env.relock)
  unfold replaceInstall
  cases hrelock : k.relock mm vaddr env.relock with
  | mk k' found =>
      rw [hrelock] at hstats
      cases found with
      | none => exact hstats.trans (Int.add_zero _).symm
      | some pte =>
          dsimp only
          by_cases hsame : pte ≠ oldPte
          · simp only [if_pos hsame]
            exact hstats.trans (Int.add_zero _).symm
          · simp only [if_neg hsame]
            exact congrArg (· + 1) hstats

omit codec in
theorem storeCompressed_error_ne {env : StoreEnv} {vaddr : Nat} {algo : AlgoId}
    {bytes : List UInt8} {ret : Int} {k' : Kernel}
    (h : storeCompressed k env vaddr algo bytes = (.error ret, k')) : ret ≠ 0 := by
  have henomem : (enomem : Int) ≠ 0 := by decide
  unfold storeCompressed at h
  split at h
  · cases h
    exact henomem
  dsimp only at h
  split at h
  next ret' hmap =>
    cases h
    unfold mapStore at hmap
    split at hmap
    · cases hmap
      exact henomem
    split at hmap
    · cases hmap
      exact henomem
    · cases hmap
  · cases h

/-- Replacing a page counts as a fault. -/
theorem faultsHandled_compressAndReplacePte (env : ReplaceEnv) (mm addr : Nat) :
    (compressAndReplacePte codec env k mm addr).2.stats.faultsHandled = k.stats.faultsHandled +
      ((decide ((compressAndReplacePte codec env k mm addr).1 = 0)).toNat : Nat) := by
  generalize hres : compressAndReplacePte codec env k mm addr = res
  have hfailed : ∀ (ret : Int) (k' : Kernel), ret ≠ 0 →
      k'.stats.faultsHandled = k.stats.faultsHandled → (ret, k') = res →
      res.2.stats.faultsHandled =
        k.stats.faultsHandled + ((decide (res.1 = 0)).toNat : Nat) := by
    rintro ret k' hne hstats rfl
    simp [hstats, hne]
  unfold compressAndReplacePte at hres
  dsimp only at hres
  by_cases hsymbols : k.symbolsResolved = false
  · rw [if_pos hsymbols] at hres
    exact hfailed eopnotsupp k (by decide) rfl hres
  rw [if_neg hsymbols] at hres
  cases hsnap : replaceSnapshot env k mm (pageMask addr) with
  | error ret =>
      rw [hsnap] at hres
      exact hfailed ret k (replaceSnapshot_error hsnap) rfl hres
  | ok snap =>
      obtain ⟨oldPte, pfn, k₁⟩ := snap
      obtain ⟨rfl, -⟩ := replaceSnapshot_ok hsnap
      rw [hsnap] at hres
      dsimp only at hres
      cases hbuf : compressBuf codec env.toStoreEnv (k.getPage pfn).minSavingsPct
          ((k.getPage pfn).frames.data pfn) with
      | error ret =>
          rw [hbuf] at hres
          exact hfailed ret ((k.getPage pfn).putPage pfn) (compressBuf_error_ne hbuf) rfl hres
      | ok blob =>
          obtain ⟨algo, bytes⟩ := blob
          rw [hbuf] at hres
          dsimp only at hres
          have hstats := stats_storeCompressed (k.getPage pfn) env.toStoreEnv (pageMask addr)
            algo bytes
          cases hstore : storeCompressed (k.getPage pfn) env.toStoreEnv (pageMask addr) algo
              bytes with
          | mk ret k' =>
              rw [hstore] at hres hstats
              have hkept : k'.stats.faultsHandled = k.stats.faultsHandled :=
                congrArg Stats.faultsHandled hstats
              cases ret with
              | error ret =>
                  exact hfailed ret (k'.putPage pfn) (storeCompressed_error_ne _ hstore) hkept hres
              | ok handle =>
                  rw [← hres, faultsHandled_replaceInstall, hkept]

/-- One operation moves the counter by the faults that it resolves and the pages that it
replaces. -/
theorem faultsHandled_exec (op : Op) :
    (exec codec k op).stats.faultsHandled = k.stats.faultsHandled +
      ((op.resolves codec k).toNat + (op.replaces codec k).toNat : Nat) := by
  have hnone : ∀ n : Int, n = n + ((false.toNat + false.toNat : Nat) : Int) := fun n =>
    (Int.add_zero n).symm
  cases op with
  | write mm vaddr page =>
      have hwrite : (userWrite k mm vaddr page).stats = k.stats := by
        unfold userWrite
        split <;> rfl
      exact (congrArg Stats.faultsHandled hwrite).trans (hnone _)
  | store env vaddr pfn =>
      exact (faultsHandled_compressAndStore codec k env vaddr pfn).trans (hnone _)
  | replace env mm addr =>
      rw [exec, faultsHandled_compressAndReplacePte, ← Nat.zero_add (Bool.toNat _)]
      rfl
  | restore env vaddr pfn =>
      exact (faultsHandled_decompressAndRestore codec k env vaddr pfn).trans (hnone _)
  | remove vaddr => exact (faultsHandled_zswapRemove k vaddr).trans (hnone _)
  | zapCb addr => exact (faultsHandled_zapCb k addr).trans (hnone _)
  | vmFault env vmf =>
      rw [exec, faultsHandled_vmFaultHandler]
      rfl
  | stockFault env vmf =>
      rw [exec, faultsHandled_stockMarkerFault]
      rfl
  | shrink nrToScan => exact (faultsHandled_shrinkScan k nrToScan).trans (hnone _)
  | exit env mm => exact (faultsHandled_mmuRelease k env mm).trans (hnone _)

end Moves

/-! ## Runs -/

/-- What the counters hold in every state: two are as the module was loaded, and the third
counts replaced pages with the faults. -/
structure CountersHold (m : Monitor) : Prop where
  stats : m.stats = .init
  hookFaults : m.kernel.stats.faultsHandled = m.resolved + m.replaced
  replaced_le : m.replaced ≤ m.compressed

/-- The module right after `minimem_init`. -/
def Monitor.loaded (k : Kernel) : Monitor := ⟨k, .init, 0, 0, 0, 0⟩

theorem countersHold_loaded {k : Kernel} (h : k.stats.faultsHandled = 0) :
    CountersHold (.loaded k) := ⟨rfl, h, le_refl _⟩

theorem replaces_le_compresses (codec : Codec) (k : Kernel) (op : Op) :
    (op.replaces codec k).toNat ≤ (op.compresses codec k).toNat := by
  cases op with
  | replace env mm addr => exact le_refl _
  | _ => exact Nat.zero_le _

/-- One operation keeps them. -/
theorem CountersHold.step {codec : Codec} {m m' : Monitor} {op : Op} (h : CountersHold m)
    (hstep : monitorStep codec m op = some m') : CountersHold m' := by
  cases hstep
  refine ⟨h.stats, ?_, Nat.add_le_add h.replaced_le (replaces_le_compresses codec m.kernel op)⟩
  rw [faultsHandled_exec, h.hookFaults]
  dsimp only
  omega

/-- The operation succeeds at nothing that the documents have counted. -/
def CountsNothing (codec : Codec) (m : Monitor) (op : Op) : Prop :=
  op.compresses codec m.kernel = false ∧ op.restores codec m.kernel = false ∧
    op.resolves codec m.kernel = false

/-- Counters that agree go on to agree exactly when there is nothing to count. -/
theorem countsEvents_step_iff {codec : Codec} {m m' : Monitor} {op : Op} (h : CountsEvents m)
    (hold : CountersHold m) (hstep : monitorStep codec m op = some m') :
    CountsEvents m' ↔ CountsNothing codec m op := by
  have hzero : m.compressed = 0 ∧ m.restored + m.resolved = 0 := by
    have hcompressed := h.pagesCompressed
    have hdecompressed := h.pagesDecompressed
    rw [hold.stats] at hcompressed hdecompressed
    simp only [MinimemStats.init] at hcompressed hdecompressed
    omega
  have hreplaces := replaces_le_compresses codec m.kernel op
  have hreplaced := hold.replaced_le
  have hmoves := faultsHandled_exec codec m.kernel op
  have hfaults := hold.hookFaults
  cases hstep
  constructor
  · rintro ⟨hcompressed, hdecompressed, -⟩
    simp only [hold.stats, MinimemStats.init] at hcompressed hdecompressed
    refine ⟨?_, ?_, ?_⟩ <;> apply Bool.toNat_eq_zero.1 <;> omega
  · rintro ⟨hcompresses, hrestores, hresolves⟩
    simp only [hcompresses, hrestores, hresolves, Bool.toNat_false] at *
    refine ⟨?_, ?_, ?_⟩ <;> simp only [hold.stats, MinimemStats.init] <;> omega

theorem countsEvents_along_iff_of {codec : Codec} {k : Kernel}
    (hzero : k.stats.faultsHandled = 0) (ops : List Op) :
    Along (monitorStep codec) CountsEvents (.loaded k) ops ↔
      Guarded (monitorStep codec) (CountsNothing codec) (.loaded k) ops := by
  apply along_iff_guarded (I := CountersHold) _ _ _ ops ⟨rfl, rfl, hzero⟩
    (countersHold_loaded hzero)
  · intro m op _ hstep
    cases hstep
  · exact fun m op m' hold hstep => hold.step hstep
  · exact fun m op m' h hold hstep => countsEvents_step_iff h hold hstep

/-- **Event counters**: from module load on, the three counters agree with their events in
every state of a run exactly when no store, no replacement, no restore and no fault of it
succeeds. -/
theorem countsEvents_along_iff (codec : Codec) (mms : Nat → Mm) (frames : Frames)
    (maxPoolPages minSavingsPct : Int) (symbolsResolved : Bool) (ops : List Op) :
    Along (monitorStep codec) CountsEvents
        (.loaded (.loaded mms frames maxPoolPages minSavingsPct symbolsResolved)) ops ↔
      Guarded (monitorStep codec) (CountsNothing codec)
        (.loaded (.loaded mms frames maxPoolPages minSavingsPct symbolsResolved)) ops :=
  countsEvents_along_iff_of rfl ops

/-- After one page has been stored, `pages_compressed` is still 0. -/
theorem not_countsEvents_store : ¬Along (monitorStep samePageCodec) CountsEvents
    (.loaded .blank) [.store .ok 0x1000 0] := by
  have hbuf : compressBuf samePageCodec .ok Kernel.blank.minSavingsPct
      (Kernel.blank.frames.data 0) = .ok (.samePage, [0]) :=
    compressBuf_fill (samePageCodec_compress_fill 0)
  have hnolimit : ¬(Kernel.blank.maxPoolPages > 0 ∧
      Kernel.blank.stats.storedPages ≥ Kernel.blank.maxPoolPages) := fun h => absurd h.1 (by decide)
  have hstores : (compressAndStore samePageCodec .ok .blank 0x1000 0).1 = 0 := by
    rw [compressAndStore, if_neg hnolimit, hbuf]
    rfl
  rw [countsEvents_along_iff_of rfl]
  rintro ⟨⟨hcompresses, -⟩, -⟩
  rw [Op.compresses, Monitor.loaded, hstores] at hcompresses
  cases hcompresses

/-- What `hook_faults` does count: in every state of a run it is the number of resolved
faults and of replaced pages. -/
theorem hookFaults_along (codec : Codec) {k : Kernel} (hzero : k.stats.faultsHandled = 0)
    (ops : List Op) :
    Along (monitorStep codec) (fun m => m.kernel.stats.faultsHandled = m.resolved + m.replaced)
      (.loaded k) ops := by
  exact along_of_invariant (fun _ _ _ (hold : CountersHold _) hstep => hold.step hstep)
    (fun _ hold => hold.hookFaults) ops (countersHold_loaded hzero)

end MiniMem
