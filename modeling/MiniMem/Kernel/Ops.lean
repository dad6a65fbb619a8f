import MiniMem.Machine
import MiniMem.Kernel.Hook
import MiniMem.Kernel.Mmu
import MiniMem.Kernel.Shrinker

/-!
# MiniMem.Kernel.Ops

The module as a machine that executes one operation at a time.  An
operation carries its arguments and the outcomes of its fallible steps, so
a list of operations is one run of the module, failures included.
-/

namespace MiniMem

/-- The operations. -/
inductive Op where
  | write (mm vaddr : Nat) (page : Page)
  | store (env : StoreEnv) (vaddr pfn : Nat)
  | replace (env : ReplaceEnv) (mm addr : Nat)
  | restore (env : RestoreEnv) (vaddr : Nat) (pfn : Option Nat)
  | remove (vaddr : Nat)
  | zapCb (addr : Nat)
  | vmFault (env : FaultEnv) (vmf : FaultInfo)
  | stockFault (env : FaultEnv) (vmf : FaultInfo)
  | shrink (nrToScan : Nat)
  | exit (env : ZapEnv) (mm : Nat)

/-- A user write to a mapped page: it goes through while the entry is present and
writable, changes the contents and sets the accessed and dirty bits. -/
def userWrite (k : Kernel) (mm vaddr : Nat) (page : Page) : Kernel :=
  match k.pteAt mm vaddr with
  | some (.present pfn true _ _) =>
      (k.writeFrame pfn page).setPteAt mm vaddr (.present pfn true true true)
  | _ => k

/-- The kernel after it has torn down the page table of an exiting process. -/
def Kernel.exitMmap (k : Kernel) (mm : Nat) : Kernel :=
  { k with mms := Function.update k.mms mm { k.mms mm with ptes := fun _ => none, vmas := [] } }

/-- One operation. -/
def exec (codec : Codec) (k : Kernel) : Op → Kernel
  | .write mm vaddr page => userWrite k mm vaddr page
  | .store env vaddr pfn => (compressAndStore codec env k vaddr pfn).2
  | .replace env mm addr => (compressAndReplacePte codec env k mm addr).2
  | .restore env vaddr pfn => (decompressAndRestore codec env k vaddr pfn).2
  | .remove vaddr => (zswapRemove k vaddr).2
  | .zapCb addr => MiniMem.zapCb k addr
  | .vmFault env vmf => (vmFaultHandler codec env k vmf).2
  | .stockFault env vmf => (stockMarkerFault codec env k vmf).2
  | .shrink nrToScan => (shrinkScan k nrToScan).2
  | .exit env mm => (mmuRelease env k mm).2.exitMmap mm

/-- Every operation can be executed in every state. -/
def opStep (codec : Codec) (k : Kernel) (op : Op) : Option Kernel := some (exec codec k op)

/-! ## Storage effects

What an operation does to the map and to the pool is one of few things; the
lemmas below say which. -/

/-- The map and the live objects are as before. -/
structure SameStorage (k k' : Kernel) : Prop where
  map : k'.map = k.map
  objs : k'.pool.objs = k.pool.objs
  next : k.pool.next ≤ k'.pool.next

/-- Nothing has happened to the storage. -/
theorem SameStorage.refl (k : Kernel) : SameStorage k k := ⟨rfl, rfl, Nat.le_refl _⟩

/-- Two steps that leave the storage alone leave it alone. -/
theorem SameStorage.trans {k₁ k₂ k₃ : Kernel} (h : SameStorage k₁ k₂) (h' : SameStorage k₂ k₃) :
    SameStorage k₁ k₃ :=
  ⟨h'.map.trans h.map, h'.objs.trans h.objs, Nat.le_trans h.next h'.next⟩

/-- Store an entry for fresh bytes. -/
def Kernel.addEntry (k : Kernel) (vaddr : Nat) (algo : AlgoId) (bytes : List UInt8) : Kernel :=
  { k with
    pool := k.pool.malloc bytes
    map := ⟨k.map.entries.store (vaddrToIndex vaddr) ⟨algo, bytes.length, k.pool.next⟩,
      k.map.count + 1⟩ }

/-- An object that is freed as soon as it is allocated leaves the pool as it was. -/
theorem objs_free_malloc_of_fresh {pool : Pool} (hfresh : pool.objs pool.next = none)
    (bytes : List UInt8) : ((pool.malloc bytes).free pool.next).objs = pool.objs := by
  funext h
  rw [objs_free, objs_malloc]
  by_cases hh : h = pool.next
  · rw [if_pos hh, hh, hfresh]
  · rw [if_neg hh, if_neg hh]

/-- An object that is freed as soon as it is allocated leaves no trace. -/
theorem objs_free_malloc {pool : Pool} (hwf : pool.Wf) (bytes : List UInt8) :
    ((pool.malloc bytes).free pool.next).objs = pool.objs :=
  objs_free_malloc_of_fresh (hwf _ (Nat.le_refl _)) bytes

/-- The steps of `storeCompressed` all succeed. -/
def StoreEnv.stores (env : StoreEnv) : Bool := env.zsMalloc && env.entryAlloc && env.xaStore

/-- `storeCompressed` enters the bytes when its steps succeed. -/
theorem storeCompressed_of_stores {env : StoreEnv} (henv : env.stores = true) (k : Kernel)
    (vaddr : Nat) (algo : AlgoId) (bytes : List UInt8) :
    storeCompressed k env vaddr algo bytes = (.ok k.pool.next, k.addEntry vaddr algo bytes) := by
  simp only [StoreEnv.stores, Bool.and_eq_true] at henv
  simp [storeCompressed, mapStore, henv, Kernel.addEntry]

/-- What `storeCompressed` returns a handle for, it has entered. -/
theorem storeCompressed_ok {env : StoreEnv} {k k' : Kernel} {vaddr handle : Nat} {algo : AlgoId}
    {bytes : List UInt8} (h : storeCompressed k env vaddr algo bytes = (.ok handle, k')) :
    handle = k.pool.next ∧ k' = k.addEntry vaddr algo bytes := by
  unfold storeCompressed at h
  split at h
  · cases h
  dsimp only at h
  split at h
  · cases h
  next map hstore =>
    rw [mapStore_ok hstore] at h
    injection h with hhandle hk
    injection hhandle with hhandle
    exact ⟨hhandle.symm, hk.symm⟩

/-- `storeCompressed` leaves the storage alone when one of its steps fails. -/
theorem storeCompressed_of_not_stores {env : StoreEnv} (henv : env.stores = false) (k : Kernel)
    (hwf : k.pool.Wf) (vaddr : Nat) (algo : AlgoId) (bytes : List UInt8) :
    ∃ pool, storeCompressed k env vaddr algo bytes = (.error enomem, { k with pool := pool }) ∧
      SameStorage k { k with pool := pool } := by
  have hfree : SameStorage k { k with pool := (k.pool.malloc bytes).free k.pool.next } :=
    ⟨rfl, objs_free_malloc hwf bytes, by simp⟩
  simp only [StoreEnv.stores, Bool.and_eq_false_iff] at henv
  unfold storeCompressed
  split
  · exact ⟨k.pool, rfl, .refl k⟩
  next hz =>
    simp only [mapStore]
    split
    next he =>
      split at he
      · injection he with he
        exact ⟨_, by rw [he], hfree⟩
      split at he
      · injection he with he
        exact ⟨_, by rw [he], hfree⟩
      · cases he
    next map he =>
      split at he
      · cases he
      split at he
      · cases he
      · simp_all

/-! ## Operations that only drop entries -/

/-- A property of the storage that dropping a mapped entry with its object keeps. -/
structure DropClosed (P : Kernel → Prop) : Prop where
  same : ∀ k k', SameStorage k k' → P k → P k'
  drop : ∀ k vaddr entry, mapLookup k.map vaddr = some entry → P k →
    P (k.dropEntry vaddr entry.zsHandle)

namespace DropClosed

variable {P : Kernel → Prop} (hP : DropClosed P)
include hP

/-- The counters are none of the storage. -/
theorem uncount {k : Kernel} (len : Nat) (h : P k) : P (k.uncount len) :=
  hP.same k _ ⟨rfl, rfl, Nat.le_refl _⟩ h

/-- The last step of a restore. -/
theorem installPage {k : Kernel} (vma : Vma) (mm vaddr : Nat) (orig : Pte) (page : Page)
    (relock : Relock) (h : P k) : P (k.installPage vma mm vaddr orig page relock) :=
  hP.same k _ ⟨by simp, by simp, by simp⟩ h

/-- `minimem_zswap_remove`. -/
theorem zswapRemove {k : Kernel} (vaddr : Nat) (h : P k) : P (zswapRemove k vaddr).2 := by
  unfold MiniMem.zswapRemove
  split
  · exact h
  next entry hlookup =>
    rw [mapRemove_of_lookup hlookup]
    apply hP.uncount
    have hdrop := hP.drop k vaddr entry hlookup h
    rw [Kernel.dropEntry, mapRemove_of_lookup hlookup] at hdrop
    exact hdrop

/-- `minimem_zswap_zap_cb`. -/
theorem zapCb {k : Kernel} (addr : Nat) (h : P k) : P (zapCb k addr) := by
  have hcount : P { k with stats := { k.stats with zapCbCount := k.stats.zapCbCount + 1 } } :=
    hP.same k _ ⟨rfl, rfl, Nat.le_refl _⟩ h
  unfold MiniMem.zapCb
  dsimp only
  split
  · exact hP.same k _ ⟨rfl, rfl, Nat.le_refl _⟩ h
  next entry hlookup =>
    exact hP.uncount _ (hP.drop _ _ entry hlookup hcount)

/-- `minimem_decompress_and_restore`. -/
theorem decompressAndRestore {codec : Codec} {k : Kernel} (env : RestoreEnv) (vaddr : Nat)
    (pfn : Option Nat) (h : P k) : P (decompressAndRestore codec env k vaddr pfn).2 := by
  unfold MiniMem.decompressAndRestore
  split
  · exact h
  next entry hlookup =>
    split
    · exact h
    split
    · exact h
    split
    · exact h
    split
    · exact h
    split
    · exact h
    next page hpage =>
      apply hP.uncount
      cases pfn with
      | none => exact hP.drop k vaddr entry hlookup h
      | some pfn =>
          exact hP.drop (k.writeFrame pfn page) vaddr entry hlookup
            (hP.same k _ ⟨rfl, rfl, Nat.le_refl _⟩ h)

theorem faultMissed {k : Kernel} (h : P k) : P k.faultMissed :=
  hP.same k _ ⟨rfl, rfl, Nat.le_refl _⟩ h

theorem faultHandled {k : Kernel} (h : P k) : P k.faultHandled :=
  hP.same k _ ⟨rfl, rfl, Nat.le_refl _⟩ h

/-- The common body of the fault handlers. -/
theorem resolveFault (codec : Codec) {k : Kernel} (env : FaultEnv) (vmf : FaultInfo) (h : P k) :
    P (resolveFault codec env k vmf).2 := by
  unfold MiniMem.resolveFault
  dsimp only
  split
  · exact hP.faultMissed h
  next entry hlookup =>
    split
    · exact hP.faultMissed h
    split
    · exact hP.faultMissed h
    split
    · exact hP.faultMissed h
    split
    · exact hP.faultMissed h
    · exact hP.faultHandled (hP.installPage _ _ _ _ _ _ (hP.drop k _ entry hlookup h))

/-- `minimem_vm_fault_handler`. -/
theorem vmFaultHandler (codec : Codec) {k : Kernel} (env : FaultEnv) (vmf : FaultInfo)
    (h : P k) : P (vmFaultHandler codec env k vmf).2 := by
  have hres := hP.resolveFault codec env vmf h
  unfold MiniMem.vmFaultHandler
  split
  · exact h
  split
  · exact h
  split <;> simp_all

/-- `minimem_handle_swap_fault`. -/
theorem handleSwapFault (codec : Codec) {k : Kernel} (env : FaultEnv) (vmf : FaultInfo)
    (h : P k) : P (handleSwapFault codec env k vmf).2 := by
  have hres := hP.resolveFault codec env vmf h
  unfold MiniMem.handleSwapFault
  split
  · exact h
  split
  · exact h
  split <;> simp_all

/-- A fault on a marker in a stock kernel. -/
theorem stockMarkerFault (codec : Codec) {k : Kernel} (env : FaultEnv) (vmf : FaultInfo)
    (h : P k) : P (stockMarkerFault codec env k vmf).2 := by
  have hres := hP.handleSwapFault codec env vmf h
  show P (kretprobeEntry codec env k vmf).2
  unfold MiniMem.kretprobeEntry
  split
  · exact h
  split
  · exact h
  · exact hres

/-- One round of the shrinker's drain drops the entry that it finds. -/
theorem mapDrainLoop (n cursor : Nat) {k : Kernel} (h : P k) :
    P (mapDrainLoop shrinkDrainCallback n cursor k).2 := by
  induction n generalizing cursor k with
  | zero => exact h
  | succ n ih =>
      unfold MiniMem.mapDrainLoop
      split
      · exact h
      next index entry hfind =>
        dsimp only
        rw [shrinkDrainCallback_eq hfind]
        exact ih (index + 1) (hP.drop k (indexToVaddr index) entry (mapLookup_of_findFrom hfind) h)

/-- `minimem_shrink_scan`. -/
theorem shrinkScan {k : Kernel} (nrToScan : Nat) (h : P k) : P (shrinkScan k nrToScan).2 := by
  unfold MiniMem.shrinkScan
  split
  · exact h
  · exact hP.mapDrainLoop nrToScan 0 h

/-- One page of the walk at a process's exit. -/
theorem zapPage (env : ZapEnv) (mm : Nat) {s : ZapState} (addr : Nat) (h : P s.kernel) :
    P (zapPage env mm s addr).kernel := by
  have hclear : P (s.kernel.setPteAt mm addr .empty) :=
    hP.same s.kernel _ ⟨rfl, rfl, Nat.le_refl _⟩ h
  unfold MiniMem.zapPage
  dsimp only
  repeat' split
  all_goals first | exact h | exact hclear

/-- The walk over the VMAs. -/
theorem zapVmas (env : ZapEnv) (mm start stop : Nat) (vmas : List Vma) {s : ZapState}
    (h : P s.kernel) : P (zapVmas env mm start stop vmas s).kernel :=
  zapVmas_keeps (P := fun s => P s.kernel) (fun _ addr h => hP.zapPage env mm addr h) start stop
    vmas h

/-- The removals after the walk, by induction on the addresses collected. -/
theorem zapRemove (vaddrs : List Nat) {acc : Nat × Kernel} (h : P acc.2) :
    P (zapRemove vaddrs acc).2 := by
  induction vaddrs generalizing acc with
  | nil => exact h
  | cons vaddr vaddrs ih => exact ih (hP.zswapRemove vaddr h)

/-- `minimem_zap_range`. -/
theorem zapRange {k : Kernel} (env : ZapEnv) (mm start stop : Nat) (h : P k) :
    P (zapRange env k mm start stop).2 := by
  unfold MiniMem.zapRange
  split
  · exact h
  · exact hP.zapRemove _ (hP.zapVmas env mm _ _ _ h)

/-- The notifier's `release`. -/
theorem mmuRelease {k : Kernel} (env : ZapEnv) (mm : Nat) (h : P k) :
    P (mmuRelease env k mm).2 :=
  hP.zapRange env mm _ _ h

/-- The end of the address space. -/
theorem exitMmap {k : Kernel} (mm : Nat) (h : P k) : P (k.exitMmap mm) :=
  hP.same k _ ⟨rfl, rfl, Nat.le_refl _⟩ h

/-- A write of the user. -/
theorem userWrite {k : Kernel} (mm vaddr : Nat) (page : Page) (h : P k) :
    P (userWrite k mm vaddr page) := by
  unfold MiniMem.userWrite
  split
  · exact hP.same k _ ⟨rfl, rfl, Nat.le_refl _⟩ h
  · exact h

end DropClosed

/-! ## Operations that store -/

/-- The steps up to `minimem_map_store` and that call itself succeed on a page. -/
def reachesStore (codec : Codec) (env : StoreEnv) (minPct : Int) (page : Page) : Bool :=
  match compressBuf codec env minPct page with
  | .error _ => false
  | .ok _ => env.stores

/-- A page whose compression is given up does not reach the storage. -/
theorem reachesStore_of_error {codec : Codec} {env : StoreEnv} {minPct ret : Int} {page : Page}
    (h : compressBuf codec env minPct page = .error ret) :
    reachesStore codec env minPct page = false := by
  simp [reachesStore, h]

/-- One that is compressed reaches it if nothing fails there. -/
theorem reachesStore_of_ok {codec : Codec} {env : StoreEnv} {minPct : Int} {page : Page}
    {stored : AlgoId × List UInt8} (h : compressBuf codec env minPct page = .ok stored) :
    reachesStore codec env minPct page = env.stores := by
  simp [reachesStore, h]

/-- The address at which an operation enters a page in the map, if it gets there. -/
def storesAt (codec : Codec) (k : Kernel) : Op → Option Nat
  | .store env vaddr pfn =>
      if k.maxPoolPages > 0 ∧ k.stats.storedPages ≥ k.maxPoolPages then none
      else if reachesStore codec env k.minSavingsPct (k.frames.data pfn) then some vaddr
      else none
  | .replace env mm addr =>
      if k.symbolsResolved = false then none
      else
        match replaceSnapshot env k mm (pageMask addr) with
        | .error _ => none
        | .ok (_, pfn, _) =>
            if reachesStore codec env.toStoreEnv k.minSavingsPct (k.frames.data pfn) then
              some (pageMask addr)
            else none
  | _ => none

/-- The last section of a replacement keeps the entry stored before, or drops it again. -/
theorem replaceInstall_storage (env : ReplaceEnv) (k : Kernel) (mm vaddr pfn handle : Nat)
    (oldPte : Pte) :
    SameStorage k (replaceInstall env k mm vaddr pfn handle oldPte).2 ∨
      SameStorage (k.dropEntry vaddr handle)
        (replaceInstall env k mm vaddr pfn handle oldPte).2 := by
  unfold replaceInstall
  cases env.relock with
  | noLock => exact .inr ⟨rfl, rfl, Nat.le_refl _⟩
  | same =>
      simp only [Kernel.relock]
      split
      next k' heq =>
        injection heq with hk hpte
        subst hk
        exact .inr ⟨rfl, rfl, Nat.le_refl _⟩
      next k' pte heq =>
        injection heq with hk hpte
        subst hk
        split
        · exact .inr ⟨rfl, rfl, Nat.le_refl _⟩
        · exact .inl ⟨rfl, rfl, Nat.le_refl _⟩
  | changed pte =>
      simp only [Kernel.relock]
      split
      · exact .inr ⟨rfl, rfl, Nat.le_refl _⟩
      · exact .inl ⟨rfl, rfl, Nat.le_refl _⟩

/-- A snapshot only takes a reference. -/
theorem replaceSnapshot_ok {env : ReplaceEnv} {k k' : Kernel} {mm vaddr pfn : Nat} {oldPte : Pte}
    (h : replaceSnapshot env k mm vaddr = .ok (oldPte, pfn, k')) :
    k' = k.getPage pfn ∧ k.pteAt mm vaddr = some oldPte ∧
      ∃ write young dirty, oldPte = .present pfn write young dirty := by
  unfold replaceSnapshot at h
  split at h
  next pfn' write young dirty hpte =>
    injection h with h
    simp only [Prod.mk.injEq] at h
    obtain ⟨rfl, rfl, rfl⟩ := h
    have hlock : env.lock = true := by
      by_contra hlock
      simp [hlock] at hpte
    rw [if_pos hlock] at hpte
    exact ⟨rfl, hpte, write, young, dirty, rfl⟩
  · cases h

/-- `minimem_compress_and_store` enters the page, or leaves the storage alone. -/
theorem compressAndStore_storage (codec : Codec) (env : StoreEnv) {k : Kernel} (hwf : k.pool.Wf)
    (vaddr pfn : Nat) :
    (storesAt codec k (.store env vaddr pfn) = none ∧
      SameStorage k (compressAndStore codec env k vaddr pfn).2) ∨
    (storesAt codec k (.store env vaddr pfn) = some vaddr ∧ ∃ algo bytes,
      SameStorage (k.addEntry vaddr algo bytes) (compressAndStore codec env k vaddr pfn).2) := by
  unfold compressAndStore storesAt
  dsimp only
  by_cases hlimit : k.maxPoolPages > 0 ∧ k.stats.storedPages ≥ k.maxPoolPages
  · rw [if_pos hlimit, if_pos hlimit]
    exact .inl ⟨rfl, .refl k⟩
  rw [if_neg hlimit, if_neg hlimit]
  obtain ⟨stored, hbuf⟩ : ∃ stored,
      compressBuf codec env k.minSavingsPct (k.frames.data pfn) = stored := ⟨_, rfl⟩
  cases stored with
  | error ret =>
      rw [reachesStore_of_error hbuf, hbuf]
      exact .inl ⟨rfl, .refl k⟩
  | ok stored =>
      obtain ⟨algo, bytes⟩ := stored
      rw [reachesStore_of_ok hbuf, hbuf]
      by_cases henv : env.stores = true
      · right
        simp only [henv, if_true, storeCompressed_of_stores henv]
        exact ⟨trivial, algo, bytes, rfl, rfl, Nat.le_refl _⟩
      · left
        rw [Bool.not_eq_true] at henv
        obtain ⟨k', hfail, hsame⟩ := storeCompressed_of_not_stores henv k hwf vaddr algo bytes
        simp only [henv, hfail]
        exact ⟨rfl, hsame⟩

/-- `minimem_compress_and_replace_pte` enters the page, enters it and takes it back out,
or leaves the storage alone. -/
theorem compressAndReplacePte_storage (codec : Codec) (env : ReplaceEnv) {k : Kernel}
    (hwf : k.pool.Wf) (mm addr : Nat) :
    (storesAt codec k (.replace env mm addr) = none ∧
      SameStorage k (compressAndReplacePte codec env k mm addr).2) ∨
    (storesAt codec k (.replace env mm addr) = some (pageMask addr) ∧ ∃ algo bytes,
      SameStorage (k.addEntry (pageMask addr) algo bytes)
        (compressAndReplacePte codec env k mm addr).2 ∨
      SameStorage ((k.addEntry (pageMask addr) algo bytes).dropEntry (pageMask addr) k.pool.next)
        (compressAndReplacePte codec env k mm addr).2) := by
  unfold compressAndReplacePte storesAt
  dsimp only
  by_cases hsym : k.symbolsResolved = false
  · rw [if_pos hsym, if_pos hsym]
    exact .inl ⟨rfl, .refl k⟩
  rw [if_neg hsym, if_neg hsym]
  cases hsnap : replaceSnapshot env k mm (pageMask addr) with
  | error ret => exact .inl ⟨rfl, .refl k⟩
  | ok snap =>
      obtain ⟨oldPte, pfn, k₁⟩ := snap
      obtain ⟨rfl, -, -⟩ := replaceSnapshot_ok hsnap
      have hpage : (k.getPage pfn).frames.data pfn = k.frames.data pfn := rfl
      have hpct : (k.getPage pfn).minSavingsPct = k.minSavingsPct := rfl
      simp only [hpage, hpct]
      obtain ⟨stored, hbuf⟩ : ∃ stored,
          compressBuf codec env.toStoreEnv k.minSavingsPct (k.frames.data pfn) = stored := ⟨_, rfl⟩
      cases stored with
      | error ret =>
          rw [reachesStore_of_error hbuf, hbuf]
          exact .inl ⟨rfl, rfl, rfl, Nat.le_refl _⟩
      | ok stored =>
          obtain ⟨algo, bytes⟩ := stored
          rw [reachesStore_of_ok hbuf, hbuf]
          by_cases henv : env.toStoreEnv.stores = true
          · right
            simp only [henv, if_true, storeCompressed_of_stores henv]
            refine ⟨trivial, algo, bytes, ?_⟩
            rcases replaceInstall_storage env ((k.getPage pfn).addEntry (pageMask addr) algo bytes)
              mm (pageMask addr) pfn k.pool.next oldPte with hsame | hsame
            · exact .inl ⟨hsame.map, hsame.objs, hsame.next⟩
            · exact .inr ⟨hsame.map, hsame.objs, hsame.next⟩
          · left
            rw [Bool.not_eq_true] at henv
            obtain ⟨k', hfail, hsame⟩ := storeCompressed_of_not_stores henv (k.getPage pfn) hwf
              (pageMask addr) algo bytes
            simp only [henv, hfail]
            exact ⟨rfl, hsame.map, hsame.objs, hsame.next⟩

/-- An operation that enters no page keeps every drop-closed property. -/
theorem DropClosed.exec {P : Kernel → Prop} (hP : DropClosed P) {codec : Codec} {k : Kernel}
    (hwf : k.pool.Wf) {op : Op} (hop : storesAt codec k op = none) (h : P k) :
    P (exec codec k op) := by
  cases op with
  | write mm vaddr page => exact hP.userWrite mm vaddr page h
  | restore env vaddr pfn => exact hP.decompressAndRestore env vaddr pfn h
  | remove vaddr => exact hP.zswapRemove vaddr h
  | zapCb addr => exact hP.zapCb addr h
  | vmFault env vmf => exact hP.vmFaultHandler codec env vmf h
  | stockFault env vmf => exact hP.stockMarkerFault codec env vmf h
  | shrink nrToScan => exact hP.shrinkScan nrToScan h
  | exit env mm => exact hP.exitMmap mm (hP.mmuRelease env mm h)
  | store env vaddr pfn =>
      rcases compressAndStore_storage codec env hwf vaddr pfn with ⟨-, hsame⟩ | ⟨hsome, -⟩
      · exact hP.same k _ hsame h
      · rw [hop] at hsome
        cases hsome
  | replace env mm addr =>
      rcases compressAndReplacePte_storage codec env hwf mm addr with ⟨-, hsame⟩ | ⟨hsome, -⟩
      · exact hP.same k _ hsame h
      · rw [hop] at hsome
        cases hsome

/-- An operation that enters a page at an address leaves it there or takes it back out. -/
theorem exec_of_storesAt {codec : Codec} {k : Kernel} (hwf : k.pool.Wf) {op : Op} {vaddr : Nat}
    (hop : storesAt codec k op = some vaddr) :
    ∃ algo bytes, SameStorage (k.addEntry vaddr algo bytes) (exec codec k op) ∨
      SameStorage ((k.addEntry vaddr algo bytes).dropEntry vaddr k.pool.next)
        (exec codec k op) := by
  cases op with
  | store env vaddr' pfn =>
      rcases compressAndStore_storage codec env hwf vaddr' pfn with ⟨hnone, -⟩ | ⟨hsome, h⟩
      · rw [hop] at hnone
        cases hnone
      · rw [hop] at hsome
        injection hsome with hsome
        subst hsome
        obtain ⟨algo, bytes, hsame⟩ := h
        exact ⟨algo, bytes, .inl hsame⟩
  | replace env mm addr =>
      rcases compressAndReplacePte_storage codec env hwf mm addr with ⟨hnone, -⟩ | ⟨hsome, h⟩
      · rw [hop] at hnone
        cases hnone
      · rw [hop] at hsome
        injection hsome with hsome
        subst hsome
        exact h
  | _ => cases hop

/-! ## What every operation keeps -/

/-- A new entry is at its index, and the others are as before. -/
theorem load_addEntry (k : Kernel) (vaddr : Nat) (algo : AlgoId) (bytes : List UInt8) (i : Nat) :
    (k.addEntry vaddr algo bytes).map.entries.load i =
      if i = vaddrToIndex vaddr then some ⟨algo, bytes.length, k.pool.next⟩
      else k.map.entries.load i :=
  XArray.load_store _ _ _ _

/-- Its bytes are under the next handle. -/
theorem objs_addEntry (k : Kernel) (vaddr : Nat) (algo : AlgoId) (bytes : List UInt8) (h : Nat) :
    (k.addEntry vaddr algo bytes).pool.objs h =
      if h = k.pool.next then some bytes else k.pool.objs h :=
  objs_malloc _ _ _

/-- A new entry decodes to what its bytes decompress to. -/
theorem decode_addEntry (codec : Codec) (k : Kernel) (vaddr : Nat) (algo : AlgoId)
    (bytes : List UInt8) : (k.addEntry vaddr algo bytes).decode codec
      ⟨algo, bytes.length, k.pool.next⟩ = codec.decompress algo bytes := by
  simp only [Kernel.decode, objs_addEntry, if_true, List.take_length]

/-- The lookup finds it. -/
@[simp] theorem mapLookup_addEntry_self (k : Kernel) (vaddr : Nat) (algo : AlgoId)
    (bytes : List UInt8) : mapLookup (k.addEntry vaddr algo bytes).map vaddr
      = some ⟨algo, bytes.length, k.pool.next⟩ := by
  rw [mapLookup, load_addEntry, if_pos rfl]

/-- What an operation does to the storage keeps the handles to come free. -/
theorem dropClosed_wf : DropClosed fun k => k.pool.Wf where
  same k k' hsame hwf := by
    intro h hh
    rw [hsame.objs]
    exact hwf h (Nat.le_trans hsame.next hh)
  drop _ _ _ _ hwf := hwf.free _

/-- Every operation keeps the pool well formed. -/
theorem wf_exec {codec : Codec} {k : Kernel} (hwf : k.pool.Wf) (op : Op) :
    (exec codec k op).pool.Wf := by
  cases hop : storesAt codec k op with
  | none => exact dropClosed_wf.exec hwf hop hwf
  | some vaddr =>
      obtain ⟨algo, bytes, hsame⟩ := exec_of_storesAt hwf hop
      have hadd : (k.addEntry vaddr algo bytes).pool.Wf := hwf.malloc bytes
      rcases hsame with hsame | hsame
      · exact dropClosed_wf.same _ _ hsame hadd
      · exact dropClosed_wf.same _ _ hsame (Pool.Wf.free _ hadd)

/-- What holds of map and pool in every reachable state: the entries have live handles,
no two the same, and there are at most as many as the counter says. -/
structure StorageOk (k : Kernel) : Prop where
  wf : k.pool.Wf
  live : ∀ i e, k.map.entries.load i = some e → k.pool.Live e.zsHandle
  unique : ∀ i j e e', k.map.entries.load i = some e → k.map.entries.load j = some e' →
    e.zsHandle = e'.zsHandle → i = j
  size_le_count : (k.map.entries.size : Int) ≤ k.map.count

/-- The storage is empty at load. -/
theorem storageOk_loaded (mms : Nat → Mm) (frames : Frames) (maxPoolPages minSavingsPct : Int)
    (symbolsResolved : Bool) :
    StorageOk (.loaded mms frames maxPoolPages minSavingsPct symbolsResolved) where
  wf _ _ := rfl
  live := by simp [Kernel.loaded]
  unique := by simp [Kernel.loaded]
  size_le_count := by simp [Kernel.loaded]

/-- What leaves the storage alone keeps it. -/
theorem StorageOk.same {k k' : Kernel} (hsame : SameStorage k k') (h : StorageOk k) :
    StorageOk k' where
  wf := dropClosed_wf.same k k' hsame h.wf
  live := by
    simp only [Pool.Live, hsame.map, hsame.objs]
    exact h.live
  unique := by
    rw [hsame.map]
    exact h.unique
  size_le_count := by
    rw [hsame.map]
    exact h.size_le_count

/-- Freeing the handle of one entry does not touch the objects of the others. -/
theorem StorageOk.objs_dropEntry {k : Kernel} (h : StorageOk k) {vaddr i : Nat}
    {entry e : MapEntry} (hlookup : mapLookup k.map vaddr = some entry)
    (hload : k.map.entries.load i = some e) (hne : i ≠ vaddrToIndex vaddr) :
    (k.dropEntry vaddr entry.zsHandle).pool.objs e.zsHandle = k.pool.objs e.zsHandle := by
  rw [pool_dropEntry, objs_free, if_neg]
  intro hhandle
  exact hne (h.unique i _ e entry hload hlookup hhandle)

/-- Handles that are different stay so when an entry is dropped. -/
theorem unique_dropEntry {k : Kernel} (h : ∀ i j e e', k.map.entries.load i = some e →
      k.map.entries.load j = some e' → e.zsHandle = e'.zsHandle → i = j) (vaddr handle : Nat) :
    ∀ i j e e', (k.dropEntry vaddr handle).map.entries.load i = some e →
      (k.dropEntry vaddr handle).map.entries.load j = some e' → e.zsHandle = e'.zsHandle →
      i = j := by
  intro i j e e' hi hj
  rw [load_dropEntry] at hi hj
  split at hi
  · cases hi
  split at hj
  · cases hj
  exact h i j e e' hi hj

/-- Handles that are different stay so when an entry with a new one is added. -/
theorem unique_addEntry {k : Kernel} (h : ∀ i j e e', k.map.entries.load i = some e →
      k.map.entries.load j = some e' → e.zsHandle = e'.zsHandle → i = j)
    (hnew : ∀ i e, k.map.entries.load i = some e → e.zsHandle ≠ k.pool.next) (vaddr : Nat)
    (algo : AlgoId) (bytes : List UInt8) :
    ∀ i j e e', (k.addEntry vaddr algo bytes).map.entries.load i = some e →
      (k.addEntry vaddr algo bytes).map.entries.load j = some e' → e.zsHandle = e'.zsHandle →
      i = j := by
  intro i j e e' hi hj hee
  rw [load_addEntry] at hi hj
  split at hi
  next hiv =>
    injection hi with hi
    split at hj
    next hjv => rw [hiv, hjv]
    · rw [← hi] at hee
      exact absurd hee.symm (hnew j e' hj)
  next hiv =>
    split at hj
    · injection hj with hj
      rw [← hj] at hee
      exact absurd hee (hnew i e hi)
    · exact h i j e e' hi hj hee

/-- Dropping the entry of a page with its handle keeps it. -/
theorem StorageOk.drop {k : Kernel} {vaddr : Nat} {entry : MapEntry}
    (hlookup : mapLookup k.map vaddr = some entry) (h : StorageOk k) :
    StorageOk (k.dropEntry vaddr entry.zsHandle) where
  wf := h.wf.free _
  live := by
    intro i e hload
    rw [load_dropEntry] at hload
    split at hload
    · cases hload
    next hne =>
      rw [Pool.Live, h.objs_dropEntry hlookup hload hne]
      exact h.live i e hload
  unique := unique_dropEntry h.unique vaddr entry.zsHandle
  size_le_count := by
    have hpos := XArray.size_pos_of_load hlookup
    have hle := h.size_le_count
    rw [Kernel.dropEntry, mapRemove_of_lookup hlookup]
    show ((k.map.entries.erase (vaddrToIndex vaddr)).size : Int) ≤ k.map.count - 1
    rw [XArray.size_erase, if_neg (by rw [← mapLookup, hlookup]; simp)]
    omega

/-- So every operation that only drops keeps it. -/
theorem dropClosed_storageOk : DropClosed StorageOk where
  same _ _ hsame h := h.same hsame
  drop _ _ _ hlookup h := h.drop hlookup

/-- The next handle belongs to no entry. -/
theorem StorageOk.ne_next {k : Kernel} (h : StorageOk k) {i : Nat} {e : MapEntry}
    (hload : k.map.entries.load i = some e) : e.zsHandle ≠ k.pool.next := by
  have := h.wf.lt_next _ (h.live i e hload)
  omega

/-- Adding an entry with a fresh handle keeps it. -/
theorem StorageOk.add {k : Kernel} (h : StorageOk k) (vaddr : Nat) (algo : AlgoId)
    (bytes : List UInt8) : StorageOk (k.addEntry vaddr algo bytes) where
  wf := h.wf.malloc bytes
  live := by
    intro i e hload
    rw [load_addEntry] at hload
    rw [Pool.Live, objs_addEntry]
    split at hload
    · injection hload with hload
      rw [← hload, if_pos rfl]
      rfl
    · rw [if_neg (h.ne_next hload)]
      exact h.live i e hload
  unique := unique_addEntry h.unique (fun _ _ hload => h.ne_next hload) vaddr algo bytes
  size_le_count := by
    have hle := h.size_le_count
    show ((k.map.entries.store (vaddrToIndex vaddr) _).size : Int) ≤ k.map.count + 1
    rw [XArray.size_store]
    split <;> omega

/-- Every operation keeps the storage in order, storing over an entry included. -/
theorem storageOk_exec {codec : Codec} {k : Kernel} (h : StorageOk k) (op : Op) :
    StorageOk (exec codec k op) := by
  cases hop : storesAt codec k op with
  | none => exact dropClosed_storageOk.exec h.wf hop h
  | some vaddr =>
      obtain ⟨algo, bytes, hsame⟩ := exec_of_storesAt h.wf hop
      have hadd := h.add vaddr algo bytes
      rcases hsame with hsame | hsame
      · exact hadd.same hsame
      · exact (hadd.drop (mapLookup_addEntry_self k vaddr algo bytes)).same hsame

end MiniMem
