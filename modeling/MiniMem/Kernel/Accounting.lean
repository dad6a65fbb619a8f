import MiniMem.Kernel.FaultAtomic
import MiniMem.Kernel.FaultPaths
import MiniMem.Kernel.Unload

/-!
# MiniMem.Kernel.Accounting

The pool counters against the map.  `mm_stored_pages` ought to be the number
of entries, `mm_total_bytes` the sum of their compressed lengths and
`mm_bytes_saved` the sum of what each of them saves of a page.

Only `minimem_compress_and_store` moves all three.  A replacement adds an
entry and counts nothing, the fault handlers and the shrinker take entries
out and count nothing, and what is counted out anywhere is never taken off
`mm_bytes_saved`.
-/

namespace MiniMem

/-! ## The machine -/

/-- The operations on the pool, and user writes between them. -/
inductive PoolOp where
  | write (mm vaddr : Nat) (page : Page)
  | store (env : StoreEnv) (vaddr pfn : Nat)
  | replace (env : ReplaceEnv) (mm addr : Nat)
  | restore (env : RestoreEnv) (vaddr : Nat) (pfn : Option Nat)
  | vmFault (env : FaultEnv) (vmf : FaultInfo)
  | stockFault (env : FaultEnv) (vmf : FaultInfo)
  | remove (vaddr : Nat)
  | zapCb (addr : Nat)
  | shrink (nrToScan : Nat)
  | drain (tasks : List DrainTask)

/-- One operation. -/
def poolExec (codec : Codec) (k : Kernel) : PoolOp → Kernel
  | .write mm vaddr page => userWrite k mm vaddr page
  | .store env vaddr pfn => (compressAndStore codec env k vaddr pfn).2
  | .replace env mm addr => (compressAndReplacePte codec env k mm addr).2
  | .restore env vaddr pfn => (decompressAndRestore codec env k vaddr pfn).2
  | .vmFault env vmf => (vmFaultHandler codec env k vmf).2
  | .stockFault env vmf => (stockMarkerFault codec env k vmf).2
  | .remove vaddr => (zswapRemove k vaddr).2
  | .zapCb addr => MiniMem.zapCb k addr
  | .shrink nrToScan => (shrinkScan k nrToScan).2
  | .drain tasks => (drainAndRestore codec tasks k).2

/-- Every operation can be executed in every state. -/
def poolStep (codec : Codec) (k : Kernel) (op : PoolOp) : Option Kernel :=
  some (poolExec codec k op)

/-! ## The books -/

/-- What an entry saves of its page. -/
def MapEntry.saved (entry : MapEntry) : Nat := pageSize - entry.compressedLen

/-- The three counters agree with the entries of the map. -/
structure Accounted (k : Kernel) : Prop where
  storedPages : k.stats.storedPages = k.map.entries.size
  totalBytes : k.stats.totalBytes = XArray.sum MapEntry.compressedLen k.map.entries
  bytesSaved : k.stats.bytesSaved = XArray.sum MapEntry.saved k.map.entries

/-- None of the counters is negative. -/
theorem Accounted.nonneg {k : Kernel} (h : Accounted k) :
    0 ≤ k.stats.storedPages ∧ 0 ≤ k.stats.totalBytes ∧ 0 ≤ k.stats.bytesSaved := by
  rw [h.storedPages, h.totalBytes, h.bytesSaved]
  omega

/-- The entries and the three counters are the same. -/
structure SameBooks (k k' : Kernel) : Prop where
  entries : k'.map.entries = k.map.entries
  storedPages : k'.stats.storedPages = k.stats.storedPages
  totalBytes : k'.stats.totalBytes = k.stats.totalBytes
  bytesSaved : k'.stats.bytesSaved = k.stats.bytesSaved

/-- Nothing has happened to the entries or the counters. -/
theorem SameBooks.refl (k : Kernel) : SameBooks k k := ⟨rfl, rfl, rfl, rfl⟩

/-- What moves neither keeps them together. -/
theorem SameBooks.accounted {k k' : Kernel} (hsame : SameBooks k k') (h : Accounted k) :
    Accounted k' where
  storedPages := by rw [hsame.storedPages, hsame.entries, h.storedPages]
  totalBytes := by rw [hsame.totalBytes, hsame.entries, h.totalBytes]
  bytesSaved := by rw [hsame.bytesSaved, hsame.entries, h.bytesSaved]

/-- Entries were taken out, or none: `mm_bytes_saved` is the same, and `mm_stored_pages` has
not gone down by more than the number of entries has. -/
structure EntriesLe (k k' : Kernel) : Prop where
  bytesSaved : k'.stats.bytesSaved = k.stats.bytesSaved
  saved : XArray.sum MapEntry.saved k'.map.entries ≤ XArray.sum MapEntry.saved k.map.entries
  size : k'.map.entries.size ≤ k.map.entries.size
  uncounted : k'.map.entries.size - k'.stats.storedPages ≤
    k.map.entries.size - k.stats.storedPages

/-- At least one entry was taken out. -/
structure EntriesLt (k k' : Kernel) : Prop extends EntriesLe k k' where
  lost : XArray.sum MapEntry.saved k'.map.entries < XArray.sum MapEntry.saved k.map.entries

theorem EntriesLe.refl (k : Kernel) : EntriesLe k k :=
  ⟨rfl, Nat.le_refl _, Nat.le_refl _, Int.le_refl _⟩

/-- Entries go and counters stay, twice. -/
theorem EntriesLe.trans {k₁ k₂ k₃ : Kernel} (h : EntriesLe k₁ k₂) (h' : EntriesLe k₂ k₃) :
    EntriesLe k₁ k₃ where
  bytesSaved := h'.bytesSaved.trans h.bytesSaved
  saved := Nat.le_trans h'.saved h.saved
  size := Nat.le_trans h'.size h.size
  uncounted := Int.le_trans h'.uncounted h.uncounted

/-- At least one entry is gone, and perhaps more. -/
theorem EntriesLt.trans_le {k₁ k₂ k₃ : Kernel} (h : EntriesLt k₁ k₂) (h' : EntriesLe k₂ k₃) :
    EntriesLt k₁ k₃ :=
  ⟨h.toEntriesLe.trans h', Nat.lt_of_le_of_lt h'.saved h.lost⟩

/-- None is gone. -/
theorem SameBooks.entriesLe {k k' : Kernel} (h : SameBooks k k') : EntriesLe k k' where
  bytesSaved := h.bytesSaved
  saved := by rw [h.entries]
  size := by rw [h.entries]
  uncounted := by rw [h.entries, h.storedPages]

/-- Savings that are no longer there are still counted. -/
theorem EntriesLt.not_accounted {k k' : Kernel} (hlt : EntriesLt k k') (h : Accounted k) :
    ¬Accounted k' := by
  intro h'
  have hless := hlt.lost
  have heq := h'.bytesSaved
  rw [hlt.bytesSaved, h.bytesSaved] at heq
  omega

/-! ## The storage in every reachable state -/

/-- The storage is in order, and every entry is shorter than a page. -/
structure PoolOk (k : Kernel) : Prop where
  storage : StorageOk k
  short : ∀ i entry, k.map.entries.load i = some entry → entry.compressedLen < pageSize

/-- The pool is empty at load. -/
theorem poolOk_loaded (mms : Nat → Mm) (frames : Frames) (maxPoolPages minSavingsPct : Int)
    (symbolsResolved : Bool) :
    PoolOk (.loaded mms frames maxPoolPages minSavingsPct symbolsResolved) where
  storage := storageOk_loaded ..
  short := by simp [Kernel.loaded]

/-- What only drops keeps it. -/
theorem dropClosed_poolOk : DropClosed PoolOk where
  same k k' hsame h := by
    refine ⟨h.storage.same hsame, ?_⟩
    rw [hsame.map]
    exact h.short
  drop k vaddr entry hlookup h := by
    refine ⟨h.storage.drop hlookup, ?_⟩
    intro i e hload
    rw [load_dropEntry] at hload
    split at hload
    · cases hload
    · exact h.short i e hload

/-- A new entry of less than a page keeps it. -/
theorem PoolOk.add {k : Kernel} (h : PoolOk k) (vaddr : Nat) (algo : AlgoId)
    {bytes : List UInt8} (hbytes : bytes.length < pageSize) :
    PoolOk (k.addEntry vaddr algo bytes) where
  storage := h.storage.add vaddr algo bytes
  short i e hload := by
    rw [load_addEntry] at hload
    split at hload
    · injection hload with hload
      rw [← hload]
      exact hbytes
    · exact h.short i e hload

/-- Taking an entry out, counted or not. -/
theorem PoolOk.entriesLt {k k' : Kernel} (h : PoolOk k) {vaddr : Nat} {entry : MapEntry}
    (hlookup : mapLookup k.map vaddr = some entry)
    (hentries : k'.map.entries = k.map.entries.erase (vaddrToIndex vaddr))
    (hsaved : k'.stats.bytesSaved = k.stats.bytesSaved)
    (hstored : k.stats.storedPages - 1 ≤ k'.stats.storedPages) : EntriesLt k k' := by
  have hshort := h.short _ _ hlookup
  have hsum := XArray.sum_erase hlookup MapEntry.saved
  have hpos := XArray.size_pos_of_load hlookup
  have hsize : k'.map.entries.size = k.map.entries.size - 1 := by
    rw [hentries, XArray.size_erase, if_neg]
    rw [← mapLookup, hlookup]
    simp
  rw [MapEntry.saved] at hsum
  refine ⟨⟨hsaved, ?_, ?_, ?_⟩, ?_⟩
  · rw [hentries]
    omega
  · omega
  · omega
  · rw [hentries]
    omega

/-- What is compressed and kept is shorter than a page. -/
theorem compressBuf_length {codec : Codec} {env : StoreEnv} {minPct : Int} {page : Page}
    {algo : AlgoId} {bytes : List UInt8}
    (h : compressBuf codec env minPct page = .ok (algo, bytes)) : bytes.length < pageSize := by
  unfold compressBuf at h
  split at h
  · cases h
  split at h
  · cases h
  split at h
  · cases h
  split at h
  · cases h
  next hlen =>
    split at h
    · cases h
    split at h
    · cases h
    · simp only [Except.ok.injEq, Prod.mk.injEq] at h
      rw [← h.2]
      omega

/-! ## Storing -/

/-- The counters after `minimem_compress_and_store` has stored a page. -/
def Kernel.booked (k : Kernel) (len : Nat) : Kernel :=
  { k with stats := { k.stats with
      storedPages := k.stats.storedPages + 1
      totalBytes := k.stats.totalBytes + len
      bytesSaved := k.stats.bytesSaved + (pageSize - len : Nat) } }

/-- `minimem_compress_and_store` enters a page and counts it, or changes neither map nor
counters. -/
theorem compressAndStore_cases (codec : Codec) (env : StoreEnv) {k : Kernel} (hwf : k.pool.Wf)
    (vaddr pfn : Nat) :
    (storesAt codec k (.store env vaddr pfn) = none ∧
      SameBooks k (compressAndStore codec env k vaddr pfn).2) ∨
    ∃ algo bytes, storesAt codec k (.store env vaddr pfn) = some vaddr ∧
      compressBuf codec env k.minSavingsPct (k.frames.data pfn) = .ok (algo, bytes) ∧
      (compressAndStore codec env k vaddr pfn).2 =
        (k.addEntry vaddr algo bytes).booked bytes.length := by
  unfold compressAndStore storesAt
  dsimp only
  by_cases hlimit : k.maxPoolPages > 0 ∧ k.stats.storedPages ≥ k.maxPoolPages
  · rw [if_pos hlimit, if_pos hlimit]
    exact .inl ⟨rfl, .refl k⟩
  rw [if_neg hlimit, if_neg hlimit]
  cases hbuf : compressBuf codec env k.minSavingsPct (k.frames.data pfn) with
  | error ret =>
      rw [reachesStore_of_error hbuf]
      exact .inl ⟨rfl, .refl k⟩
  | ok stored =>
      obtain ⟨algo, bytes⟩ := stored
      rw [reachesStore_of_ok hbuf]
      by_cases henv : env.stores = true
      · right
        simp only [henv, if_true, storeCompressed_of_stores henv]
        exact ⟨algo, bytes, trivial, rfl, rfl⟩
      · left
        rw [Bool.not_eq_true] at henv
        obtain ⟨pool, hfail, -⟩ := storeCompressed_of_not_stores henv k hwf vaddr algo bytes
        simp only [henv, hfail]
        exact ⟨rfl, rfl, rfl, rfl, rfl⟩

/-- Storing at a free address keeps the books, storing over an entry does not. -/
theorem accounted_booked_iff {k : Kernel} (h : Accounted k) (vaddr : Nat) (algo : AlgoId)
    (bytes : List UInt8) :
    Accounted ((k.addEntry vaddr algo bytes).booked bytes.length) ↔
      mapLookup k.map vaddr = none := by
  have hsize : ((k.addEntry vaddr algo bytes).booked bytes.length).map.entries.size =
      if mapLookup k.map vaddr = none then k.map.entries.size + 1 else k.map.entries.size :=
    XArray.size_store
  have hstored : ((k.addEntry vaddr algo bytes).booked bytes.length).stats.storedPages =
      k.map.entries.size + 1 := by
    rw [← h.storedPages]
    rfl
  constructor
  · intro h'
    by_contra hoccupied
    have hbooks := h'.storedPages
    rw [hstored, hsize, if_neg hoccupied] at hbooks
    omega
  · intro hvacant
    have hsum := fun f => XArray.sum_store_of_vacant (e := ⟨algo, bytes.length, k.pool.next⟩)
      hvacant f
    refine ⟨?_, ?_, ?_⟩
    · rw [hstored, hsize, if_pos hvacant]
      rfl
    · show k.stats.totalBytes + bytes.length =
        (XArray.sum MapEntry.compressedLen (k.map.entries.store _ _) : Nat)
      rw [hsum, h.totalBytes]
      push_cast
      omega
    · show k.stats.bytesSaved + (pageSize - bytes.length : Nat) =
        (XArray.sum MapEntry.saved (k.map.entries.store _ _) : Nat)
      rw [hsum, h.bytesSaved, MapEntry.saved]
      push_cast
      omega

/-! ## Replacing -/

/-- A replacement that leaves the books in order: it does not store, or it is undone at a
free address, or it goes through over an entry of the same length. -/
def ReplaceKeepsBooks (codec : Codec) (env : ReplaceEnv) (k : Kernel) (mm addr : Nat) : Prop :=
  match replaceStores codec env k mm addr with
  | none => True
  | some (_, _, bytes) =>
      if ReplaceInstalls env k mm addr then
        ∃ entry, mapLookup k.map addr = some entry ∧ entry.compressedLen = bytes.length
      else mapLookup k.map addr = none

/-- An entry that is not counted keeps the books in order if it takes the place of one of
its length. -/
theorem accounted_addEntry_iff {k k' : Kernel} (hok : PoolOk k) (h : Accounted k) {addr : Nat}
    {algo : AlgoId} {bytes : List UInt8}
    (hentries : k'.map.entries = (k.addEntry addr algo bytes).map.entries)
    (hstored : k'.stats.storedPages = k.stats.storedPages)
    (htotal : k'.stats.totalBytes = k.stats.totalBytes)
    (hsaved : k'.stats.bytesSaved = k.stats.bytesSaved) :
    Accounted k' ↔
      ∃ entry, mapLookup k.map addr = some entry ∧ entry.compressedLen = bytes.length := by
  have hsize : k'.map.entries.size =
      if mapLookup k.map addr = none then k.map.entries.size + 1 else k.map.entries.size := by
    rw [hentries]
    exact XArray.size_store
  have hsum : ∀ f, XArray.sum f k'.map.entries = f ⟨algo, bytes.length, k.pool.next⟩ +
      XArray.sum f (k.map.entries.erase (vaddrToIndex addr)) := by
    intro f
    rw [hentries]
    exact XArray.sum_store _ _ _ f
  cases hlookup : mapLookup k.map addr with
  | none =>
      simp only [reduceCtorEq, false_and, exists_false, iff_false]
      intro h'
      have hbooks := h'.storedPages
      rw [hstored, h.storedPages, hsize, if_pos hlookup] at hbooks
      omega
  | some entry =>
      simp only [Option.some.injEq, exists_eq_left']
      have hshort := hok.short _ _ hlookup
      have hold := fun f => XArray.sum_erase hlookup f
      rw [if_neg (by rw [hlookup]; simp)] at hsize
      constructor
      · intro h'
        have hbooks := h'.totalBytes
        rw [htotal, h.totalBytes, hsum, hold] at hbooks
        push_cast at hbooks
        omega
      · intro hsame
        refine ⟨by rw [hstored, hsize, h.storedPages], ?_, ?_⟩
        · rw [htotal, h.totalBytes, hsum, hold, hsame]
        · rw [hsaved, h.bytesSaved, hsum, hold, MapEntry.saved, MapEntry.saved, hsame]

/-- **A replacement keeps the books** exactly when the condition on it holds. -/
theorem accounted_replace_iff (codec : Codec) (env : ReplaceEnv) {k : Kernel} (hok : PoolOk k)
    (h : Accounted k) (mm addr : Nat) :
    Accounted (compressAndReplacePte codec env k mm addr).2 ↔
      ReplaceKeepsBooks codec env k mm addr := by
  have hcases := replace_cases codec env hok.storage.wf mm addr
  generalize compressAndReplacePte codec env k mm addr = result at hcases
  unfold ReplaceKeepsBooks
  cases hcases with
  | refused hret hstores =>
      rw [hstores]
      exact iff_of_true (@SameBooks.accounted k _ ⟨rfl, rfl, rfl, rfl⟩ h) trivial
  | @undone ret pfn algo bytes hret hstores hinstalls =>
      rw [hstores]
      dsimp only
      rw [if_neg hinstalls, ← mapLookup_pageMask]
      have hmap : (k.relock mm (pageMask addr) env.relock).1.map = k.map := map_relock ..
      have hstats : (k.unreplaced (k.relock mm (pageMask addr) env.relock).1 (pageMask addr) algo
          bytes).stats = k.stats := by
        cases env.relock <;> rfl
      cases hlookup : mapLookup k.map (pageMask addr) with
      | none =>
          have hvacant := map_unreplaced_of_vacant (by rw [hmap, hlookup]) k algo bytes
          refine iff_of_true (@SameBooks.accounted k _ ?_ h) rfl
          exact ⟨by rw [hvacant, hmap], by rw [hstats], by rw [hstats], by rw [hstats]⟩
      | some entry =>
          simp only [reduceCtorEq, iff_false]
          refine EntriesLt.not_accounted
            (hok.entriesLt hlookup ?_ (by rw [hstats]) (by rw [hstats]; omega)) h
          rw [map_unreplaced, hmap]
  | @done pfn algo bytes hstores hinstalls =>
      rw [hstores]
      dsimp only
      rw [if_pos hinstalls, ← mapLookup_pageMask]
      exact accounted_addEntry_iff hok h rfl rfl rfl rfl

/-! ## Taking entries out -/

/-- `minimem_decompress_and_restore` goes through. -/
def Restores (codec : Codec) (env : RestoreEnv) (k : Kernel) (vaddr : Nat) (pfn : Option Nat) :
    Prop :=
  env.localBuf = true ∧ env.zsRead = true ∧ (pfn.isSome = true → env.kmap = true) ∧
    (pfn.isNone = true → env.cpuBuf = true) ∧
    ∃ entry page, mapLookup k.map vaddr = some entry ∧ k.decode codec entry = some page

/-- A fault handler gets as far as removing the entry. -/
def FaultResolves (codec : Codec) (env : FaultEnv) (k : Kernel) (vmf : FaultInfo) : Prop :=
  k.symbolsResolved = true ∧ vmf.origPte.isMinimem = true ∧ env.page = true ∧
    env.srcBuf = true ∧ env.zsRead = true ∧
    ∃ entry page, mapLookup k.map vmf.address = some entry ∧ k.decode codec entry = some page

/-- Either a condition holds and savings are gone, or it does not and the books are as
they were. -/
theorem accounted_iff_not {k k' : Kernel} {C : Prop} (h : Accounted k)
    (hcases : (C ∧ EntriesLt k k') ∨ (¬C ∧ SameBooks k k')) : Accounted k' ↔ ¬C := by
  rcases hcases with ⟨hC, hlt⟩ | ⟨hC, hsame⟩
  · exact iff_of_false (hlt.not_accounted h) (not_not_intro hC)
  · exact iff_of_true (hsame.accounted h) hC

/-- The entries without the one of the page. -/
theorem entries_dropEntry {k : Kernel} {vaddr : Nat} {entry : MapEntry}
    (hlookup : mapLookup k.map vaddr = some entry) (handle : Nat) :
    (k.dropEntry vaddr handle).map.entries = k.map.entries.erase (vaddrToIndex vaddr) := by
  rw [Kernel.dropEntry, mapRemove_of_lookup hlookup]

/-- A restore that gets its page takes an entry, any other does nothing to the books. -/
theorem restore_books (codec : Codec) (env : RestoreEnv) {k : Kernel} (hok : PoolOk k)
    (vaddr : Nat) (pfn : Option Nat) :
    (Restores codec env k vaddr pfn ∧
      EntriesLt k (decompressAndRestore codec env k vaddr pfn).2) ∨
    (¬Restores codec env k vaddr pfn ∧
      SameBooks k (decompressAndRestore codec env k vaddr pfn).2) := by
  unfold decompressAndRestore Restores
  cases hlookup : mapLookup k.map vaddr with
  | none => exact .inr ⟨by simp, .refl k⟩
  | some entry =>
      dsimp only
      split
      next hbuf => exact .inr ⟨by simp [hbuf], .refl k⟩
      split
      next hread => exact .inr ⟨by simp [hread], .refl k⟩
      split
      next hkmap => exact .inr ⟨by simp [hkmap], .refl k⟩
      split
      next hcpu => exact .inr ⟨by simp [hcpu], .refl k⟩
      next hbuf hread hkmap hcpu =>
        cases hdecode : k.decode codec entry with
        | none => exact .inr ⟨by simp [hdecode], .refl k⟩
        | some page =>
            left
            refine ⟨by simp_all, hok.entriesLt hlookup ?_ ?_ ?_⟩
            · cases pfn with
              | none => exact entries_dropEntry hlookup entry.zsHandle
              | some pfn =>
                  exact @entries_dropEntry (k.writeFrame pfn page) vaddr entry hlookup
                    entry.zsHandle
            · cases pfn <;> rfl
            · cases pfn <;> exact Int.le_refl _

/-- So does the body of the fault handlers. -/
theorem resolveFault_books (codec : Codec) (env : FaultEnv) {k : Kernel} (hok : PoolOk k)
    {vmf : FaultInfo} (hsym : k.symbolsResolved = true) (hmarker : vmf.origPte.isMinimem = true) :
    (FaultResolves codec env k vmf ∧ EntriesLt k (resolveFault codec env k vmf).2) ∨
    (¬FaultResolves codec env k vmf ∧ SameBooks k (resolveFault codec env k vmf).2) := by
  by_cases hresolves : FaultResolves codec env k vmf
  · left
    obtain ⟨-, -, hpage, hbuf, hread, entry, page, hlookup, hdecode⟩ := id hresolves
    have hstats : ((k.dropEntry (pageMask vmf.address) entry.zsHandle).installPage vmf.vma vmf.mm
        vmf.address vmf.origPte page env.relock).stats = k.stats := stats_installPage ..
    have hsaved := congrArg Stats.bytesSaved hstats
    have hstored := congrArg Stats.storedPages hstats
    rw [resolveFault_late hlookup hpage hbuf hread hdecode]
    refine ⟨hresolves, hok.entriesLt hlookup ?_ hsaved ?_⟩
    · show ((k.dropEntry (pageMask vmf.address) entry.zsHandle).installPage _ _ _ _ _
        _).map.entries = _
      rw [map_installPage, entries_dropEntry (by rw [mapLookup_pageMask, hlookup]),
        vaddrToIndex_pageMask]
    · exact Int.le_trans (by omega) (Int.le_of_eq hstored.symm)
  · right
    refine ⟨hresolves, ?_⟩
    rw [resolveFault_early]
    · exact ⟨rfl, rfl, rfl, rfl⟩
    · intro entry page hlookup hpage hbuf hread hdecode
      exact hresolves ⟨hsym, hmarker, hpage, hbuf, hread, entry, page, hlookup, hdecode⟩

/-- So does the handler of a patched kernel. -/
theorem vmFault_books (codec : Codec) (env : FaultEnv) {k : Kernel} (hok : PoolOk k)
    (vmf : FaultInfo) :
    (FaultResolves codec env k vmf ∧ EntriesLt k (vmFaultHandler codec env k vmf).2) ∨
    (¬FaultResolves codec env k vmf ∧ SameBooks k (vmFaultHandler codec env k vmf).2) := by
  rw [vmFaultHandler_snd]
  by_cases hstop : vmf.origPte.isMinimem = false ∨ k.symbolsResolved = false
  · rw [if_pos hstop]
    right
    refine ⟨?_, .refl k⟩
    rintro ⟨hsym, hmarker, -⟩
    simp [hsym, hmarker] at hstop
  · rw [if_neg hstop]
    simp only [not_or, Bool.not_eq_false] at hstop
    exact resolveFault_books codec env hok hstop.2 hstop.1

/-- A removal takes an entry if there is one. -/
theorem zswapRemove_books {k : Kernel} (hok : PoolOk k) (vaddr : Nat) :
    (mapLookup k.map vaddr ≠ none ∧ EntriesLt k (zswapRemove k vaddr).2) ∨
    (¬mapLookup k.map vaddr ≠ none ∧ SameBooks k (zswapRemove k vaddr).2) := by
  unfold zswapRemove
  cases hlookup : mapLookup k.map vaddr with
  | none => exact .inr ⟨by simp, .refl k⟩
  | some entry =>
      left
      rw [mapRemove_of_lookup hlookup]
      exact ⟨by simp, hok.entriesLt hlookup rfl rfl (Int.le_refl _)⟩

/-- So does the callback. -/
theorem zapCb_books {k : Kernel} (hok : PoolOk k) (addr : Nat) :
    (mapLookup k.map addr ≠ none ∧ EntriesLt k (zapCb k addr)) ∨
    (¬mapLookup k.map addr ≠ none ∧ SameBooks k (zapCb k addr)) := by
  unfold zapCb
  dsimp only
  rw [mapLookup_pageMask]
  cases hlookup : mapLookup k.map addr with
  | none => exact .inr ⟨by simp, rfl, rfl, rfl, rfl⟩
  | some entry =>
      left
      refine ⟨by simp, hok.entriesLt hlookup ?_ rfl (Int.le_refl _)⟩
      rw [← vaddrToIndex_pageMask]
      exact @entries_dropEntry { k with stats := { k.stats with
        zapCbCount := k.stats.zapCbCount + 1 } } (pageMask addr) entry
        (by rw [mapLookup_pageMask, hlookup]) entry.zsHandle

/-! ## The shrinker and the unload walk -/

/-- Dropping an entry counts nothing off `mm_bytes_saved`. -/
theorem PoolOk.entriesLt_drop {k : Kernel} (hok : PoolOk k) {vaddr : Nat} {entry : MapEntry}
    (hlookup : mapLookup k.map vaddr = some entry) :
    EntriesLt k (k.dropEntry vaddr entry.zsHandle) :=
  hok.entriesLt hlookup (entries_dropEntry hlookup entry.zsHandle) rfl
    (Int.sub_le_self _ (by decide))

/-- Each round of the shrinker's drain takes an entry out. -/
theorem mapDrainLoop_entriesLe (n cursor : Nat) {k : Kernel} (hok : PoolOk k) :
    EntriesLe k (mapDrainLoop shrinkDrainCallback n cursor k).2 := by
  induction n generalizing cursor k with
  | zero => exact .refl k
  | succ n ih =>
      unfold mapDrainLoop
      cases hfind : k.map.entries.findFrom cursor with
      | none => exact .refl k
      | some found =>
          obtain ⟨index, entry⟩ := found
          have hlookup := mapLookup_of_findFrom hfind
          dsimp only
          rw [shrinkDrainCallback_eq hfind]
          exact (hok.entriesLt_drop hlookup).toEntriesLe.trans
            (ih (index + 1) (dropClosed_poolOk.drop k _ entry hlookup hok))

/-- There is something for the shrinker to drain. -/
def Shrinks (k : Kernel) (nrToScan : Nat) : Prop :=
  nrToScan ≠ 0 ∧ ∃ i entry, k.map.entries.load i = some entry

/-- The shrinker takes entries if it may and there are some. -/
theorem shrinkScan_books {k : Kernel} (hok : PoolOk k) (nrToScan : Nat) :
    (Shrinks k nrToScan ∧ EntriesLt k (shrinkScan k nrToScan).2) ∨
    (¬Shrinks k nrToScan ∧ SameBooks k (shrinkScan k nrToScan).2) := by
  unfold shrinkScan mapDrain Shrinks
  cases nrToScan with
  | zero => exact .inr ⟨by simp, .refl k⟩
  | succ n =>
      rw [if_neg (Nat.succ_ne_zero n)]
      unfold mapDrainLoop
      cases hfind : k.map.entries.findFrom 0 with
      | none =>
          right
          refine ⟨?_, .refl k⟩
          rintro ⟨-, i, entry, hload⟩
          obtain ⟨found, hfound⟩ := XArray.exists_findFrom_zero hload
          rw [hfind] at hfound
          cases hfound
      | some found =>
          obtain ⟨index, entry⟩ := found
          have hlookup := mapLookup_of_findFrom hfind
          left
          refine ⟨⟨Nat.succ_ne_zero n, _, entry, hlookup⟩, ?_⟩
          dsimp only
          rw [shrinkDrainCallback_eq hfind]
          exact (hok.entriesLt_drop hlookup).trans_le
            (mapDrainLoop_entriesLe n (index + 1) (dropClosed_poolOk.drop k _ entry hlookup hok))

/-- A visit of the unload walk drops an entry: it attempts a marker that has one. -/
def Visit.Drops (k : Kernel) (v : Visit) : Prop :=
  v.attempts = true ∧ MarkerAt k v.mm v.vaddr ∧ mapLookup k.map v.vaddr ≠ none

/-- A visit that drops nothing does nothing. -/
theorem drainVisit_books (codec : Codec) (n : Nat) {k : Kernel} (hok : PoolOk k) (v : Visit) :
    (v.Drops k ∧ EntriesLt k (drainVisit codec (n, k) v).2) ∨
    (¬v.Drops k ∧ drainVisit codec (n, k) v = (n, k)) := by
  rcases drainVisit_cases codec n k v with ⟨hdone, hnone⟩ |
    ⟨orig, entry, hattempts, hpte, hmarker, hlookup, hdone⟩
  · right
    refine ⟨?_, hdone⟩
    rintro ⟨hattempts, hmarker, hlookup⟩
    exact hlookup (hnone hattempts hmarker)
  · left
    refine ⟨⟨hattempts, markerAt_of_isMinimem hpte hmarker, by simp [hlookup]⟩, ?_⟩
    rcases hdone with ⟨-, hdone⟩ | ⟨page, -, hdone⟩
    · rw [hdone]
      exact hok.entriesLt hlookup (entries_dropEntry hlookup entry.zsHandle) rfl (Int.le_refl _)
    · rw [hdone]
      have hstats : (k.installPage v.vma v.mm v.vaddr orig page v.env.relock).stats = k.stats :=
        stats_installPage ..
      have hsaved := congrArg Stats.bytesSaved hstats
      apply hok.entriesLt hlookup
      · show ((k.installPage v.vma v.mm v.vaddr orig page v.env.relock).dropEntry v.vaddr
          entry.zsHandle).map.entries = _
        rw [entries_dropEntry (by rw [map_installPage, hlookup]) entry.zsHandle, map_installPage]
      · exact hsaved
      · show _ ≤ (k.installPage v.vma v.mm v.vaddr orig page v.env.relock).stats.storedPages - 1
        rw [hstats]

/-- The first visit that drops an entry finds it as it was at the start. -/
theorem visits_books (codec : Codec) (vs : List Visit) (n : Nat) {k : Kernel} (hok : PoolOk k) :
    ((∃ v ∈ vs, v.Drops k) ∧ EntriesLt k (vs.foldl (drainVisit codec) (n, k)).2) ∨
    ((¬∃ v ∈ vs, v.Drops k) ∧ (vs.foldl (drainVisit codec) (n, k)).2 = k) := by
  induction vs generalizing n k with
  | nil => exact .inr ⟨by simp, rfl⟩
  | cons v vs ih =>
      rw [List.foldl_cons]
      rcases drainVisit_books codec n hok v with ⟨hdrops, hlt⟩ | ⟨hdrops, hdone⟩
      · have hok' := dropClosed_poolOk.drainVisit codec (n := n) v hok
        generalize drainVisit codec (n, k) v = acc at hlt hok'
        obtain ⟨n', k'⟩ := acc
        refine .inl ⟨⟨v, List.mem_cons_self, hdrops⟩, hlt.trans_le ?_⟩
        rcases ih n' hok' with ⟨-, hlt'⟩ | ⟨-, hsame⟩
        · exact hlt'.toEntriesLe
        · rw [hsame]
          exact .refl k'
      · rw [hdone]
        simpa [hdrops] using ih n hok

/-- The unload walk meets a visit that drops an entry. -/
def Drains (k : Kernel) (tasks : List DrainTask) : Prop := ∃ v ∈ k.visits tasks, v.Drops k

/-- So does the walk at unload. -/
theorem drainAndRestore_books (codec : Codec) {k : Kernel} (hok : PoolOk k)
    (tasks : List DrainTask) :
    (Drains k tasks ∧ EntriesLt k (drainAndRestore codec tasks k).2) ∨
    (¬Drains k tasks ∧ SameBooks k (drainAndRestore codec tasks k).2) := by
  unfold drainAndRestore
  by_cases hcount : k.map.count = 0
  · rw [if_pos hcount]
    refine .inr ⟨?_, .refl k⟩
    rintro ⟨v, -, -, -, hlookup⟩
    obtain ⟨entry, hentry⟩ := Option.ne_none_iff_exists'.1 hlookup
    have hpos := XArray.size_pos_of_load hentry
    have hle := hok.storage.size_le_count
    omega
  · rw [if_neg hcount, drainProcess_foldl_eq]
    rcases visits_books codec (k.visits tasks) 0 hok with ⟨hdrains, hlt⟩ | ⟨hdrains, hsame⟩
    · exact .inl ⟨hdrains, hlt⟩
    · refine .inr ⟨hdrains, ?_⟩
      rw [hsame]
      exact .refl k

/-! ## Runs -/

/-- The operations that keep the books in order: a store at a free address, a replacement
that does not store, is undone at a free address or goes through over an entry of the same
length, and any other operation as long as it takes no entry out. -/
def KeepsBooks (codec : Codec) (k : Kernel) : PoolOp → Prop
  | .write _ _ _ => True
  | .store env vaddr pfn =>
      storesAt codec k (.store env vaddr pfn) ≠ none → mapLookup k.map vaddr = none
  | .replace env mm addr => ReplaceKeepsBooks codec env k mm addr
  | .restore env vaddr pfn => ¬Restores codec env k vaddr pfn
  | .vmFault env vmf => ¬FaultResolves codec env k vmf
  | .stockFault env vmf => ¬FaultResolves codec env k vmf
  | .remove vaddr => mapLookup k.map vaddr = none
  | .zapCb addr => mapLookup k.map addr = none
  | .shrink nrToScan => ¬Shrinks k nrToScan
  | .drain tasks => ¬Drains k tasks

/-- A write of the user moves no counter. -/
theorem userWrite_books (k : Kernel) (mm vaddr : Nat) (page : Page) :
    SameBooks k (userWrite k mm vaddr page) := by
  unfold userWrite
  split <;> exact ⟨rfl, rfl, rfl, rfl⟩

/-- One operation leaves the books in order exactly when it is one of those. -/
theorem accounted_exec_iff (codec : Codec) {k : Kernel} (hok : PoolOk k) (h : Accounted k)
    (op : PoolOp) : Accounted (poolExec codec k op) ↔ KeepsBooks codec k op := by
  cases op with
  | write mm vaddr page => exact iff_of_true ((userWrite_books k mm vaddr page).accounted h) trivial
  | store env vaddr pfn =>
      rcases compressAndStore_cases codec env hok.storage.wf vaddr pfn with ⟨hnone, hsame⟩ |
        ⟨algo, bytes, hat, -, hdone⟩
      · exact iff_of_true (hsame.accounted h) fun hsome => absurd hnone hsome
      · show Accounted (compressAndStore codec env k vaddr pfn).2 ↔ (_ → _)
        rw [hdone, hat, accounted_booked_iff h]
        simp
  | replace env mm addr => exact accounted_replace_iff codec env hok h mm addr
  | restore env vaddr pfn => exact accounted_iff_not h (restore_books codec env hok vaddr pfn)
  | vmFault env vmf => exact accounted_iff_not h (vmFault_books codec env hok vmf)
  | stockFault env vmf =>
      have hbooks := vmFault_books codec env hok vmf
      rw [← stockMarkerFault_snd] at hbooks
      exact accounted_iff_not h hbooks
  | remove vaddr => exact (accounted_iff_not h (zswapRemove_books hok vaddr)).trans not_not
  | zapCb addr => exact (accounted_iff_not h (zapCb_books hok addr)).trans not_not
  | shrink nrToScan => exact accounted_iff_not h (shrinkScan_books hok nrToScan)
  | drain tasks => exact accounted_iff_not h (drainAndRestore_books codec hok tasks)

/-- Every operation keeps the storage in order. -/
theorem poolOk_exec (codec : Codec) {k : Kernel} (hok : PoolOk k) (op : PoolOp) :
    PoolOk (poolExec codec k op) := by
  cases op with
  | write mm vaddr page => exact dropClosed_poolOk.userWrite mm vaddr page hok
  | store env vaddr pfn =>
      rcases compressAndStore_storage codec env hok.storage.wf vaddr pfn with ⟨-, hsame⟩ | ⟨hat, -⟩
      · exact dropClosed_poolOk.same _ _ hsame hok
      · rcases compressAndStore_cases codec env hok.storage.wf vaddr pfn with ⟨hnone, -⟩ |
          ⟨algo, bytes, -, hbuf, hdone⟩
        · rw [hat] at hnone
          cases hnone
        · show PoolOk (compressAndStore codec env k vaddr pfn).2
          rw [hdone]
          exact dropClosed_poolOk.same (k.addEntry vaddr algo bytes) _ ⟨rfl, rfl, Nat.le_refl _⟩
            (hok.add vaddr algo (compressBuf_length hbuf))
  | replace env mm addr =>
      show PoolOk (compressAndReplacePte codec env k mm addr).2
      have hcases := replace_cases codec env hok.storage.wf mm addr
      generalize compressAndReplacePte codec env k mm addr = result at hcases
      cases hcases with
      | refused _ _ hsame => exact dropClosed_poolOk.same _ _ hsame hok
      | @undone ret pfn algo bytes _ hstores =>
          obtain ⟨-, -, hbuf, -⟩ := replaceStores_eq_some hstores
          have hrelock : PoolOk (k.relock mm (pageMask addr) env.relock).1 :=
            dropClosed_poolOk.same k _ ⟨map_relock .., by rw [pool_relock], by rw [pool_relock]⟩ hok
          have hadd := hrelock.add (pageMask addr) algo (compressBuf_length hbuf)
          have hdrop := dropClosed_poolOk.drop _ _ _ (mapLookup_addEntry_self _ _ _ _) hadd
          rw [pool_relock] at hdrop
          exact hdrop
      | @done pfn algo bytes hstores =>
          obtain ⟨-, -, hbuf, -⟩ := replaceStores_eq_some hstores
          exact dropClosed_poolOk.same (k.addEntry (pageMask addr) algo bytes) _
            ⟨rfl, rfl, Nat.le_refl _⟩ (hok.add (pageMask addr) algo (compressBuf_length hbuf))
  | restore env vaddr pfn => exact dropClosed_poolOk.decompressAndRestore env vaddr pfn hok
  | vmFault env vmf => exact dropClosed_poolOk.vmFaultHandler codec env vmf hok
  | stockFault env vmf => exact dropClosed_poolOk.stockMarkerFault codec env vmf hok
  | remove vaddr => exact dropClosed_poolOk.zswapRemove vaddr hok
  | zapCb addr => exact dropClosed_poolOk.zapCb addr hok
  | shrink nrToScan => exact dropClosed_poolOk.shrinkScan nrToScan hok
  | drain tasks => exact dropClosed_poolOk.drainAndRestore codec tasks hok

/-- All is 0 at load. -/
theorem accounted_loaded (mms : Nat → Mm) (frames : Frames) (maxPoolPages minSavingsPct : Int)
    (symbolsResolved : Bool) :
    Accounted (.loaded mms frames maxPoolPages minSavingsPct symbolsResolved) := by
  refine ⟨?_, ?_, ?_⟩ <;> simp [Kernel.loaded]

/-- **Pool accounting**: from module load on, the three counters agree with the map in every
state of a run exactly when every operation of it is one that keeps the books. -/
theorem accounted_along_iff (codec : Codec) (mms : Nat → Mm) (frames : Frames)
    (maxPoolPages minSavingsPct : Int) (symbolsResolved : Bool) (ops : List PoolOp) :
    Along (poolStep codec) Accounted
        (.loaded mms frames maxPoolPages minSavingsPct symbolsResolved) ops ↔
      Guarded (poolStep codec) (KeepsBooks codec)
        (.loaded mms frames maxPoolPages minSavingsPct symbolsResolved) ops := by
  apply along_iff_guarded (I := PoolOk) _ _ _ ops (accounted_loaded ..) (poolOk_loaded ..)
  · intro k op _ hstep
    cases hstep
  · intro k op k' hok hstep
    cases hstep
    exact poolOk_exec codec hok op
  · intro k op k' h hok hstep
    cases hstep
    exact accounted_exec_iff codec hok h op

/-! ## A replacement that is not counted -/

/-- A page is compressed in place, which counts nothing, and removed, which counts it out:
the number of stored pages is negative. -/
theorem not_accounted_replace :
    ¬Along (poolStep samePageCodec) Accounted onePage [.replace .ok 0 0x1000, .remove 0x1000] ∧
      (poolExec samePageCodec (poolExec samePageCodec onePage (.replace .ok 0 0x1000))
        (.remove 0x1000)).stats.storedPages = -1 := by
  have hmask : pageMask 0x1000 = 0x1000 := by decide
  have hreplaced : poolExec samePageCodec onePage (.replace .ok 0 0x1000) =
      onePage.replaced 0 0x1000 0 .samePage [0] := by
    have hstores := @replaceStores_fill .ok rfl rfl onePage rfl rfl 0 0x1000 0 true true
      false 0 (pteAt_setPteAt_self _ _ _ _) rfl
    rw [poolExec, replace_of_installs (fun _ _ => rfl) hstores rfl, hmask]
  have hlookup : mapLookup (onePage.replaced 0 0x1000 0 .samePage [0]).map 0x1000 =
      some ⟨.samePage, 1, 1⟩ := mapLookup_addEntry_self onePage 0x1000 .samePage [0]
  constructor
  · rintro ⟨-, halong⟩
    have hbooks := (halong _ (by rw [poolStep, hreplaced])).1.storedPages
    have hsize := XArray.size_pos_of_load hlookup
    have hstored : (onePage.replaced 0 0x1000 0 .samePage [0]).stats.storedPages = 0 := rfl
    rw [hstored] at hbooks
    omega
  · rw [hreplaced]
    show (zswapRemove _ 0x1000).2.stats.storedPages = -1
    rw [zswapRemove, hlookup, mapRemove_of_lookup hlookup]
    rfl

end MiniMem
