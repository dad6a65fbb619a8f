import MiniMem.Kernel.Map

/-!
# MiniMem.Kernel.Zswap

Compressed storage behind the map: storing a page, restoring it, dropping
it, and the walk over all processes that module unload relies on.

Every step of the source that can fail takes its outcome from an
environment record, so that a theorem over all environments covers every
failure point.  What `minimem_proc_stats_*` record is not modelled.
-/

namespace MiniMem

/-! ## Compressing and storing -/

/-- Outcomes of the fallible steps between reading a page and `minimem_map_store`. -/
structure StoreEnv where
  kmap : Bool
  cpuBuf : Bool
  localBuf : Bool
  zsMalloc : Bool
  entryAlloc : Bool
  xaStore : Bool
  deriving DecidableEq, Repr

/-- No step fails. -/
def StoreEnv.ok : StoreEnv := ⟨true, true, true, true, true, true⟩

/-- From `kmap_local_page` to the copy in `local_buf`: compress a page and apply
the size and savings thresholds. -/
def compressBuf (codec : Codec) (env : StoreEnv) (minPct : Int) (page : Page) :
    Except Int (AlgoId × List UInt8) :=
  if env.kmap = false then .error efault
  else if env.cpuBuf = false then .error einval
  else
    match codec.compress page with
    | .error status => .error status.code
    | .ok (algo, bytes) =>
        if bytes.length = 0 ∨ bytes.length ≥ pageSize then .error Status.incompressible.code
        else if ((100 * (pageSize - bytes.length) / pageSize : Nat) : Int) < minPct then
          .error Status.incompressible.code
        else if env.localBuf = false then .error enomem
        else .ok (algo, bytes)

/-- Without a savings threshold, what the codec makes of a page of one byte is kept if it
is that byte. -/
theorem compressBuf_fill {codec : Codec} {b : UInt8}
    (h : codec.compress (Page.fill b) = .ok (.samePage, [b])) :
    compressBuf codec .ok 0 (Page.fill b) = .ok (.samePage, [b]) := by
  rw [compressBuf, h]
  simp [StoreEnv.ok, pageSize]

/-- What is stored is what the codec returned. -/
theorem compressBuf_ok {codec : Codec} {env : StoreEnv} {minPct : Int} {page : Page}
    {algo : AlgoId} {bytes : List UInt8}
    (h : compressBuf codec env minPct page = .ok (algo, bytes)) :
    codec.compress page = .ok (algo, bytes) := by
  unfold compressBuf at h
  split at h
  · cases h
  split at h
  · cases h
  split at h
  · cases h
  next algo' bytes' hcompress =>
    split at h
    · cases h
    split at h
    · cases h
    split at h
    · cases h
    · injection h with h
      rw [hcompress, h]

/-- A compression that is given up returns an error code. -/
theorem compressBuf_error_ne {codec : Codec} {env : StoreEnv} {minPct ret : Int} {page : Page}
    (h : compressBuf codec env minPct page = .error ret) : ret ≠ 0 := by
  unfold compressBuf at h
  split at h
  · injection h with h
    rw [← h]
    decide
  split at h
  · injection h with h
    rw [← h]
    decide
  split at h
  next status _ =>
    injection h with h
    rw [← h]
    cases status <;> decide
  split at h
  · injection h with h
    rw [← h]
    decide
  split at h
  · injection h with h
    rw [← h]
    decide
  split at h
  · injection h with h
    rw [← h]
    decide
  · cases h

/-- From `zs_malloc` to `minimem_map_store`: put the bytes in the pool and enter the
handle in the map; the object is freed again if that fails. -/
def storeCompressed (k : Kernel) (env : StoreEnv) (vaddr : Nat) (algo : AlgoId)
    (bytes : List UInt8) : Except Int Nat × Kernel :=
  if env.zsMalloc = false then (.error enomem, k)
  else
    let handle := k.pool.next
    let pool := k.pool.malloc bytes
    match mapStore k.map vaddr ⟨algo, bytes.length, handle⟩ env.entryAlloc env.xaStore with
    | .error ret => (.error ret, { k with pool := pool.free handle })
    | .ok map => (.ok handle, { k with pool := pool, map := map })

/-- `minimem_compress_and_store`. -/
def compressAndStore (codec : Codec) (env : StoreEnv) (k : Kernel) (vaddr pfn : Nat) :
    Int × Kernel :=
  if k.maxPoolPages > 0 ∧ k.stats.storedPages ≥ k.maxPoolPages then (enospc, k)
  else
    match compressBuf codec env k.minSavingsPct (k.frames.data pfn) with
    | .error ret => (ret, k)
    | .ok (algo, bytes) =>
        match storeCompressed k env vaddr algo bytes with
        | (.error ret, k) => (ret, k)
        | (.ok _, k) =>
            (0, { k with stats := { k.stats with
              storedPages := k.stats.storedPages + 1
              totalBytes := k.stats.totalBytes + bytes.length
              bytesSaved := k.stats.bytesSaved + (pageSize - bytes.length : Nat) } })

/-! ## Restoring and dropping -/

/-- `atomic64_dec(&mm_stored_pages)` and `atomic64_sub(len, &mm_total_bytes)`. -/
def Kernel.uncount (k : Kernel) (len : Nat) : Kernel :=
  { k with stats := { k.stats with
      storedPages := k.stats.storedPages - 1, totalBytes := k.stats.totalBytes - len } }

/-- Outcomes of the fallible steps of `minimem_decompress_and_restore`. -/
structure RestoreEnv where
  localBuf : Bool
  zsRead : Bool
  kmap : Bool
  cpuBuf : Bool
  deriving DecidableEq, Repr

/-- `minimem_decompress_and_restore`, into the frame `pfn` or, without one, into the
per-CPU buffer. -/
def decompressAndRestore (codec : Codec) (env : RestoreEnv) (k : Kernel) (vaddr : Nat)
    (pfn : Option Nat) : Int × Kernel :=
  match mapLookup k.map vaddr with
  | none => (enoent, k)
  | some entry =>
      if env.localBuf = false then (enomem, k)
      else if env.zsRead = false then (eio, k)
      else if pfn.isSome ∧ env.kmap = false then (efault, k)
      else if pfn.isNone ∧ env.cpuBuf = false then (Status.error.code, k)
      else
        match k.decode codec entry with
        | none => (Status.error.code, k)
        | some page =>
            let k := match pfn with
              | some pfn => k.writeFrame pfn page
              | none => k
            (0, (k.dropEntry vaddr entry.zsHandle).uncount entry.compressedLen)

/-- `minimem_zswap_remove`. -/
def zswapRemove (k : Kernel) (vaddr : Nat) : Int × Kernel :=
  match mapLookup k.map vaddr with
  | none => (enoent, k)
  | some entry =>
      match mapRemove k.map vaddr with
      | (false, map) => (enoent, { k with map := map })
      | (true, map) =>
          (0, { k with map := map, pool := k.pool.free entry.zsHandle }.uncount entry.compressedLen)

/-- `minimem_zswap_zap_cb`. -/
def zapCb (k : Kernel) (addr : Nat) : Kernel :=
  let k := { k with stats := { k.stats with zapCbCount := k.stats.zapCbCount + 1 } }
  match mapLookup k.map (pageMask addr) with
  | none => { k with stats := { k.stats with zapCbMissCount := k.stats.zapCbMissCount + 1 } }
  | some entry => (k.dropEntry (pageMask addr) entry.zsHandle).uncount entry.compressedLen

/-! ## Relocking a page-table entry -/

/-- What `minimem_pte_offset_map_lock` finds the second time: the entry as it is,
nothing, or an entry that another thread put there in between. -/
inductive Relock where
  | same
  | noLock
  | changed (pte : Pte)
  deriving DecidableEq, Repr

/-- The kernel when the lock is taken again, and the entry found. -/
def Kernel.relock (k : Kernel) (mm vaddr : Nat) : Relock → Kernel × Option Pte
  | .same => (k, k.pteAt mm vaddr)
  | .noLock => (k, none)
  | .changed pte => (k.setPteAt mm vaddr pte, some pte)

/-- The entry that maps a new page of a VMA: writable if the VMA is, young, clean. -/
def newPte (vma : Vma) (pfn : Nat) : Pte := .present pfn vma.write true false

/-- Map a new page with the given contents. -/
def Kernel.mapNewPage (k : Kernel) (vma : Vma) (mm vaddr : Nat) (page : Page) : Kernel :=
  ((k.allocPage page).setPteAt mm vaddr (newPte vma k.frames.next)).addAnonPages mm 1

/-- The last step of every restore: under the lock, map the new page if the entry is
still the one seen before, otherwise free the page again. -/
def Kernel.installPage (k : Kernel) (vma : Vma) (mm vaddr : Nat) (orig : Pte) (page : Page)
    (relock : Relock) : Kernel :=
  match k.relock mm vaddr relock with
  | (k, some pte) => if pte = orig then k.mapNewPage vma mm vaddr page else k
  | (k, none) => k

/-- The page is mapped if the entry found under the lock is the one seen before, and the
kernel is otherwise as it was found. -/
theorem installPage_eq (k : Kernel) (vma : Vma) (mm vaddr : Nat) (orig : Pte) (page : Page)
    (relock : Relock) :
    k.installPage vma mm vaddr orig page relock =
      if (k.relock mm vaddr relock).2 = some orig then
        (k.relock mm vaddr relock).1.mapNewPage vma mm vaddr page
      else (k.relock mm vaddr relock).1 := by
  unfold Kernel.installPage
  cases hrelock : k.relock mm vaddr relock with
  | mk k' found =>
      cases found with
      | none => rfl
      | some pte => simp

/-- A page that is mapped anew is present with the rights of its VMA. -/
@[simp] theorem pteAt_mapNewPage_self (k : Kernel) (vma : Vma) (mm vaddr : Nat) (page : Page) :
    (k.mapNewPage vma mm vaddr page).pteAt mm vaddr = some (newPte vma k.frames.next) := by
  simp [Kernel.mapNewPage]

/-- Its frame holds what was decompressed. -/
@[simp] theorem data_mapNewPage_self (k : Kernel) (vma : Vma) (mm vaddr : Nat) (page : Page) :
    (k.mapNewPage vma mm vaddr page).frames.data k.frames.next = page := by
  simp [Kernel.mapNewPage]

/-- A new page shows at the address it is mapped at. -/
@[simp] theorem pageAt_mapNewPage_self (k : Kernel) (vma : Vma) (mm vaddr : Nat) (page : Page) :
    (k.mapNewPage vma mm vaddr page).pageAt mm vaddr = some page := by
  rw [pageAt_of_present (pteAt_mapNewPage_self k vma mm vaddr page), data_mapNewPage_self]

/-- Mapping a page leaves the map of entries alone. -/
@[simp] theorem map_mapNewPage (k : Kernel) (vma : Vma) (mm vaddr : Nat) (page : Page) :
    (k.mapNewPage vma mm vaddr page).map = k.map := rfl

@[simp] theorem pool_mapNewPage (k : Kernel) (vma : Vma) (mm vaddr : Nat) (page : Page) :
    (k.mapNewPage vma mm vaddr page).pool = k.pool := rfl

/-- What others do to the PTE leaves the map of entries alone. -/
@[simp] theorem map_relock (k : Kernel) (mm vaddr : Nat) (relock : Relock) :
    (k.relock mm vaddr relock).1.map = k.map := by
  cases relock <;> rfl

@[simp] theorem pool_relock (k : Kernel) (mm vaddr : Nat) (relock : Relock) :
    (k.relock mm vaddr relock).1.pool = k.pool := by
  cases relock <;> rfl

@[simp] theorem frames_relock (k : Kernel) (mm vaddr : Nat) (relock : Relock) :
    (k.relock mm vaddr relock).1.frames = k.frames := by
  cases relock <;> rfl

@[simp] theorem stats_relock (k : Kernel) (mm vaddr : Nat) (relock : Relock) :
    (k.relock mm vaddr relock).1.stats = k.stats := by
  cases relock <;> rfl

/-- The last step of a restore leaves the map of entries alone. -/
@[simp] theorem map_installPage (k : Kernel) (vma : Vma) (mm vaddr : Nat) (orig : Pte)
    (page : Page) (relock : Relock) :
    (k.installPage vma mm vaddr orig page relock).map = k.map := by
  rw [installPage_eq]
  split <;> simp

@[simp] theorem pool_installPage (k : Kernel) (vma : Vma) (mm vaddr : Nat) (orig : Pte)
    (page : Page) (relock : Relock) :
    (k.installPage vma mm vaddr orig page relock).pool = k.pool := by
  rw [installPage_eq]
  split <;> simp

@[simp] theorem stats_installPage (k : Kernel) (vma : Vma) (mm vaddr : Nat) (orig : Pte)
    (page : Page) (relock : Relock) :
    (k.installPage vma mm vaddr orig page relock).stats = k.stats := by
  rw [installPage_eq]
  split
  · exact stats_relock ..
  · exact stats_relock ..

/-! ## Unload -/

/-- Outcomes of the fallible steps at one address of the unload walk. -/
structure DrainPageEnv where
  lock : Bool
  page : Bool
  srcBuf : Bool
  zsRead : Bool
  relock : Relock
  deriving DecidableEq, Repr

/-- A process as `for_each_process` meets it: its address space, if it has one, whether
`mmget_not_zero` and `mmap_read_trylock` succeed, and what happens at each address. -/
structure DrainTask where
  mm : Option Nat
  mmget : Bool
  trylock : Bool
  pages : Nat → DrainPageEnv

/-- The body of the innermost loop of `minimem_zswap_drain_and_restore`. -/
def drainPage (codec : Codec) (env : DrainPageEnv) (vma : Vma) (mm vaddr : Nat)
    (acc : Nat × Kernel) : Nat × Kernel :=
  let (restored, k) := acc
  match (if env.lock then k.pteAt mm vaddr else none) with
  | none => (restored, k)
  | some oldPte =>
      if oldPte.isMinimem = false then (restored, k)
      else
        match mapLookup k.map vaddr with
        | none => (restored, k)
        | some entry =>
            if env.page = false then (restored, k)
            else if env.srcBuf = false then (restored, k)
            else if env.zsRead = false then (restored, k)
            else
              match k.decode codec entry with
              | none =>
                  (restored, (k.dropEntry vaddr entry.zsHandle).uncount entry.compressedLen)
              | some page =>
                  let k := k.installPage vma mm vaddr oldPte page env.relock
                  (restored + 1,
                    (k.dropEntry vaddr entry.zsHandle).uncount entry.compressedLen)

/-- Whether the walk skips a VMA. -/
def Vma.drained (vma : Vma) : Bool :=
  vma.anonymous && decide (vma.start ≠ 0) && decide (vma.stop ≠ 0) && !(vma.pfnmap || vma.io)

/-- The walk over one VMA. -/
def drainVma (codec : Codec) (pages : Nat → DrainPageEnv) (mm : Nat) (acc : Nat × Kernel)
    (vma : Vma) : Nat × Kernel :=
  if vma.drained = false then acc
  else (pagesFrom vma.start vma.stop).foldl
    (fun acc vaddr => drainPage codec (pages vaddr) vma mm vaddr acc) acc

/-- The walk over one process. -/
def drainProcess (codec : Codec) (acc : Nat × Kernel) (task : DrainTask) : Nat × Kernel :=
  match task.mm with
  | none => acc
  | some mm =>
      if task.mmget = false then acc
      else if task.trylock = false then acc
      else (acc.2.mms mm).vmas.foldl (drainVma codec task.pages mm) acc

/-- `minimem_zswap_drain_and_restore`. -/
def drainAndRestore (codec : Codec) (tasks : List DrainTask) (k : Kernel) : Nat × Kernel :=
  if k.map.count = 0 then (0, k)
  else tasks.foldl (drainProcess codec) (0, k)

/-- `minimem_zswap_exit`: the map is emptied and the pool destroyed with its objects. -/
def zswapExit (k : Kernel) : Kernel :=
  { k with map := mapRemoveAll k.map, pool := { k.pool with objs := fun _ => none } }

end MiniMem
