import MiniMem.Kernel.Ops

/-!
# MiniMem.Kernel.Threads

Several threads at work on compressed pages at the same time.  A thread is
in one of the functions that look an entry up, read its object, take the
entry out of the map and free the object; each of these is one step, since
each is under a lock of its own, and the steps of different threads
interleave freely.

`minimem_map_drain` holds the map's `rwsem` as a writer from its first entry
to its last, and `minimem_map_remove` takes it for the time of its step, so
removals wait for a drain; lookups and accesses to the pool do not.
-/

namespace MiniMem

/-! ## Tasks -/

/-- What a thread is doing: a fault on a stock or on a patched kernel,
`minimem_decompress_and_restore`, `minimem_zswap_remove`, `minimem_zswap_zap_cb`, or
`minimem_shrink_scan`. -/
inductive Task where
  | fault (stock : Bool) (env : FaultEnv) (vmf : FaultInfo)
  | restore (env : RestoreEnv) (vaddr : Nat) (pfn : Option Nat)
  | remove (vaddr : Nat)
  | zapCb (addr : Nat)
  | shrink (nrToScan : Nat)

/-- The operation that a task carries out when it is alone. -/
def Task.op : Task → Op
  | .fault true env vmf => .stockFault env vmf
  | .fault false env vmf => .vmFault env vmf
  | .restore env vaddr pfn => .restore env vaddr pfn
  | .remove vaddr => .remove vaddr
  | .zapCb addr => .zapCb addr
  | .shrink nrToScan => .shrink nrToScan

/-- Where a thread stands: before its lookup, with its copy of the entry, with the
decompressed page, behind `minimem_map_remove`, behind `zs_free`, inside the drain before
the next entry or before the callback on one, or at its end. -/
inductive TaskPc where
  | start
  | looked (entry : MapEntry)
  | decompressed (entry : MapEntry) (page : Page)
  | removed (entry : MapEntry) (page : Option Page)
  | freed (page : Page)
  | draining (left cursor : Nat)
  | fetched (left cursor : Nat) (entry : MapEntry)
  | done (fault : Option VmFault)

/-- What a step does to the pool. -/
inductive PoolEvent where
  | read (handle : Nat)
  | free (handle : Nat)
  deriving DecidableEq, Repr

/-- The outcome of one step of a thread; `rwsem` is the thread that holds the map's `rwsem`
across steps. -/
structure Turn where
  kernel : Kernel
  rwsem : Option Nat
  pc : TaskPc
  event : Option PoolEvent

/-- What a fault handler's exit is as a fault result, on a stock or on a patched kernel. -/
def FaultExit.result (stock : Bool) : FaultExit → VmFault
  | .handled => .nopage
  | .noPage => if stock then .sigbus else .oom
  | .noBuffer => if stock then .sigbus else .oom
  | _ => .sigbus

/-- The step of a thread up to its copy of the entry. -/
def lookupTurn (rwsem : Option Nat) (i : Nat) (k : Kernel) : Task → Option Turn
  | .fault stock env vmf =>
      if k.symbolsResolved = false then some ⟨k, rwsem, .done (some .sigbus), none⟩
      else if vmf.origPte.isMinimem = false then some ⟨k, rwsem, .done (some .sigbus), none⟩
      else
        match mapLookup k.map (pageMask vmf.address) with
        | none => some ⟨k.faultMissed, rwsem, .done (some (FaultExit.noEntry.result stock)), none⟩
        | some entry =>
            if env.page = false then
              some ⟨k.faultMissed, rwsem, .done (some (FaultExit.noPage.result stock)), none⟩
            else if env.srcBuf = false then
              some ⟨k.faultMissed, rwsem, .done (some (FaultExit.noBuffer.result stock)), none⟩
            else some ⟨k, rwsem, .looked entry, none⟩
  | .restore env vaddr _ =>
      match mapLookup k.map vaddr with
      | none => some ⟨k, rwsem, .done none, none⟩
      | some entry =>
          if env.localBuf = false then some ⟨k, rwsem, .done none, none⟩
          else some ⟨k, rwsem, .looked entry, none⟩
  | .remove vaddr =>
      match mapLookup k.map vaddr with
      | none => some ⟨k, rwsem, .done none, none⟩
      | some entry => some ⟨k, rwsem, .looked entry, none⟩
  | .zapCb addr =>
      let k := { k with stats := { k.stats with zapCbCount := k.stats.zapCbCount + 1 } }
      match mapLookup k.map (pageMask addr) with
      | none => some ⟨{ k with stats := { k.stats with
          zapCbMissCount := k.stats.zapCbMissCount + 1 } }, rwsem, .done none, none⟩
      | some entry => some ⟨k, rwsem, .looked entry, none⟩
  | .shrink nrToScan =>
      if nrToScan = 0 then some ⟨k, rwsem, .done none, none⟩
      else if rwsem.isSome then none
      else some ⟨k, some i, .draining nrToScan 0, none⟩

/-- `minimem_map_remove`, which waits while a drain is on. -/
def removeTurn (rwsem : Option Nat) (k : Kernel) (vaddr : Nat) (pc : Bool → TaskPc) : Option Turn :=
  if rwsem.isSome then none
  else some ⟨{ k with map := (mapRemove k.map vaddr).2 }, rwsem, pc (mapRemove k.map vaddr).1, none⟩

/-- The step of a thread that has its copy of the entry: the fault handler and
`minimem_decompress_and_restore` read and decompress, the others remove. -/
def lookedTurn (codec : Codec) (rwsem : Option Nat) (k : Kernel) (entry : MapEntry) :
    Task → Option Turn
  | .fault stock env _ =>
      if env.zsRead = false then
        some ⟨k.faultMissed, rwsem, .done (some (FaultExit.noRead.result stock)),
          some (.read entry.zsHandle)⟩
      else
        match k.decode codec entry with
        | none => some ⟨k.faultMissed, rwsem, .done (some (FaultExit.badData.result stock)),
            some (.read entry.zsHandle)⟩
        | some page => some ⟨k, rwsem, .decompressed entry page, some (.read entry.zsHandle)⟩
  | .restore env _ pfn =>
      if env.zsRead = false then some ⟨k, rwsem, .done none, some (.read entry.zsHandle)⟩
      else if pfn.isSome ∧ env.kmap = false then
        some ⟨k, rwsem, .done none, some (.read entry.zsHandle)⟩
      else if pfn.isNone ∧ env.cpuBuf = false then
        some ⟨k, rwsem, .done none, some (.read entry.zsHandle)⟩
      else
        match k.decode codec entry with
        | none => some ⟨k, rwsem, .done none, some (.read entry.zsHandle)⟩
        | some page =>
            let k := match pfn with
              | some pfn => k.writeFrame pfn page
              | none => k
            some ⟨k, rwsem, .decompressed entry page, some (.read entry.zsHandle)⟩
  | .remove vaddr =>
      removeTurn rwsem k vaddr fun found => if found then .removed entry none else .done none
  | .zapCb addr => removeTurn rwsem k (pageMask addr) fun _ => .removed entry none
  | .shrink _ => none

/-- One step of a thread. -/
def turn (codec : Codec) (rwsem : Option Nat) (i : Nat) (k : Kernel) (task : Task) :
    TaskPc → Option Turn
  | .start => lookupTurn rwsem i k task
  | .looked entry => lookedTurn codec rwsem k entry task
  | .decompressed entry page =>
      match task with
      | .fault _ _ vmf =>
          removeTurn rwsem k (pageMask vmf.address) fun _ => .removed entry (some page)
      | .restore _ vaddr _ => removeTurn rwsem k vaddr fun _ => .removed entry (some page)
      | _ => none
  | .removed entry page =>
      let freed := { k with pool := k.pool.free entry.zsHandle }
      match task, page with
      | .fault .., some page => some ⟨freed, rwsem, .freed page, some (.free entry.zsHandle)⟩
      | _, _ => some ⟨freed.uncount entry.compressedLen, rwsem, .done none,
          some (.free entry.zsHandle)⟩
  | .freed page =>
      match task with
      | .fault stock env vmf =>
          some ⟨(k.installPage vmf.vma vmf.mm vmf.address vmf.origPte page env.relock).faultHandled,
            rwsem, .done (some (FaultExit.handled.result stock)), none⟩
      | _ => none
  | .draining 0 _ => some ⟨k, none, .done none, none⟩
  | .draining (left + 1) cursor =>
      match k.map.entries.findFrom cursor with
      | none => some ⟨k, none, .done none, none⟩
      | some (index, entry) =>
          some ⟨{ k with map := ⟨k.map.entries.erase index, k.map.count - 1⟩ }, rwsem,
            .fetched left (index + 1) entry, none⟩
  | .fetched left cursor entry =>
      some ⟨{ k with pool := k.pool.free entry.zsHandle }, rwsem, .draining left cursor,
        some (.free entry.zsHandle)⟩
  | .done _ => none

/-! ## Threads -/

/-- The kernel, the threads, the holder of the map's `rwsem`, and what has been done to the
pool, latest first. -/
structure ThreadState where
  kernel : Kernel
  rwsem : Option Nat
  pcs : Nat → TaskPc
  trace : List PoolEvent

/-- All threads at their start. -/
def ThreadState.init (k : Kernel) : ThreadState := ⟨k, none, fun _ => .start, []⟩

/-- One step of thread `i`. -/
def threadStep (codec : Codec) (tasks : List Task) (s : ThreadState) (i : Nat) :
    Option ThreadState :=
  match tasks[i]? with
  | none => none
  | some task =>
      match turn codec s.rwsem i s.kernel task (s.pcs i) with
      | none => none
      | some t => some ⟨t.kernel, t.rwsem, Function.update s.pcs i t.pc, t.event.toList ++ s.trace⟩

/-! ## A thread alone -/

/-- At most `n` steps of a task with nobody else around. -/
def runTask (codec : Codec) (task : Task) : Nat → Option Nat → Kernel → TaskPc → Kernel × TaskPc
  | 0, _, k, pc => (k, pc)
  | n + 1, rwsem, k, pc =>
      match turn codec rwsem 0 k task pc with
      | none => (k, pc)
      | some t => runTask codec task n t.rwsem t.kernel t.pc

theorem vmFaultHandler_eq_result {codec : Codec} {env : FaultEnv} {k : Kernel} {vmf : FaultInfo}
    (hsym : ¬k.symbolsResolved = false) (hmarker : ¬vmf.origPte.isMinimem = false) :
    vmFaultHandler codec env k vmf
      = ((resolveFault codec env k vmf).1.result false, (resolveFault codec env k vmf).2) := by
  rw [vmFaultHandler, if_neg hsym, if_neg hmarker]
  cases hresolve : resolveFault codec env k vmf with
  | mk exit k' => cases exit <;> rfl

theorem stockMarkerFault_eq_result {codec : Codec} {env : FaultEnv} {k : Kernel} {vmf : FaultInfo}
    (hsym : ¬k.symbolsResolved = false) (hmarker : ¬vmf.origPte.isMinimem = false) :
    stockMarkerFault codec env k vmf
      = ((resolveFault codec env k vmf).1.result true, (resolveFault codec env k vmf).2) := by
  rw [stockMarkerFault, kretprobeEntry, if_neg hsym, if_neg hmarker, handleSwapFault,
    if_neg hmarker, if_neg hsym]
  cases hresolve : resolveFault codec env k vmf with
  | mk exit k' => cases exit <;> rfl

/-- The steps of a fault handler, one after the other, are its body. -/
theorem runTask_resolveFault {codec : Codec} {k : Kernel} {vmf : FaultInfo} (stock : Bool)
    (env : FaultEnv) (hsym : ¬k.symbolsResolved = false)
    (hmarker : ¬vmf.origPte.isMinimem = false) :
    runTask codec (.fault stock env vmf) 5 none k .start
      = ((resolveFault codec env k vmf).2,
        .done (some ((resolveFault codec env k vmf).1.result stock))) := by
  cases hlookup : mapLookup k.map (pageMask vmf.address) with
  | none => simp [runTask, turn, lookupTurn, resolveFault, hsym, hmarker, hlookup]
  | some entry =>
      by_cases hpage : env.page = false
      · simp [runTask, turn, lookupTurn, resolveFault, hsym, hmarker, hlookup, hpage]
      by_cases hbuf : env.srcBuf = false
      · simp [runTask, turn, lookupTurn, resolveFault, hsym, hmarker, hlookup, hpage, hbuf]
      by_cases hread : env.zsRead = false
      · simp [runTask, turn, lookupTurn, lookedTurn, resolveFault, hsym, hmarker, hlookup, hpage,
          hbuf, hread]
      cases hdecode : k.decode codec entry with
      | none =>
          simp [runTask, turn, lookupTurn, lookedTurn, resolveFault, hsym, hmarker, hlookup, hpage,
            hbuf, hread, hdecode]
      | some page =>
          simp [runTask, turn, lookupTurn, lookedTurn, removeTurn, resolveFault, hsym, hmarker,
            hlookup, hpage, hbuf, hread, hdecode, Kernel.dropEntry]

/-- A thread that is done stays where it is. -/
theorem runTask_done (codec : Codec) (task : Task) (n : Nat) (rwsem : Option Nat) (k : Kernel)
    (fault : Option VmFault) : runTask codec task n rwsem k (.done fault) = (k, .done fault) := by
  cases n <;> rfl

/-- Erasing and freeing entry by entry is the drain. -/
theorem runTask_draining (codec : Codec) (nr n cursor : Nat) (k : Kernel) :
    (runTask codec (.shrink nr) (2 * n + 1) (some 0) k (.draining n cursor)).1
      = (mapDrainLoop shrinkDrainCallback n cursor k).2 := by
  induction n generalizing cursor k with
  | zero => rfl
  | succ n ih =>
      rw [show 2 * (n + 1) + 1 = 2 * n + 1 + 1 + 1 by omega, runTask, mapDrainLoop]
      cases hfind : k.map.entries.findFrom cursor with
      | none => simp only [turn, hfind, runTask_done]
      | some found =>
          obtain ⟨index, entry⟩ := found
          simp only [turn, hfind]
          rw [runTask]
          exact ih (index + 1) _

/-- How many steps a task takes at most when it is alone. -/
def Task.steps : Task → Nat
  | .shrink nrToScan => 2 * nrToScan + 2
  | _ => 5

/-- A restore that runs alone. -/
theorem runTask_restore (codec : Codec) (env : RestoreEnv) (k : Kernel) (vaddr : Nat)
    (pfn : Option Nat) :
    (runTask codec (.restore env vaddr pfn) 5 none k .start).1
      = (decompressAndRestore codec env k vaddr pfn).2 := by
  cases hlookup : mapLookup k.map vaddr with
  | none => simp [runTask, turn, lookupTurn, decompressAndRestore, hlookup]
  | some entry =>
      by_cases hbuf : env.localBuf = false
      · simp [runTask, turn, lookupTurn, decompressAndRestore, hlookup, hbuf]
      by_cases hread : env.zsRead = false
      · simp [runTask, turn, lookupTurn, lookedTurn, decompressAndRestore, hlookup, hbuf, hread]
      cases pfn with
      | none =>
          by_cases hcpu : env.cpuBuf = false
          · simp [runTask, turn, lookupTurn, lookedTurn, decompressAndRestore, hlookup, hbuf,
              hread, hcpu]
          cases hdecode : k.decode codec entry with
          | none =>
              simp [runTask, turn, lookupTurn, lookedTurn, decompressAndRestore, hlookup, hbuf,
                hread, hcpu, hdecode]
          | some page =>
              simp [runTask, turn, lookupTurn, lookedTurn, removeTurn, decompressAndRestore,
                hlookup, hbuf, hread, hcpu, hdecode, Kernel.dropEntry]
      | some pfn =>
          by_cases hkmap : env.kmap = false
          · simp [runTask, turn, lookupTurn, lookedTurn, decompressAndRestore, hlookup, hbuf,
              hread, hkmap]
          cases hdecode : k.decode codec entry with
          | none =>
              simp [runTask, turn, lookupTurn, lookedTurn, decompressAndRestore, hlookup, hbuf,
                hread, hkmap, hdecode]
          | some page =>
              simp [runTask, turn, lookupTurn, lookedTurn, removeTurn, decompressAndRestore,
                hlookup, hbuf, hread, hkmap, hdecode, Kernel.dropEntry, Kernel.writeFrame]

/-- A task alone does what its function does. -/
theorem runTask_eq (codec : Codec) (task : Task) (k : Kernel) :
    (runTask codec task task.steps none k .start).1 = exec codec k task.op := by
  cases task with
  | fault stock env vmf =>
      have hop : exec codec k (Task.fault stock env vmf).op = if stock
          then (stockMarkerFault codec env k vmf).2 else (vmFaultHandler codec env k vmf).2 := by
        cases stock <;> rfl
      show (runTask codec _ 5 none k .start).1 = _
      rw [hop]
      by_cases hsym : k.symbolsResolved = false
      · simp [runTask, turn, lookupTurn, hsym, stockMarkerFault, kretprobeEntry, vmFaultHandler]
      by_cases hmarker : vmf.origPte.isMinimem = false
      · simp [runTask, turn, lookupTurn, hsym, hmarker, stockMarkerFault, kretprobeEntry,
          vmFaultHandler]
      rw [runTask_resolveFault stock env hsym hmarker, stockMarkerFault_eq_result hsym hmarker,
        vmFaultHandler_eq_result hsym hmarker, ite_self]
  | restore env vaddr pfn => exact runTask_restore codec env k vaddr pfn
  | remove vaddr =>
      show (runTask codec _ 5 none k .start).1 = (zswapRemove k vaddr).2
      cases hlookup : mapLookup k.map vaddr with
      | none => simp [runTask, turn, lookupTurn, zswapRemove, hlookup]
      | some entry =>
          simp [runTask, turn, lookupTurn, lookedTurn, removeTurn, zswapRemove, hlookup,
            mapRemove_of_lookup hlookup]
  | zapCb addr =>
      show (runTask codec _ 5 none k .start).1 = MiniMem.zapCb k addr
      cases hlookup : mapLookup k.map (pageMask addr) with
      | none => simp [runTask, turn, lookupTurn, MiniMem.zapCb, hlookup]
      | some entry =>
          simp [runTask, turn, lookupTurn, lookedTurn, removeTurn, MiniMem.zapCb, hlookup,
            Kernel.dropEntry]
  | shrink nr =>
      show (runTask codec _ (2 * nr + 1 + 1) none k .start).1 = (shrinkScan k nr).2
      by_cases hnr : nr = 0
      · subst hnr
        rfl
      rw [runTask, shrinkScan, if_neg hnr]
      simp only [turn, lookupTurn, if_neg hnr]
      exact runTask_draining codec nr nr 0 k

end MiniMem
