import MiniMem.Kernel.Zswap

/-!
# MiniMem.Kernel.Hook

The two fault handlers and `minimem_compress_and_replace_pte`.

`minimem_vm_fault_handler` (patched kernel) and `minimem_handle_swap_fault`
(kretprobe on a stock kernel) resolve a fault in the same way; `resolveFault`
is that body, and the two differ in what they make of its exits.
Replacing a PTE falls into four sections, each under its own locks:
`replaceSnapshot`, `compressBuf`, `storeCompressed` and `replaceInstall`.
-/

namespace MiniMem

/-! ## Faults -/

/-- The results of a fault that the module can produce. -/
inductive VmFault where
  | nopage
  | oom
  | sigbus
  deriving DecidableEq, Repr

/-- Outcomes of the fallible steps of a fault handler. -/
structure FaultEnv where
  page : Bool
  srcBuf : Bool
  zsRead : Bool
  relock : Relock
  deriving DecidableEq, Repr

/-- No step fails and nobody else touches the PTE. -/
def FaultEnv.ok : FaultEnv := ⟨true, true, true, .same⟩

/-- `struct vm_fault`: the VMA and its address space, the address, and the PTE that
the fault was taken on. -/
structure FaultInfo where
  mm : Nat
  vma : Vma
  address : Nat
  origPte : Pte
  deriving DecidableEq, Repr

/-- How the body of a fault handler ends. -/
inductive FaultExit where
  | noEntry
  | noPage
  | noBuffer
  | noRead
  | badData
  | handled
  deriving DecidableEq, Repr

/-- `atomic64_inc(&hook_faults_missed)`. -/
def Kernel.faultMissed (k : Kernel) : Kernel :=
  { k with stats := { k.stats with faultsMissed := k.stats.faultsMissed + 1 } }

/-- `atomic64_inc(&hook_faults_handled)`. -/
def Kernel.faultHandled (k : Kernel) : Kernel :=
  { k with stats := { k.stats with faultsHandled := k.stats.faultsHandled + 1 } }

/-- The common body of the fault handlers, from the lookup on. -/
def resolveFault (codec : Codec) (env : FaultEnv) (k : Kernel) (vmf : FaultInfo) :
    FaultExit × Kernel :=
  let vaddr := pageMask vmf.address
  match mapLookup k.map vaddr with
  | none => (.noEntry, k.faultMissed)
  | some entry =>
      if env.page = false then (.noPage, k.faultMissed)
      else if env.srcBuf = false then (.noBuffer, k.faultMissed)
      else if env.zsRead = false then (.noRead, k.faultMissed)
      else
        match k.decode codec entry with
        | none => (.badData, k.faultMissed)
        | some page =>
            let k := k.dropEntry vaddr entry.zsHandle
            let k := k.installPage vmf.vma vmf.mm vmf.address vmf.origPte page env.relock
            (.handled, k.faultHandled)

/-- `minimem_vm_fault_handler`. -/
def vmFaultHandler (codec : Codec) (env : FaultEnv) (k : Kernel) (vmf : FaultInfo) :
    VmFault × Kernel :=
  if k.symbolsResolved = false then (.sigbus, k)
  else if vmf.origPte.isMinimem = false then (.sigbus, k)
  else
    match resolveFault codec env k vmf with
    | (.noPage, k) => (.oom, k)
    | (.noBuffer, k) => (.oom, k)
    | (.handled, k) => (.nopage, k)
    | (_, k) => (.sigbus, k)

/-- `minimem_handle_swap_fault`. -/
def handleSwapFault (codec : Codec) (env : FaultEnv) (k : Kernel) (vmf : FaultInfo) :
    Nat × Kernel :=
  if vmf.origPte.isMinimem = false then (0, k)
  else if k.symbolsResolved = false then (0, k)
  else
    match resolveFault codec env k vmf with
    | (.handled, k) => (1, k)
    | (_, k) => (0, k)

/-- `minimem_kretprobe_entry`: `data->handled`. -/
def kretprobeEntry (codec : Codec) (env : FaultEnv) (k : Kernel) (vmf : FaultInfo) :
    Bool × Kernel :=
  if k.symbolsResolved = false then (false, k)
  else if vmf.origPte.isMinimem = false then (false, k)
  else
    match handleSwapFault codec env k vmf with
    | (ret, k) => (decide (ret > 0), k)

/-- `minimem_kretprobe_return`, on what the probed function returned. -/
def kretprobeReturn (handled : Bool) (ret : VmFault) : VmFault :=
  if handled = false then ret else if ret = .sigbus then .nopage else ret

/-- A marker fault on a stock kernel: `do_swap_page` between the two probes ends in
`VM_FAULT_SIGBUS`, whatever the entry handler did. -/
def stockMarkerFault (codec : Codec) (env : FaultEnv) (k : Kernel) (vmf : FaultInfo) :
    VmFault × Kernel :=
  match kretprobeEntry codec env k vmf with
  | (handled, k) => (kretprobeReturn handled .sigbus, k)

/-! ## Compressing a mapped page -/

/-- Outcomes of the fallible steps of `minimem_compress_and_replace_pte`. -/
structure ReplaceEnv extends StoreEnv where
  lock : Bool
  relock : Relock
  deriving DecidableEq, Repr

/-- No step fails and nobody else touches the PTE. -/
def ReplaceEnv.ok : ReplaceEnv := ⟨.ok, true, .same⟩

/-- First section: under the PTE lock, read the entry and take a reference on its page. -/
def replaceSnapshot (env : ReplaceEnv) (k : Kernel) (mm vaddr : Nat) :
    Except Int (Pte × Nat × Kernel) :=
  match (if env.lock then k.pteAt mm vaddr else none) with
  | some (.present pfn write young dirty) =>
      .ok (.present pfn write young dirty, pfn, k.getPage pfn)
  | _ => .error enoent

/-- Last section: under the PTE lock, put the marker in place of the entry seen before,
or take the stored page back out. -/
def replaceInstall (env : ReplaceEnv) (k : Kernel) (mm vaddr pfn handle : Nat) (oldPte : Pte) :
    Int × Kernel :=
  match k.relock mm vaddr env.relock with
  | (k, none) => (enoent, (k.dropEntry vaddr handle).putPage pfn)
  | (k, some pte) =>
      if pte ≠ oldPte then (eagain, (k.dropEntry vaddr handle).putPage pfn)
      else
        let k := k.setPteAt mm vaddr (minimemPte (vaddrToIndex vaddr))
        (0, ((k.addAnonPages mm (-1)).putPage pfn).faultHandled)

/-- `minimem_compress_and_replace_pte`. -/
def compressAndReplacePte (codec : Codec) (env : ReplaceEnv) (k : Kernel) (mm addr : Nat) :
    Int × Kernel :=
  let vaddr := pageMask addr
  if k.symbolsResolved = false then (eopnotsupp, k)
  else
    match replaceSnapshot env k mm vaddr with
    | .error ret => (ret, k)
    | .ok (oldPte, pfn, k) =>
        match compressBuf codec env.toStoreEnv k.minSavingsPct (k.frames.data pfn) with
        | .error ret => (ret, k.putPage pfn)
        | .ok (algo, bytes) =>
            match storeCompressed k env.toStoreEnv vaddr algo bytes with
            | (.error ret, k) => (ret, k.putPage pfn)
            | (.ok handle, k) => replaceInstall env k mm vaddr pfn handle oldPte

end MiniMem
