import MiniMem.Kernel.Memory
import MiniMem.Kernel.LostUpdate
import MiniMem.Kernel.Lifetime

/-!
# MiniMem.Kernel.Interleaving

Any number of threads in the module at the same time, and the processes at
their memory meanwhile.  A thread replaces a page, handles a fault, or removes
a page whose marker is gone:

```
replace   snapshot  compress  store  install
fault     look up   read      remove  free  install
remove    look up   remove    free
```

Each of these is under a lock of its own and one step; loads, stores and
unmappings come at any time between them.  What the processes see of it is
`Shows`: behind a marker is its entry, or the thread that has taken the page
out of the storage and not yet mapped it.
-/

namespace MiniMem

/-! ## The machine -/

/-- What a thread is in the middle of. -/
inductive Work where
  | replace (env : ReplaceEnv) (mm addr : Nat) (pc : ReplacePc)
  | task (task : Task) (pc : TaskPc)

/-- The kernel, and what each thread is in the middle of. -/
structure Interleaving where
  kernel : Kernel
  works : Nat → Option Work

/-- No thread in the module. -/
def Interleaving.quiet (k : Kernel) : Interleaving := ⟨k, fun _ => none⟩

/-- A thread enters the module or takes its next step, or a process loads, stores or unmaps a
page; `write` says whether the VMA may be written to. -/
inductive ThreadLabel where
  | replace (i : Nat) (env : ReplaceEnv) (mm addr : Nat)
  | call (i : Nat) (task : Task)
  | next (i : Nat)
  | load (mm vaddr : Nat)
  | store (mm vaddr : Nat) (write : Bool) (page : Page)
  | unmap (mm vaddr : Nat)

/-- A replacement at some point; nothing once it has returned. -/
def ReplacePc.work (env : ReplaceEnv) (mm addr : Nat) : ReplacePc → Option Work
  | .installed _ | .failed _ => none
  | pc => some (.replace env mm addr pc)

/-- A task at some point. -/
def TaskPc.work (t : Task) : TaskPc → Option Work
  | .done _ => none
  | pc => some (.task t pc)

/-- The next step of a thread, with what it is in the middle of then. -/
def Work.next (codec : Codec) (i : Nat) (k : Kernel) : Work → Option (Kernel × Option Work)
  | .replace env mm addr pc =>
      (replaceNext codec env mm addr k pc).map fun r => (r.kernel, r.pc.work env mm addr)
  | .task t pc => (turn codec none i k t pc).map fun u => (u.kernel, u.pc.work t)

/-- A load of a page that is present; a marker needs a fault first. -/
def loadPresent (k : Kernel) (mm vaddr : Nat) : Option (Kernel × Option MemEvent) :=
  match k.pteAt mm vaddr with
  | some (.present pfn write _ dirty) =>
      some (k.setPteAt mm vaddr (.present pfn write true dirty),
        some (.loaded mm (vaddrToIndex vaddr) (k.frames.data pfn)))
  | _ => none

/-- A store to a page that is present. -/
def storePresent (k : Kernel) (mm vaddr : Nat) (write : Bool) (page : Page) :
    Option (Kernel × Option MemEvent) :=
  match k.pteAt mm vaddr with
  | some (.present _ true _ _) =>
      some (userWrite k mm vaddr page, some (.stored mm (vaddrToIndex vaddr) page))
  | some (.present pfn false _ _) =>
      if write then
        some (k.copyOnWrite mm vaddr pfn page, some (.stored mm (vaddrToIndex vaddr) page))
      else none
  | _ => none

/-- One step of a thread or of a process, with what can be seen of it. -/
def threadsStep (codec : Codec) (s : Interleaving) :
    ThreadLabel → Option (Interleaving × Option MemEvent)
  | .replace i env mm addr =>
      if (s.works i).isSome then none
      else some (⟨s.kernel, Function.update s.works i (some (.replace env mm addr .start))⟩, none)
  | .call i task =>
      if (s.works i).isSome then none
      else some (⟨s.kernel, Function.update s.works i (some (.task task .start))⟩, none)
  | .next i =>
      match s.works i with
      | none => none
      | some work =>
          match work.next codec i s.kernel with
          | none => none
          | some (k, work') => some (⟨k, Function.update s.works i work'⟩, none)
  | .load mm vaddr => (loadPresent s.kernel mm vaddr).map fun r => (⟨r.1, s.works⟩, r.2)
  | .store mm vaddr write page =>
      (storePresent s.kernel mm vaddr write page).map fun r => (⟨r.1, s.works⟩, r.2)
  | .unmap mm vaddr =>
      some (⟨userUnmap false s.kernel mm vaddr, s.works⟩, some (.unmapped mm (vaddrToIndex vaddr)))

/-! ## What is asked of a step -/

/-- The virtual page that a thread works on. -/
def Work.vpn : Work → Nat
  | .replace _ _ addr _ => vaddrToIndex addr
  | .task t _ => vaddrToIndex t.target

/-- No address space has a marker at an address. -/
def NoMarker (k : Kernel) (vaddr : Nat) : Prop := ∀ mm, ¬MarkerAt k mm vaddr

/-- No other address space has one. -/
def OnlyMarker (k : Kernel) (mm vaddr : Nat) : Prop := ∀ mm', MarkerAt k mm' vaddr → mm' = mm

/-- No thread works on a virtual page. -/
def Alone (s : Interleaving) (vpn : Nat) : Prop := ∀ i work, s.works i = some work → work.vpn ≠ vpn

/-- What a task is called on: a fault on the PTE that is there, and a removal where there is no
marker any more. -/
def CalledWell (k : Kernel) : Task → Prop
  | .fault _ env vmf => env.relock = .same ∧ k.pteAt vmf.mm vmf.address = some vmf.origPte
  | .remove vaddr | .zapCb vaddr => NoMarker k vaddr
  | .restore _ _ _ | .shrink _ => False

/-- The steps that the theorem is about: a thread enters the module for a page that no other
works on, and replaces one where no other address space has a marker; a page that is compressed
reads back; and a store after the compression shows in the PTE. -/
def InOrder (codec : Codec) (s : Interleaving) : ThreadLabel → Prop
  | .replace _ env mm addr =>
      env.relock = .same ∧ Alone s (vaddrToIndex addr) ∧ OnlyMarker s.kernel mm addr
  | .call _ task => Alone s (vaddrToIndex task.target) ∧ CalledWell s.kernel task
  | .next i => ∀ env mm addr oldPte pfn,
      s.works i = some (.replace env mm addr (.snapshotted oldPte pfn)) →
      codec.ReadsBack (s.kernel.frames.data pfn)
  | .store mm vaddr _ page => ∀ i env addr pc pfn young dirty,
      s.works i = some (.replace env mm addr pc) → vaddrToIndex addr = vaddrToIndex vaddr →
      s.kernel.pteAt mm vaddr = some (.present pfn true young dirty) →
      WriteSeen mm vaddr ⟨s.kernel, pc⟩ (.write page)
  | .load _ _ | .unmap _ _ => True

/-! ## What holds of a thread -/

/-- The page that a thread has taken out of the storage and not yet mapped. -/
def Work.carried : Work → Option Page
  | .task (.fault _ _ _) (.removed _ page) => page
  | .task (.fault _ _ _) (.freed page) => some page
  | _ => none

/-- Since the snapshot the PTE has at most got more bits, or it maps another frame or none. -/
def PteSince (k : Kernel) (mm addr pfn : Nat) (oldPte : Pte) : Prop :=
  ∃ write young dirty, oldPte = .present pfn write young dirty ∧ pfn < k.frames.next ∧
    ∀ write' young' dirty', k.pteAt mm addr = some (.present pfn write' young' dirty') →
      write' = write ∧ (young = true → young' = true) ∧ (dirty = true → dirty' = true)

/-- The only marker at the page of a fault is the one that the fault is on. -/
structure Faulting (k : Kernel) (vmf : FaultInfo) : Prop where
  marker : vmf.origPte.isMinimem = true
  only : OnlyMarker k vmf.mm vmf.address
  orig : MarkerAt k vmf.mm vmf.address → k.pteAt vmf.mm vmf.address = some vmf.origPte

/-- The handle of an entry that a thread has removed is in no entry of the map. -/
def HandleKept (k : Kernel) (entry : MapEntry) : Prop :=
  entry.zsHandle < k.pool.next ∧ ∀ i e, k.map.entries.load i = some e → e.zsHandle ≠ entry.zsHandle

/-- A replacement: as long as the PTE is the one of the snapshot, what was compressed or stored
decodes to what the page holds. -/
def ReplaceWork (codec : Codec) (k : Kernel) (mm addr : Nat) : ReplacePc → Prop
  | .start => OnlyMarker k mm addr
  | .snapshotted oldPte pfn => NoMarker k addr ∧ PteSince k mm addr pfn oldPte
  | .compressed oldPte pfn algo bytes =>
      NoMarker k addr ∧ PteSince k mm addr pfn oldPte ∧
        (k.pteAt mm addr = some oldPte → codec.decompress algo bytes = some (k.frames.data pfn))
  | .stored oldPte pfn handle =>
      NoMarker k addr ∧ PteSince k mm addr pfn oldPte ∧
        ∃ entry, mapLookup k.map addr = some entry ∧ entry.zsHandle = handle ∧
          (k.pteAt mm addr = some oldPte → k.decode codec entry = some (k.frames.data pfn))
  | .installed _ | .failed _ => False

/-- A fault: what the thread has read is what the entry decodes to. -/
def FaultWork (codec : Codec) (k : Kernel) (vmf : FaultInfo) : TaskPc → Prop
  | .start => vmf.origPte.isMinimem = true → Faulting k vmf
  | .looked entry => Faulting k vmf ∧ mapLookup k.map vmf.address = some entry
  | .decompressed entry page =>
      Faulting k vmf ∧ mapLookup k.map vmf.address = some entry ∧ k.decode codec entry = some page
  | .removed entry page =>
      Faulting k vmf ∧ mapLookup k.map vmf.address = none ∧ HandleKept k entry ∧ page.isSome
  | .freed _ => Faulting k vmf ∧ mapLookup k.map vmf.address = none
  | _ => False

/-- A removal, by `minimem_zswap_remove` or by the callback. -/
def RemoveWork (k : Kernel) (vaddr : Nat) : TaskPc → Prop
  | .start => NoMarker k vaddr
  | .looked entry => NoMarker k vaddr ∧ mapLookup k.map vaddr = some entry
  | .removed entry page => NoMarker k vaddr ∧ HandleKept k entry ∧ page = none
  | _ => False

/-- What holds of a thread at each point. -/
def WorkInv (codec : Codec) (k : Kernel) : Work → Prop
  | .replace env mm addr pc => env.relock = .same ∧ ReplaceWork codec k mm addr pc
  | .task (.fault _ env vmf) pc => env.relock = .same ∧ FaultWork codec k vmf pc
  | .task (.remove vaddr) pc => RemoveWork k vaddr pc
  | .task (.zapCb addr) pc => RemoveWork k addr pc
  | .task (.restore _ _ _) _ | .task (.shrink _) _ => False

/-! ## What the processes see -/

/-- What shows at an address: a frame, or behind a marker what a thread carries or what the
entry decodes to. -/
def ShowsBy (codec : Codec) (k : Kernel) (carried : Option Page) (mm vaddr : Nat)
    (page : Option Page) : Prop :=
  match k.pteAt mm vaddr with
  | some (.present pfn _ _ _) => page = some (k.frames.data pfn)
  | some (.marker _) => ∃ p, page = some p ∧ (carried = some p ∨
      ∃ entry, mapLookup k.map vaddr = some entry ∧ k.decode codec entry = some p)
  | _ => page = none

/-- What the thread that works on a virtual page carries. -/
def CarriedAt (s : Interleaving) (vpn : Nat) (carried : Option Page) : Prop :=
  (∃ i work, s.works i = some work ∧ work.vpn = vpn ∧ carried = work.carried) ∨
    (Alone s vpn ∧ carried = none)

/-- The memory that a state stands for, and what holds in every state that steps in order
reach. -/
structure ThreadsInv (codec : Codec) (s : Interleaving) (m : Memory) : Prop where
  storage : StorageOk s.kernel
  frames : FramesOk s.kernel
  exclusive : ∀ mm mm' vaddr, MarkerAt s.kernel mm vaddr → MarkerAt s.kernel mm' vaddr → mm = mm'
  apart : ∀ i j work work', s.works i = some work → s.works j = some work' →
    work.vpn = work'.vpn → i = j
  works : ∀ i work, s.works i = some work → WorkInv codec s.kernel work
  shows : ∀ mm vaddr, ∃ carried, CarriedAt s (vaddrToIndex vaddr) carried ∧
    ShowsBy codec s.kernel carried mm vaddr (m mm (vaddrToIndex vaddr))

end MiniMem
