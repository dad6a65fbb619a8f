import MiniMem.Refinement
import MiniMem.Kernel.AddressSpaces

/-!
# MiniMem.Kernel.Memory

Plain memory: the contents of each virtual page of each address space, that
processes load from and store to and that goes with the process.
`Kernel.memory` reads it off a state of the module:

```
present pfn   ↦  the contents of the frame
marker        ↦  what the entry behind it decompresses to
anything else ↦  no page
```

The processes of the module's machine do the same accesses, and take a fault
first where they find a marker.  What they do to that memory is what plain
memory does.
-/

namespace MiniMem

/-! ## Plain memory -/

/-- The contents of each virtual page of each address space. -/
abbrev Memory := Nat → Nat → Option Page

/-- What can be seen of an access: a page of an address space that was loaded or stored, with
its contents, a page that was unmapped, or the end of an address space. -/
inductive MemEvent where
  | loaded (mm vpn : Nat) (page : Page)
  | stored (mm vpn : Nat) (page : Page)
  | unmapped (mm vpn : Nat)
  | exited (mm : Nat)
  deriving DecidableEq

/-- A page gets other contents, or goes. -/
def Memory.set (m : Memory) (mm vpn : Nat) (page : Option Page) : Memory :=
  Function.update m mm (Function.update (m mm) vpn page)

/-- The pages of a process go with it. -/
def Memory.exit (m : Memory) (mm : Nat) : Memory := Function.update m mm fun _ => none

/-- Plain memory: a load returns what the page holds, a store goes to a page that is there. -/
def Memory.step (m : Memory) : MemEvent → Option Memory
  | .loaded mm vpn page => if m mm vpn = some page then some m else none
  | .stored mm vpn page => if (m mm vpn).isSome then some (m.set mm vpn (some page)) else none
  | .unmapped mm vpn => some (m.set mm vpn none)
  | .exited mm => some (m.exit mm)

/-- The memory that a state of the module stands for. -/
def Kernel.memory (codec : Codec) (k : Kernel) : Memory := fun mm vpn =>
  match (k.mms mm).ptes vpn with
  | some (.present pfn _ _ _) => some (k.frames.data pfn)
  | some (.marker _) => (k.map.entries.load vpn).bind (k.decode codec)
  | _ => none

/-! ## Accesses -/

/-- The process of an access with the VMA that the address is in, and the outcomes of the
fallible steps of the fault that it may take. -/
structure Access where
  mm : Nat
  vma : Vma
  vaddr : Nat
  env : FaultEnv

/-- The number of the virtual page that is accessed. -/
def Access.vpn (a : Access) : Nat := vaddrToIndex a.vaddr

/-- An access to a marker takes a fault first, on a patched kernel or on a stock one. -/
def faultIn (codec : Codec) (patched : Bool) (k : Kernel) (a : Access) : Kernel :=
  match k.pteAt a.mm a.vaddr with
  | some (.marker index) =>
      if patched then (vmFaultHandler codec a.env k ⟨a.mm, a.vma, a.vaddr, .marker index⟩).2
      else (stockMarkerFault codec a.env k ⟨a.mm, a.vma, a.vaddr, .marker index⟩).2
  | _ => k

/-- A load: it sets the accessed bit. -/
def userLoad (codec : Codec) (patched : Bool) (k : Kernel) (a : Access) :
    Kernel × Option MemEvent :=
  let k := faultIn codec patched k a
  match k.pteAt a.mm a.vaddr with
  | some (.present pfn write _ dirty) =>
      (k.setPteAt a.mm a.vaddr (.present pfn write true dirty),
        some (.loaded a.mm a.vpn (k.frames.data pfn)))
  | _ => (k, none)

/-- Copy on write: the process gets a frame of its own for the page it stores to. -/
def Kernel.copyOnWrite (k : Kernel) (mm vaddr pfn : Nat) (page : Page) : Kernel :=
  ((k.putPage pfn).allocPage page).setPteAt mm vaddr (.present k.frames.next true true true)

/-- A store to a whole page: it goes through where the VMA may be written to. -/
def userStore (codec : Codec) (patched : Bool) (k : Kernel) (a : Access) (page : Page) :
    Kernel × Option MemEvent :=
  let k := faultIn codec patched k a
  match k.pteAt a.mm a.vaddr with
  | some (.present _ true _ _) =>
      (userWrite k a.mm a.vaddr page, some (.stored a.mm a.vpn page))
  | some (.present pfn false _ _) =>
      if a.vma.write then
        (k.copyOnWrite a.mm a.vaddr pfn page, some (.stored a.mm a.vpn page))
      else (k, none)
  | _ => (k, none)

/-- A process unmaps a page: where a patched kernel finds a marker, it calls the module back,
and a stock kernel does not. -/
def userUnmap (patched : Bool) (k : Kernel) (mm vaddr : Nat) : Kernel :=
  match k.pteAt mm vaddr with
  | none => k
  | some pte =>
      let k := k.setPteAt mm vaddr .empty
      if pte.isMinimem && patched then zapCb k vaddr else k

/-! ## Frames -/

/-- Mapped frames have been handed out, and a frame that somebody may write to is mapped
once. -/
structure FramesOk (k : Kernel) : Prop where
  fresh : ∀ mm vaddr pfn write young dirty,
    k.pteAt mm vaddr = some (.present pfn write young dirty) → pfn < k.frames.next
  own : ∀ mm vaddr pfn young dirty mm' vaddr' write' young' dirty',
    k.pteAt mm vaddr = some (.present pfn true young dirty) →
    k.pteAt mm' vaddr' = some (.present pfn write' young' dirty') →
    mm' = mm ∧ vaddrToIndex vaddr' = vaddrToIndex vaddr

namespace FramesOk

variable {k k' : Kernel}

/-- Losing mappings and setting bits does no harm. -/
theorem mono (h : FramesOk k) (hnext : k.frames.next ≤ k'.frames.next)
    (hpte : ∀ mm vaddr pfn write young dirty,
      k'.pteAt mm vaddr = some (.present pfn write young dirty) →
      ∃ young' dirty', k.pteAt mm vaddr = some (.present pfn write young' dirty')) :
    FramesOk k' where
  fresh mm vaddr pfn write young dirty hp := by
    obtain ⟨_, _, hp'⟩ := hpte _ _ _ _ _ _ hp
    exact Nat.lt_of_lt_of_le (h.fresh _ _ _ _ _ _ hp') hnext
  own mm vaddr pfn young dirty mm' vaddr' write' young' dirty' hp hp' := by
    obtain ⟨_, _, hq⟩ := hpte _ _ _ _ _ _ hp
    obtain ⟨_, _, hq'⟩ := hpte _ _ _ _ _ _ hp'
    exact h.own _ _ _ _ _ _ _ _ _ _ hq hq'

/-- Nor does a new frame, mapped at one address. -/
theorem newFrame (h : FramesOk k) {mm vaddr : Nat} {write young dirty : Bool}
    (hnext : k'.frames.next = k.frames.next + 1)
    (hpte : ∀ mm' vaddr', k'.pteAt mm' vaddr' =
      if mm' = mm ∧ vaddrToIndex vaddr' = vaddrToIndex vaddr then
        some (.present k.frames.next write young dirty)
      else k.pteAt mm' vaddr') : FramesOk k' where
  fresh mm' vaddr' pfn write' young' dirty' hp := by
    rw [hpte] at hp
    split at hp
    · simp only [Option.some.injEq, Pte.present.injEq] at hp
      omega
    · have := h.fresh _ _ _ _ _ _ hp
      omega
  own mm₁ vaddr₁ pfn young₁ dirty₁ mm₂ vaddr₂ write₂ young₂ dirty₂ hp hp' := by
    rw [hpte] at hp hp'
    split at hp
    next h₁ =>
      simp only [Option.some.injEq, Pte.present.injEq] at hp
      split at hp'
      next h₂ => exact ⟨h₂.1.trans h₁.1.symm, h₂.2.trans h₁.2.symm⟩
      · have := h.fresh _ _ _ _ _ _ hp'
        omega
    · split at hp'
      · simp only [Option.some.injEq, Pte.present.injEq] at hp'
        have := h.fresh _ _ _ _ _ _ hp
        omega
      · exact h.own _ _ _ _ _ _ _ _ _ _ hp hp'

end FramesOk

/-! ## The memory of a state -/

variable {codec : Codec} {k k' : Kernel} {held : Nat → Nat → Page} {mm vaddr : Nat}

theorem Memory.ext_vaddr {m m' : Memory}
    (h : ∀ mm vaddr, m mm (vaddrToIndex vaddr) = m' mm (vaddrToIndex vaddr)) : m = m' := by
  funext mm vpn
  simpa using h mm (indexToVaddr vpn)

theorem Memory.set_apply (m : Memory) (mm vpn mm' vpn' : Nat) (page : Option Page) :
    m.set mm vpn page mm' vpn' = if mm' = mm ∧ vpn' = vpn then page else m mm' vpn' := by
  unfold Memory.set
  by_cases hmm : mm' = mm
  · subst hmm
    by_cases hvpn : vpn' = vpn <;> simp [hvpn]
  · simp [hmm]

theorem memory_present (codec : Codec) {pfn : Nat} {write young dirty : Bool}
    (h : k.pteAt mm vaddr = some (.present pfn write young dirty)) :
    k.memory codec mm (vaddrToIndex vaddr) = some (k.frames.data pfn) := by
  rw [Kernel.pteAt] at h
  simp [Kernel.memory, h]

/-- Where nothing is mapped or marked there is no page. -/
theorem memory_none (codec : Codec) (h : k.pteAt mm vaddr = none ∨
    k.pteAt mm vaddr = some .empty ∨ ∃ val, k.pteAt mm vaddr = some (.swap val)) :
    k.memory codec mm (vaddrToIndex vaddr) = none := by
  rw [Kernel.pteAt] at h
  obtain hp | hp | ⟨val, hp⟩ := h <;> simp only [Kernel.memory, hp]

/-- Behind a marker is what its entry decodes to. -/
theorem memory_stored {codec : Codec} {entry : MapEntry} {page : Page} (hm : MarkerAt k mm vaddr)
    (hlookup : mapLookup k.map vaddr = some entry) (hdecode : k.decode codec entry = some page) :
    k.memory codec mm (vaddrToIndex vaddr) = some page := by
  obtain ⟨index, hindex⟩ := hm
  rw [Kernel.pteAt] at hindex
  rw [mapLookup] at hlookup
  simp only [Kernel.memory, hindex, hlookup, Option.bind_some, hdecode]

theorem memory_marker (h : HeldInv codec k held) (hm : MarkerAt k mm vaddr) :
    k.memory codec mm (vaddrToIndex vaddr) = some (held mm (vaddrToIndex vaddr)) := by
  obtain ⟨entry, hlookup, hdecode⟩ := h.backed mm vaddr hm
  exact memory_stored hm hlookup hdecode

/-- An address whose page-table entry and frame stay the same shows the same page. -/
theorem memory_congr {held' : Nat → Nat → Page} (h : HeldInv codec k held)
    (h' : HeldInv codec k' held')
    (hheld : held' mm (vaddrToIndex vaddr) = held mm (vaddrToIndex vaddr))
    (hpte : k'.pteAt mm vaddr = k.pteAt mm vaddr)
    (hdata : ∀ pfn write young dirty, k.pteAt mm vaddr = some (.present pfn write young dirty) →
      k'.frames.data pfn = k.frames.data pfn) :
    k'.memory codec mm (vaddrToIndex vaddr) = k.memory codec mm (vaddrToIndex vaddr) := by
  cases hp : k.pteAt mm vaddr with
  | none => rw [memory_none codec (.inl (hpte.trans hp)), memory_none codec (.inl hp)]
  | some pte =>
      rw [hp] at hpte
      cases pte with
      | present pfn write young dirty =>
          rw [memory_present codec hpte, memory_present codec hp, hdata _ _ _ _ hp]
      | marker index => rw [memory_marker h' ⟨index, hpte⟩, memory_marker h ⟨index, hp⟩, hheld]
      | empty => rw [memory_none codec (.inr (.inl hpte)), memory_none codec (.inr (.inl hp))]
      | swap val =>
          rw [memory_none codec (.inr (.inr ⟨val, hpte⟩)),
            memory_none codec (.inr (.inr ⟨val, hp⟩))]

/-- What holds in every state that permitted steps reach: markers decode to what is held for
them, and frames are in order. -/
structure MemInv (codec : Codec) (k : Kernel) (held : Nat → Nat → Page) : Prop where
  heldInv : HeldInv codec k held
  frames : FramesOk k

/-- Setting the entry of an address to one that is no marker. -/
theorem heldInv_setPteAt {pte : Pte} (h : HeldInv codec k held) (hpte : pte.isMinimem = false) :
    HeldInv codec (k.setPteAt mm vaddr pte) held := by
  refine h.mono ⟨rfl, rfl, Nat.le_refl _⟩ ?_ rfl
  intro mm' vaddr' hm
  exact (markerAt_setPteAt hpte hm).2

/-! ## Accesses -/

/-- A fault on a marker either maps the page that is held for it, or only counts a miss. -/
theorem HeldInv.fault_cases (h : HeldInv codec k held) (vmf : FaultInfo) {env : FaultEnv}
    (henv : env.relock = .same) (hpte : k.pteAt vmf.mm vmf.address = some vmf.origPte)
    (hmarker : vmf.origPte.isMinimem = true) :
    (∃ entry, mapLookup k.map vmf.address = some entry ∧
      (vmFaultHandler codec env k vmf).2
        = k.faulted vmf (held vmf.mm (vaddrToIndex vmf.address)) entry ∧
      (stockMarkerFault codec env k vmf).2
        = k.faulted vmf (held vmf.mm (vaddrToIndex vmf.address)) entry) ∨
      (env ≠ .ok ∧ (vmFaultHandler codec env k vmf).2 = k.faultMissed ∧
        (stockMarkerFault codec env k vmf).2 = k.faultMissed) := by
  by_cases hok : env = .ok
  · obtain ⟨entry, hlookup, hvm, hstock⟩ := h.fault hpte hmarker
    rw [hok, hvm, hstock]
    exact .inl ⟨entry, hlookup, rfl, rfl⟩
  · right
    have hm := markerAt_of_isMinimem hpte hmarker
    obtain ⟨entry, hlookup, -⟩ := h.backed _ _ hm
    have hresolve : ∃ exit, exit ≠ .handled ∧
        resolveFault codec env k vmf = (exit, k.faultMissed) := by
      obtain ⟨page, srcBuf, zsRead, relock⟩ := env
      rw [resolveFault, mapLookup_pageMask, hlookup]
      cases page <;> cases srcBuf <;> cases zsRead <;> simp_all [FaultEnv.ok]
    obtain ⟨exit, hexit, hresolve⟩ := hresolve
    refine ⟨hok, ?_, ?_⟩
    · simp only [vmFaultHandler, h.resolved _ _ hm, hmarker, hresolve]
      cases exit <;> simp_all
    · simp only [stockMarkerFault, kretprobeEntry, handleSwapFault, h.resolved _ _ hm, hmarker,
        hresolve]
      cases exit <;> simp_all

theorem pteAt_faulted (vmf : FaultInfo) (page : Page) (entry : MapEntry) (mm vaddr : Nat) :
    (k.faulted vmf page entry).pteAt mm vaddr =
      if mm = vmf.mm ∧ vaddrToIndex vaddr = vaddrToIndex vmf.address then
        some (newPte vmf.vma k.frames.next)
      else k.pteAt mm vaddr := by
  show (k.mapNewPage vmf.vma vmf.mm vmf.address page).pteAt mm vaddr = _
  rw [Kernel.mapNewPage, pteAt_addAnonPages, pteAt_setPteAt]
  rfl

theorem frames_faulted (vmf : FaultInfo) (page : Page) (entry : MapEntry) :
    (k.faulted vmf page entry).frames = (k.allocPage page).frames := rfl

/-- A frame that is mapped is not the one that is allocated next. -/
theorem FramesOk.data_allocPage (h : FramesOk k) {pfn : Nat} {write young dirty : Bool}
    (hp : k.pteAt mm vaddr = some (.present pfn write young dirty)) (page : Page) :
    (k.allocPage page).frames.data pfn = k.frames.data pfn := by
  have := h.fresh _ _ _ _ _ _ hp
  simp [Kernel.allocPage, show pfn ≠ k.frames.next by omega]

/-- Resolving a fault changes nothing that a process sees. -/
theorem MemInv.faulted (h : MemInv codec k held) (vmf : FaultInfo) {entry : MapEntry}
    (hpte : k.pteAt vmf.mm vmf.address = some vmf.origPte)
    (hmarker : vmf.origPte.isMinimem = true)
    (hlookup : mapLookup k.map vmf.address = some entry) :
    MemInv codec (k.faulted vmf (held vmf.mm (vaddrToIndex vmf.address)) entry) held ∧
      (k.faulted vmf (held vmf.mm (vaddrToIndex vmf.address)) entry).memory codec
        = k.memory codec := by
  have hkept : HeldInv codec
      (k.faulted vmf (held vmf.mm (vaddrToIndex vmf.address)) entry) held :=
    h.heldInv.faulted hpte hmarker hlookup
  refine ⟨⟨hkept, h.frames.newFrame rfl (pteAt_faulted vmf _ entry)⟩, ?_⟩
  apply Memory.ext_vaddr
  intro mm vaddr
  by_cases hat : mm = vmf.mm ∧ vaddrToIndex vaddr = vaddrToIndex vmf.address
  · have hnew := pteAt_faulted (k := k) vmf (held vmf.mm (vaddrToIndex vmf.address)) entry mm vaddr
    rw [if_pos hat, newPte] at hnew
    have hm : MarkerAt k mm vaddr := by
      rw [hat.1]
      exact (markerAt_of_isMinimem hpte hmarker).congr hat.2
    rw [memory_present codec hnew, memory_marker h.heldInv hm, frames_faulted, data_allocPage_self,
      hat.1, hat.2]
  · refine memory_congr h.heldInv hkept rfl (by rw [pteAt_faulted, if_neg hat]) ?_
    intro pfn write young dirty hp
    rw [frames_faulted, h.frames.data_allocPage hp]

/-- Faulting a page in changes nothing that a process sees. -/
theorem MemInv.kept_faultIn (h : MemInv codec k held) (patched : Bool) {a : Access}
    (henv : a.env.relock = .same) :
    MemInv codec (faultIn codec patched k a) held ∧
      (faultIn codec patched k a).memory codec = k.memory codec := by
  unfold faultIn
  split
  next index hpte =>
    have hmissed : MemInv codec k.faultMissed held ∧
        k.faultMissed.memory codec = k.memory codec :=
      ⟨⟨h.heldInv.mono ⟨rfl, rfl, Nat.le_refl _⟩ (fun _ _ hm => hm) rfl,
        h.frames.mono (Nat.le_refl _) (fun _ _ _ _ _ _ hp => ⟨_, _, hp⟩)⟩, rfl⟩
    rcases h.heldInv.fault_cases ⟨a.mm, a.vma, a.vaddr, .marker index⟩ henv hpte rfl with
      ⟨entry, hlookup, hvm, hstock⟩ | ⟨-, hvm, hstock⟩
    · rw [hvm, hstock, ite_self]
      exact h.faulted ⟨a.mm, a.vma, a.vaddr, .marker index⟩ hpte rfl hlookup
    · rw [hvm, hstock, ite_self]
      exact hmissed
  · exact ⟨h, rfl⟩

/-- An access puts `page` at an address and leaves the rest as it is. -/
theorem memory_eq_set (h : HeldInv codec k held) (h' : HeldInv codec k' held) (page : Option Page)
    (hat : ∀ vaddr', vaddrToIndex vaddr' = vaddrToIndex vaddr →
      k'.memory codec mm (vaddrToIndex vaddr') = page)
    (hne : ∀ mm' vaddr', ¬(mm' = mm ∧ vaddrToIndex vaddr' = vaddrToIndex vaddr) →
      k'.pteAt mm' vaddr' = k.pteAt mm' vaddr' ∧
      ∀ pfn write young dirty, k.pteAt mm' vaddr' = some (.present pfn write young dirty) →
        k'.frames.data pfn = k.frames.data pfn) :
    k'.memory codec = (k.memory codec).set mm (vaddrToIndex vaddr) page := by
  apply Memory.ext_vaddr
  intro mm' vaddr'
  rw [Memory.set_apply]
  split
  next hslot =>
    rw [hslot.1]
    exact hat vaddr' hslot.2
  next hslot =>
    obtain ⟨hpte, hdata⟩ := hne mm' vaddr' hslot
    exact memory_congr h h' rfl hpte hdata

theorem pteAt_congr {vaddr' : Nat} (h : vaddrToIndex vaddr' = vaddrToIndex vaddr) :
    k.pteAt mm vaddr' = k.pteAt mm vaddr := by
  rw [Kernel.pteAt, Kernel.pteAt, h]

theorem FramesOk.setBits (h : FramesOk k) {pfn : Nat} {write young dirty : Bool}
    (hp : k.pteAt mm vaddr = some (.present pfn write young dirty)) (young' dirty' : Bool) :
    FramesOk (k.setPteAt mm vaddr (.present pfn write young' dirty')) := by
  refine h.mono (Nat.le_refl _) ?_
  intro mm₁ vaddr₁ pfn₁ write₁ young₁ dirty₁ hp₁
  rw [pteAt_setPteAt] at hp₁
  split at hp₁
  next hslot =>
    simp only [Option.some.injEq, Pte.present.injEq] at hp₁
    rw [hslot.1, pteAt_congr hslot.2, hp, ← hp₁.1, ← hp₁.2.1]
    exact ⟨_, _, rfl⟩
  · exact ⟨_, _, hp₁⟩

/-- Setting the accessed bit. -/
theorem MemInv.touch (h : MemInv codec k held) {pfn : Nat} {write young dirty : Bool}
    (hp : k.pteAt mm vaddr = some (.present pfn write young dirty)) :
    MemInv codec (k.setPteAt mm vaddr (.present pfn write true dirty)) held ∧
      (k.setPteAt mm vaddr (.present pfn write true dirty)).memory codec = k.memory codec := by
  have hkept : HeldInv codec (k.setPteAt mm vaddr (.present pfn write true dirty)) held :=
    heldInv_setPteAt h.heldInv rfl
  refine ⟨⟨hkept, h.frames.setBits hp true dirty⟩, ?_⟩
  apply Memory.ext_vaddr
  intro mm' vaddr'
  by_cases hslot : mm' = mm ∧ vaddrToIndex vaddr' = vaddrToIndex vaddr
  · have hnew := pteAt_setPteAt k mm mm' vaddr vaddr' (.present pfn write true dirty)
    rw [if_pos hslot] at hnew
    have hold : k.pteAt mm' vaddr' = some (.present pfn write young dirty) := by
      rw [hslot.1, pteAt_congr hslot.2, hp]
    rw [memory_present codec hnew, memory_present codec hold, frames_setPteAt]
  · exact memory_congr h.heldInv hkept rfl (by rw [pteAt_setPteAt, if_neg hslot])
      fun _ _ _ _ _ => rfl

/-- Writing to a frame that is mapped writable. -/
theorem MemInv.written (h : MemInv codec k held) {pfn : Nat} {young dirty : Bool}
    (hp : k.pteAt mm vaddr = some (.present pfn true young dirty)) (page : Page) :
    MemInv codec (userWrite k mm vaddr page) held ∧
      (userWrite k mm vaddr page).memory codec
        = (k.memory codec).set mm (vaddrToIndex vaddr) (some page) := by
  have hkept := h.heldInv.userWrite mm vaddr page
  have hwrite : userWrite k mm vaddr page
      = (k.writeFrame pfn page).setPteAt mm vaddr (.present pfn true true true) := by
    rw [MiniMem.userWrite, hp]
  rw [hwrite] at hkept ⊢
  have hp' : (k.writeFrame pfn page).pteAt mm vaddr = some (.present pfn true young dirty) := hp
  have hframes : FramesOk (k.writeFrame pfn page) :=
    h.frames.mono (Nat.le_refl _) fun _ _ _ _ _ _ hp => ⟨_, _, hp⟩
  refine ⟨⟨hkept, hframes.setBits hp' true true⟩, memory_eq_set h.heldInv hkept (some page) ?_ ?_⟩
  · intro vaddr' hidx
    have hnew := pteAt_setPteAt (k.writeFrame pfn page) mm mm vaddr vaddr'
      (.present pfn true true true)
    rw [if_pos ⟨rfl, hidx⟩] at hnew
    rw [memory_present codec hnew]
    simp [Kernel.writeFrame]
  · intro mm' vaddr' hslot
    rw [pteAt_setPteAt, if_neg hslot]
    refine ⟨rfl, ?_⟩
    intro pfn' write' young' dirty' hq
    have hother : pfn' ≠ pfn := by
      rintro rfl
      exact hslot (h.frames.own _ _ _ _ _ _ _ _ _ _ hp hq)
    simp [Kernel.writeFrame, hother]

/-- Writing to a page that gets a frame of its own. -/
theorem MemInv.copied (h : MemInv codec k held) (mm vaddr pfn : Nat) (page : Page) :
    MemInv codec (k.copyOnWrite mm vaddr pfn page) held ∧
      (k.copyOnWrite mm vaddr pfn page).memory codec
        = (k.memory codec).set mm (vaddrToIndex vaddr) (some page) := by
  have hpte : ∀ mm' vaddr', (k.copyOnWrite mm vaddr pfn page).pteAt mm' vaddr' =
      if mm' = mm ∧ vaddrToIndex vaddr' = vaddrToIndex vaddr then
        some (.present k.frames.next true true true)
      else k.pteAt mm' vaddr' := fun mm' vaddr' => pteAt_setPteAt _ _ _ _ _ _
  have halloc : HeldInv codec ((k.putPage pfn).allocPage page) held :=
    h.heldInv.mono ⟨rfl, rfl, Nat.le_refl _⟩ (fun _ _ hm => hm) rfl
  have hkept : HeldInv codec (k.copyOnWrite mm vaddr pfn page) held :=
    heldInv_setPteAt halloc rfl
  refine ⟨⟨hkept, h.frames.newFrame rfl hpte⟩, memory_eq_set h.heldInv hkept (some page) ?_ ?_⟩
  · intro vaddr' hidx
    have hnew := hpte mm vaddr'
    rw [if_pos ⟨rfl, hidx⟩] at hnew
    rw [memory_present codec hnew]
    exact congrArg some (data_allocPage_self (k.putPage pfn) page)
  · intro mm' vaddr' hslot
    rw [hpte, if_neg hslot]
    exact ⟨rfl, fun _ _ _ _ hq => h.frames.data_allocPage hq page⟩

/-- What an access does to an invariant and to the memory. -/
def Serves (codec : Codec) (k : Kernel) (held : Nat → Nat → Page) (r : Kernel × Option MemEvent) :
    Prop :=
  MemInv codec r.1 held ∧
    Simulates Memory.step (k.memory codec) (r.1.memory codec) r.2

theorem MemInv.serves_load (h : MemInv codec k held) (patched : Bool) {a : Access}
    (henv : a.env.relock = .same) :
    Serves codec k held (userLoad codec patched k a) := by
  obtain ⟨hin, hmem⟩ := h.kept_faultIn patched henv
  unfold userLoad
  dsimp only
  split
  next pfn write young dirty hp =>
    obtain ⟨hinv, hkept⟩ := hin.touch hp
    refine ⟨hinv, ?_⟩
    rw [Simulates, hkept, hmem, Memory.step, if_pos]
    rw [← hmem]
    exact memory_present codec hp
  · exact ⟨hin, hmem⟩

theorem MemInv.serves_store (h : MemInv codec k held) (patched : Bool) {a : Access}
    (henv : a.env.relock = .same) (page : Page) :
    Serves codec k held (userStore codec patched k a page) := by
  obtain ⟨hin, hmem⟩ := h.kept_faultIn patched henv
  have hstep {pfn : Nat} {write young dirty : Bool}
      (hp : (faultIn codec patched k a).pteAt a.mm a.vaddr
        = some (.present pfn write young dirty)) :
      Memory.step (k.memory codec) (.stored a.mm a.vpn page)
        = some ((k.memory codec).set a.mm a.vpn (some page)) := by
    have hsome := memory_present codec hp
    rw [hmem] at hsome
    simp [Memory.step, Access.vpn, hsome]
  unfold userStore
  dsimp only
  split
  next pfn young dirty hp =>
    obtain ⟨hinv, hset⟩ := hin.written hp page
    refine ⟨hinv, ?_⟩
    rw [Simulates, hset, hstep hp, hmem]
    rfl
  next pfn young dirty hp =>
    split
    · obtain ⟨hinv, hset⟩ := hin.copied a.mm a.vaddr pfn page
      refine ⟨hinv, ?_⟩
      rw [Simulates, hset, hstep hp, hmem]
      rfl
    · exact ⟨hin, hmem⟩
  · exact ⟨hin, hmem⟩

end MiniMem
