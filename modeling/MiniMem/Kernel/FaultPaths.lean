import MiniMem.Kernel.Hook

/-!
# MiniMem.Kernel.FaultPaths

The two fault handlers, each written out from lookup to exit, and how far
they agree.  `Patched.vmFaultHandler` reports a result of its own at every
exit; `Stock.handleSwapFault` only says whether it resolved the fault, and
the return probe translates that.

Both leave the same kernel behind.  They report the same result except when
there is no memory: the patched kernel reports `VM_FAULT_OOM`, the return
probe lets `VM_FAULT_SIGBUS` through.
-/

namespace MiniMem

/-! ## The handlers, exit by exit -/

/-- `minimem_vm_fault_handler`. -/
def Patched.vmFaultHandler (codec : Codec) (env : FaultEnv) (k : Kernel) (vmf : FaultInfo) :
    VmFault × Kernel :=
  if k.symbolsResolved = false then (.sigbus, k)
  else if vmf.origPte.isMinimem = false then (.sigbus, k)
  else
    let vaddr := pageMask vmf.address
    match mapLookup k.map vaddr with
    | none => (.sigbus, k.faultMissed)
    | some entry =>
        if env.page = false then (.oom, k.faultMissed)
        else if env.srcBuf = false then (.oom, k.faultMissed)
        else if env.zsRead = false then (.sigbus, k.faultMissed)
        else
          match k.decode codec entry with
          | none => (.sigbus, k.faultMissed)
          | some page =>
              let k := { k with map := (mapRemove k.map vaddr).2 }
              let k := { k with pool := k.pool.free entry.zsHandle }
              match k.relock vmf.mm vmf.address env.relock with
              | (k, none) => (.nopage, k.faultHandled)
              | (k, some pte) =>
                  if pte = vmf.origPte then
                    let newPte := newPte vmf.vma k.frames.next
                    let k := (k.allocPage page).setPteAt vmf.mm vmf.address newPte
                    (.nopage, (k.addAnonPages vmf.mm 1).faultHandled)
                  else (.nopage, k.faultHandled)

/-- `minimem_handle_swap_fault`. -/
def Stock.handleSwapFault (codec : Codec) (env : FaultEnv) (k : Kernel) (vmf : FaultInfo) :
    Nat × Kernel :=
  if vmf.origPte.isMinimem = false then (0, k)
  else if k.symbolsResolved = false then (0, k)
  else
    let vaddr := pageMask vmf.address
    match mapLookup k.map vaddr with
    | none => (0, k.faultMissed)
    | some entry =>
        if env.page = false then (0, k.faultMissed)
        else if env.srcBuf = false then (0, k.faultMissed)
        else if env.zsRead = false then (0, k.faultMissed)
        else
          match k.decode codec entry with
          | none => (0, k.faultMissed)
          | some page =>
              let k := { k with map := (mapRemove k.map vaddr).2 }
              let k := { k with pool := k.pool.free entry.zsHandle }
              match k.relock vmf.mm vmf.address env.relock with
              | (k, none) => (1, k.faultHandled)
              | (k, some pte) =>
                  if pte = vmf.origPte then
                    let newPte := newPte vmf.vma k.frames.next
                    let k := (k.allocPage page).setPteAt vmf.mm vmf.address newPte
                    (1, (k.addAnonPages vmf.mm 1).faultHandled)
                  else (1, k.faultHandled)

/-- `minimem_kretprobe_entry`: `data->handled`. -/
def Stock.kretprobeEntry (codec : Codec) (env : FaultEnv) (k : Kernel) (vmf : FaultInfo) :
    Bool × Kernel :=
  if k.symbolsResolved = false then (false, k)
  else if vmf.origPte.isMinimem = false then (false, k)
  else
    match Stock.handleSwapFault codec env k vmf with
    | (ret, k) => (decide (ret > 0), k)

/-- The stock-kernel path of a marker fault: the entry probe, `do_swap_page`, which ends in
`VM_FAULT_SIGBUS` for a marker, and the return probe. -/
def Stock.markerFault (codec : Codec) (env : FaultEnv) (k : Kernel) (vmf : FaultInfo) :
    VmFault × Kernel :=
  match Stock.kretprobeEntry codec env k vmf with
  | (handled, k) => (kretprobeReturn handled .sigbus, k)

/-! ## One body under both -/

section Body

variable (codec : Codec) (env : FaultEnv) (k : Kernel) (vmf : FaultInfo)

/-- The end of both handlers: take the lock again and map the page if the PTE is still the
one that the fault was taken on. -/
theorem relock_install_eq {β : Type} (result : β) (k : Kernel) (page : Page) (relock : Relock)
    (mm : Nat) (vmf : FaultInfo) :
    (match k.relock mm vmf.address relock with
      | (k, none) => (result, k.faultHandled)
      | (k, some pte) =>
          if pte = vmf.origPte then
            (result, (((k.allocPage page).setPteAt mm vmf.address
              (newPte vmf.vma k.frames.next)).addAnonPages mm 1).faultHandled)
          else (result, k.faultHandled)) =
      (result, (k.installPage vmf.vma mm vmf.address vmf.origPte page relock).faultHandled) := by
  rw [installPage_eq]
  generalize k.relock mm vmf.address relock = locked
  obtain ⟨k', found⟩ := locked
  cases found with
  | none => rfl
  | some pte =>
      dsimp only
      by_cases hsame : pte = vmf.origPte
      · rw [if_pos hsame, if_pos (by rw [hsame])]
        rfl
      · rw [if_neg hsame, if_neg (by simpa using hsame)]

/-- Written out or over the common body, the patched handler is the same function. -/
theorem Patched.vmFaultHandler_eq :
    Patched.vmFaultHandler codec env k vmf = MiniMem.vmFaultHandler codec env k vmf := by
  unfold Patched.vmFaultHandler MiniMem.vmFaultHandler resolveFault
  dsimp only
  split
  · rfl
  split
  · rfl
  cases mapLookup k.map (pageMask vmf.address) with
  | none => rfl
  | some entry =>
      dsimp only
      split
      · rfl
      split
      · rfl
      split
      · rfl
      cases k.decode codec entry with
      | none => rfl
      | some page => exact relock_install_eq _ _ _ _ _ _

/-- So is the stock handler. -/
theorem Stock.handleSwapFault_eq :
    Stock.handleSwapFault codec env k vmf = MiniMem.handleSwapFault codec env k vmf := by
  unfold Stock.handleSwapFault MiniMem.handleSwapFault resolveFault
  dsimp only
  split
  · rfl
  split
  · rfl
  cases mapLookup k.map (pageMask vmf.address) with
  | none => rfl
  | some entry =>
      dsimp only
      split
      · rfl
      split
      · rfl
      split
      · rfl
      cases k.decode codec entry with
      | none => rfl
      | some page => exact relock_install_eq _ _ _ _ _ _

/-- The stock path over the common body. -/
theorem Stock.markerFault_eq :
    Stock.markerFault codec env k vmf = stockMarkerFault codec env k vmf := by
  simp only [Stock.markerFault, Stock.kretprobeEntry, Stock.handleSwapFault_eq,
    stockMarkerFault, MiniMem.kretprobeEntry]

end Body

/-! ## Agreement -/

/-- The two paths do the same to the kernel, and report the same result to the process. -/
def PathsAgree (codec : Codec) (env : FaultEnv) (k : Kernel) (vmf : FaultInfo) : Prop :=
  (Stock.markerFault codec env k vmf).2 = (Patched.vmFaultHandler codec env k vmf).2 ∧
    (Stock.markerFault codec env k vmf).1 = (Patched.vmFaultHandler codec env k vmf).1

/-- The page for the contents and the buffer for the compressed bytes are allocated. -/
def FaultEnv.hasMemory (env : FaultEnv) : Prop := env.page = true ∧ env.srcBuf = true

/-- Over the common body, the stock path leaves the kernel as the patched one does. -/
theorem stockMarkerFault_snd (codec : Codec) (env : FaultEnv) (k : Kernel) (vmf : FaultInfo) :
    (stockMarkerFault codec env k vmf).2 = (vmFaultHandler codec env k vmf).2 := by
  unfold stockMarkerFault kretprobeEntry handleSwapFault vmFaultHandler
  by_cases hsym : k.symbolsResolved = false
  · simp [hsym]
  by_cases hmarker : vmf.origPte.isMinimem = false
  · simp [hmarker]
  simp only [hsym, hmarker]
  generalize resolveFault codec env k vmf = resolved
  obtain ⟨exit, k'⟩ := resolved
  cases exit <;> rfl

/-- Whatever fails, map, pool, page tables and counters end up the same on both kernels. -/
theorem markerFault_snd (codec : Codec) (env : FaultEnv) (k : Kernel) (vmf : FaultInfo) :
    (Stock.markerFault codec env k vmf).2 = (Patched.vmFaultHandler codec env k vmf).2 := by
  rw [Stock.markerFault_eq, Patched.vmFaultHandler_eq, stockMarkerFault_snd]

/-- What the two paths report at each exit of the common body. -/
theorem markerFault_fst {codec : Codec} {env : FaultEnv} {k : Kernel} {vmf : FaultInfo}
    (hsym : k.symbolsResolved = true) (hmarker : vmf.origPte.isMinimem = true) :
    (Stock.markerFault codec env k vmf).1 =
        (if (resolveFault codec env k vmf).1 = .handled then .nopage else .sigbus) ∧
      (Patched.vmFaultHandler codec env k vmf).1 =
        (if (resolveFault codec env k vmf).1 = .handled then .nopage
        else if (resolveFault codec env k vmf).1 = .noPage ∨
          (resolveFault codec env k vmf).1 = .noBuffer then .oom else .sigbus) := by
  rw [Stock.markerFault_eq, Patched.vmFaultHandler_eq]
  simp only [stockMarkerFault, kretprobeEntry, handleSwapFault, vmFaultHandler, hsym, hmarker]
  generalize resolveFault codec env k vmf = resolved
  obtain ⟨exit, k'⟩ := resolved
  cases exit <;> exact ⟨rfl, rfl⟩

/-- The common body stops for want of memory when there is an entry but no page or no
buffer for it. -/
theorem resolveFault_noMemory_iff (codec : Codec) (env : FaultEnv) (k : Kernel)
    (vmf : FaultInfo) :
    ((resolveFault codec env k vmf).1 = .noPage ∨ (resolveFault codec env k vmf).1 = .noBuffer) ↔
      mapLookup k.map vmf.address ≠ none ∧ ¬env.hasMemory := by
  unfold resolveFault FaultEnv.hasMemory
  dsimp only
  rw [mapLookup_pageMask]
  cases mapLookup k.map vmf.address with
  | none => simp
  | some entry =>
      dsimp only
      split
      next hpage => simp [hpage]
      split
      next hbuf => simp [hbuf]
      split
      next hpage hbuf _ => simp [hpage, hbuf]
      next hpage hbuf _ => split <;> simp [hpage, hbuf]

/-- **The two fault paths agree** on a marker exactly when they stop before they need memory
or get it. -/
theorem pathsAgree_iff (codec : Codec) (env : FaultEnv) (k : Kernel) {vmf : FaultInfo}
    (hmarker : vmf.origPte.isMinimem = true) :
    PathsAgree codec env k vmf ↔
      (k.symbolsResolved = false ∨ mapLookup k.map vmf.address = none ∨ env.hasMemory) := by
  rw [PathsAgree, and_iff_right (markerFault_snd codec env k vmf)]
  by_cases hsym : k.symbolsResolved = false
  · simp [Stock.markerFault, Stock.kretprobeEntry, Patched.vmFaultHandler, kretprobeReturn, hsym]
  obtain ⟨hstock, hpatched⟩ := @markerFault_fst codec env k vmf (by simpa using hsym) hmarker
  have hmemory := resolveFault_noMemory_iff codec env k vmf
  rw [hstock, hpatched, or_iff_right hsym]
  by_cases hnone : (resolveFault codec env k vmf).1 = .noPage ∨
      (resolveFault codec env k vmf).1 = .noBuffer
  · obtain ⟨hentry, hno⟩ := hmemory.1 hnone
    have hunhandled : (resolveFault codec env k vmf).1 ≠ .handled := by
      rcases hnone with hexit | hexit <;> simp [hexit]
    simp [hunhandled, hnone, hentry, hno]
  · have hfine := mt hmemory.2 hnone
    rw [not_and_or, not_not, not_not] at hfine
    simp only [hnone, if_false, hfine]

/-- A marker whose entry decodes, with nothing failing. -/
theorem pathsAgree_oneMarker :
    PathsAgree samePageCodec .ok .oneMarker ⟨0, ⟨0x1000, 0x2000, true, true, false, false, false, false⟩,
      0x1000, .marker 1⟩ :=
  (pathsAgree_iff samePageCodec .ok .oneMarker rfl).2 (.inr (.inr ⟨rfl, rfl⟩))

/-- Without a page for the contents, the patched kernel reports that it is out of memory,
and the stock kernel a bus error. -/
theorem not_pathsAgree_noPage :
    ¬PathsAgree samePageCodec ⟨false, true, true, .same⟩ .oneMarker
      ⟨0, ⟨0x1000, 0x2000, true, true, false, false, false, false⟩, 0x1000, .marker 1⟩ := by
  rintro ⟨-, hresult⟩
  have hstock : (Stock.markerFault samePageCodec ⟨false, true, true, .same⟩ .oneMarker
      ⟨0, ⟨0x1000, 0x2000, true, true, false, false, false, false⟩, 0x1000, .marker 1⟩).1 = .sigbus := by
    decide
  have hpatched : (Patched.vmFaultHandler samePageCodec ⟨false, true, true, .same⟩ .oneMarker
      ⟨0, ⟨0x1000, 0x2000, true, true, false, false, false, false⟩, 0x1000, .marker 1⟩).1 = .oom := by
    decide
  rw [hstock, hpatched] at hresult
  cases hresult

end MiniMem
