import MiniMem.Kernel.Hook

/-!
# MiniMem.Kernel.FaultAtomic

Whether a fault handler is all-or-nothing: either it maps the decompressed
page and the entry and its object are gone, or it leaves the PTE, the entry
and the object as it found them.

The handlers remove the entry and free the object before they take the PTE
lock for the second time.  Up to that point every failure leaves things
alone; behind it, the entry is gone whether or not the page gets mapped.
-/

namespace MiniMem

/-- From `k` to `k'` the fault was resolved: the address is mapped to what the entry
decompresses to, and the entry and its object are gone. -/
def FaultResolved (codec : Codec) (k k' : Kernel) (vmf : FaultInfo) : Prop :=
  ∃ entry page, mapLookup k.map vmf.address = some entry ∧ k.decode codec entry = some page ∧
    k'.pageAt vmf.mm vmf.address = some page ∧ mapLookup k'.map vmf.address = none ∧
    k'.pool.objs entry.zsHandle = none

/-- From `k` to `k'` the PTE, the entry and its object stayed as they were. -/
def FaultUntouched (k k' : Kernel) (vmf : FaultInfo) : Prop :=
  k'.pteAt vmf.mm vmf.address = k.pteAt vmf.mm vmf.address ∧
    mapLookup k'.map vmf.address = mapLookup k.map vmf.address ∧
    ∀ entry, mapLookup k.map vmf.address = some entry →
      k'.pool.objs entry.zsHandle = k.pool.objs entry.zsHandle

/-- All or nothing. -/
def FaultAtomic (codec : Codec) (k k' : Kernel) (vmf : FaultInfo) : Prop :=
  FaultResolved codec k k' vmf ∨ FaultUntouched k k' vmf

/-- A fault that gets as far as removing the entry of `page` ends well: the PTE found under
the lock is the one the fault was taken on, or somebody else has mapped the same bytes. -/
def RelockFine (env : FaultEnv) (k : Kernel) (vmf : FaultInfo) (page : Page) : Prop :=
  (k.relock vmf.mm vmf.address env.relock).2 = some vmf.origPte ∨
    (k.relock vmf.mm vmf.address env.relock).1.pageAt vmf.mm vmf.address = some page

/-- Every fault that gets as far as removing the entry ends well. -/
def FaultSafe (codec : Codec) (env : FaultEnv) (k : Kernel) (vmf : FaultInfo) : Prop :=
  k.symbolsResolved = true → vmf.origPte.isMinimem = true →
    env.page = true → env.srcBuf = true → env.zsRead = true →
    ∀ entry page, mapLookup k.map vmf.address = some entry → k.decode codec entry = some page →
      RelockFine env k vmf page

/-! ## The handlers -/

theorem FaultUntouched.refl (k : Kernel) (vmf : FaultInfo) : FaultUntouched k k vmf :=
  ⟨rfl, rfl, fun _ _ => rfl⟩

/-- Counting a fault changes neither outcome. -/
theorem faultAtomic_faultMissed {codec : Codec} {k k' : Kernel} {vmf : FaultInfo} :
    FaultAtomic codec k k'.faultMissed vmf ↔ FaultAtomic codec k k' vmf := Iff.rfl

theorem faultAtomic_faultHandled {codec : Codec} {k k' : Kernel} {vmf : FaultInfo} :
    FaultAtomic codec k k'.faultHandled vmf ↔ FaultAtomic codec k k' vmf := Iff.rfl

/-- Where the body of the handlers stops early, it only counts. -/
theorem resolveFault_early {codec : Codec} {env : FaultEnv} {k : Kernel} {vmf : FaultInfo}
    (h : ∀ entry page, mapLookup k.map vmf.address = some entry → env.page = true →
      env.srcBuf = true → env.zsRead = true → k.decode codec entry ≠ some page) :
    (resolveFault codec env k vmf).2 = k.faultMissed := by
  unfold resolveFault
  dsimp only
  rw [mapLookup_pageMask]
  split
  · rfl
  next entry hlookup =>
    split
    · rfl
    next hpage =>
      split
      · rfl
      next hbuf =>
        split
        · rfl
        next hread =>
          split
          · rfl
          next page hdecode =>
            exact absurd hdecode (h entry page hlookup (by simpa using hpage)
              (by simpa using hbuf) (by simpa using hread))

/-- Where it does not, it drops the entry and then tries to map the page. -/
theorem resolveFault_late {codec : Codec} {env : FaultEnv} {k : Kernel} {vmf : FaultInfo}
    {entry : MapEntry} {page : Page} (hlookup : mapLookup k.map vmf.address = some entry)
    (hpage : env.page = true) (hbuf : env.srcBuf = true) (hread : env.zsRead = true)
    (hdecode : k.decode codec entry = some page) :
    resolveFault codec env k vmf = (.handled,
      ((k.dropEntry (pageMask vmf.address) entry.zsHandle).installPage vmf.vma vmf.mm
        vmf.address vmf.origPte page env.relock).faultHandled) := by
  simp [resolveFault, hlookup, hpage, hbuf, hread, hdecode]

/-- Dropping an entry and relocking commute. -/
theorem relock_dropEntry (k : Kernel) (mm vaddr vaddr' handle : Nat) (relock : Relock) :
    (k.dropEntry vaddr' handle).relock mm vaddr relock =
      ((k.relock mm vaddr relock).1.dropEntry vaddr' handle, (k.relock mm vaddr relock).2) := by
  cases relock <;> rfl

/-- Behind the removal of the entry, everything depends on the second lock. -/
theorem faultAtomic_installPage_iff {codec : Codec} (env : FaultEnv) {k : Kernel}
    {vmf : FaultInfo} {entry : MapEntry} {page : Page}
    (hlookup : mapLookup k.map vmf.address = some entry)
    (hdecode : k.decode codec entry = some page) :
    FaultAtomic codec k ((k.dropEntry (pageMask vmf.address) entry.zsHandle).installPage vmf.vma
      vmf.mm vmf.address vmf.origPte page env.relock) vmf ↔ RelockFine env k vmf page := by
  have hgone : ∀ k₁ : Kernel,
      mapLookup (k₁.dropEntry (pageMask vmf.address) entry.zsHandle).map vmf.address = none := by
    intro k₁
    rw [mapLookup, load_dropEntry, vaddrToIndex_pageMask, if_pos rfl]
  rw [installPage_eq, relock_dropEntry, RelockFine]
  generalize hrelock : k.relock vmf.mm vmf.address env.relock = locked
  obtain ⟨k₁, found⟩ := locked
  dsimp only
  by_cases hsame : found = some vmf.origPte
  · rw [if_pos hsame]
    simp only [hsame, true_or, iff_true]
    exact .inl ⟨entry, page, hlookup, hdecode, pageAt_mapNewPage_self _ _ _ _ _, hgone k₁,
      objs_dropEntry_self k₁ (pageMask vmf.address) entry.zsHandle⟩
  · rw [if_neg hsame]
    simp only [hsame, false_or]
    constructor
    · rintro (⟨entry', page', hlookup', hdecode', hmaps, -, -⟩ | ⟨-, hkept, -⟩)
      · rw [hlookup] at hlookup'
        injection hlookup' with hentry
        rw [← hentry, hdecode] at hdecode'
        injection hdecode' with hpage
        rw [hpage]
        exact hmaps
      · rw [hgone, hlookup] at hkept
        cases hkept
    · intro hmaps
      exact .inl ⟨entry, page, hlookup, hdecode, hmaps, hgone k₁, objs_dropEntry_self _ _ _⟩

/-- The body of the handlers is all-or-nothing exactly when it stops early or ends well. -/
theorem resolveFault_atomic_iff (codec : Codec) (env : FaultEnv) (k : Kernel) (vmf : FaultInfo) :
    FaultAtomic codec k (resolveFault codec env k vmf).2 vmf ↔
      (env.page = true → env.srcBuf = true → env.zsRead = true →
        ∀ entry page, mapLookup k.map vmf.address = some entry →
          k.decode codec entry = some page → RelockFine env k vmf page) := by
  by_cases hlate : ∃ entry page, mapLookup k.map vmf.address = some entry ∧ env.page = true ∧
      env.srcBuf = true ∧ env.zsRead = true ∧ k.decode codec entry = some page
  · obtain ⟨entry, page, hlookup, hpage, hbuf, hread, hdecode⟩ := hlate
    have hcond : (env.page = true → env.srcBuf = true → env.zsRead = true →
        ∀ entry page, mapLookup k.map vmf.address = some entry →
          k.decode codec entry = some page → RelockFine env k vmf page) ↔
        RelockFine env k vmf page := by
      constructor
      · intro h
        exact h hpage hbuf hread entry page hlookup hdecode
      · intro h _ _ _ entry' page' hlookup' hdecode'
        rw [hlookup] at hlookup'
        injection hlookup' with hentry
        rw [← hentry, hdecode] at hdecode'
        injection hdecode' with hpage'
        rwa [← hpage']
    rw [hcond, resolveFault_late hlookup hpage hbuf hread hdecode, faultAtomic_faultHandled]
    exact faultAtomic_installPage_iff env hlookup hdecode
  · have hearly : ∀ entry page, mapLookup k.map vmf.address = some entry → env.page = true →
        env.srcBuf = true → env.zsRead = true → k.decode codec entry ≠ some page := by
      intro entry page hlookup hpage hbuf hread hdecode
      exact hlate ⟨entry, page, hlookup, hpage, hbuf, hread, hdecode⟩
    rw [resolveFault_early hearly, faultAtomic_faultMissed]
    constructor
    · intro _ hpage hbuf hread entry page hlookup hdecode
      exact absurd hdecode (hearly entry page hlookup hpage hbuf hread)
    · intro _
      exact .inr (.refl k vmf)

/-- What `minimem_handle_swap_fault` leaves behind. -/
theorem handleSwapFault_snd (codec : Codec) (env : FaultEnv) (k : Kernel) (vmf : FaultInfo) :
    (handleSwapFault codec env k vmf).2 =
      if vmf.origPte.isMinimem = false ∨ k.symbolsResolved = false then k
      else (resolveFault codec env k vmf).2 := by
  unfold handleSwapFault
  by_cases hmarker : vmf.origPte.isMinimem = false
  · simp [hmarker]
  by_cases hsym : k.symbolsResolved = false
  · simp [hsym]
  rw [if_neg hmarker, if_neg hsym, if_neg (by simp [hmarker, hsym])]
  split <;> simp_all

/-- What `minimem_vm_fault_handler` leaves behind. -/
theorem vmFaultHandler_snd (codec : Codec) (env : FaultEnv) (k : Kernel) (vmf : FaultInfo) :
    (vmFaultHandler codec env k vmf).2 =
      if vmf.origPte.isMinimem = false ∨ k.symbolsResolved = false then k
      else (resolveFault codec env k vmf).2 := by
  unfold vmFaultHandler
  by_cases hmarker : vmf.origPte.isMinimem = false
  · simp [hmarker]
  by_cases hsym : k.symbolsResolved = false
  · simp [hsym]
  rw [if_neg hsym, if_neg hmarker, if_neg (by simp [hmarker, hsym])]
  split <;> simp_all

/-- A kernel that the guards of the handlers let through to the common body. -/
theorem faultAtomic_guarded_iff (codec : Codec) (env : FaultEnv) (k : Kernel) (vmf : FaultInfo) :
    FaultAtomic codec k
        (if vmf.origPte.isMinimem = false ∨ k.symbolsResolved = false then k
          else (resolveFault codec env k vmf).2) vmf ↔
      FaultSafe codec env k vmf := by
  by_cases hguard : vmf.origPte.isMinimem = false ∨ k.symbolsResolved = false
  · rw [if_pos hguard]
    constructor
    · intro _ hsym hmarker
      simp [hsym, hmarker] at hguard
    · intro _
      exact .inr (.refl k vmf)
  · rw [if_neg hguard, resolveFault_atomic_iff]
    simp only [not_or, Bool.not_eq_false] at hguard
    simp [FaultSafe, hguard]

/-- **All or nothing**: either fault handler maps the page and drops the entry, or leaves
PTE, entry and object alone, exactly when it stops before it removes the entry, or the PTE
that it finds under the second lock is the one that the fault was taken on, or the address
already maps the very bytes. -/
theorem faultAtomic_iff (codec : Codec) (env : FaultEnv) (k : Kernel) (vmf : FaultInfo) :
    (FaultAtomic codec k (handleSwapFault codec env k vmf).2 vmf ↔ FaultSafe codec env k vmf) ∧
    (FaultAtomic codec k (vmFaultHandler codec env k vmf).2 vmf ↔
      FaultSafe codec env k vmf) := by
  rw [handleSwapFault_snd, vmFaultHandler_snd]
  exact ⟨faultAtomic_guarded_iff codec env k vmf, faultAtomic_guarded_iff codec env k vmf⟩

/-! ## A page lost behind the PTE lock -/

/-- A read fault on the compressed page of `Kernel.oneMarker`. -/
def oneMarkerFault : FaultInfo := ⟨0, ⟨0x1000, 0x2000, true, true, false, false, false, false⟩, 0x1000,
  .marker 1⟩

/-- When the second PTE lock cannot be taken, both handlers leave the marker in place
with its entry and its object gone. -/
theorem not_faultAtomic_noLock :
    ¬ FaultAtomic samePageCodec .oneMarker
        (handleSwapFault samePageCodec ⟨true, true, true, .noLock⟩ .oneMarker oneMarkerFault).2
        oneMarkerFault ∧
      ¬ FaultAtomic samePageCodec .oneMarker
        (vmFaultHandler samePageCodec ⟨true, true, true, .noLock⟩ .oneMarker oneMarkerFault).2
        oneMarkerFault := by
  rw [handleSwapFault_snd, vmFaultHandler_snd, faultAtomic_guarded_iff, and_self]
  intro hsafe
  have hlookup : mapLookup Kernel.oneMarker.map oneMarkerFault.address
      = some ⟨.samePage, 1, 1⟩ := by decide
  have hdecode : Kernel.oneMarker.decode samePageCodec ⟨.samePage, 1, 1⟩
      = some (Page.fill 0) := rfl
  rcases hsafe rfl rfl rfl rfl rfl _ _ hlookup hdecode with hsame | hmapped
  · cases hsame
  · cases hmapped

end MiniMem
