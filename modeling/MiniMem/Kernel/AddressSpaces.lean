import MiniMem.Kernel.Replace

/-!
# MiniMem.Kernel.AddressSpaces

Several address spaces over one compression map.  The map is keyed by the
virtual page alone, so two address spaces that have the same virtual page
compressed share one entry.  As long as that never happens, every fault on a
marker gets back the bytes that the page held when it was compressed.

The machine here runs the operations of `MiniMem.Kernel.Ops` and records in
`held` what each page held when it was last compressed.
-/

namespace MiniMem

/-! ## The machine with its record -/

/-- The kernel, and for every address space and virtual page the bytes that it held when
it was last compressed. -/
structure HeldState where
  kernel : Kernel
  held : Nat → Nat → Page

/-- Record the contents of a page that is being replaced. -/
def recordPage (k : Kernel) (held : Nat → Nat → Page) (mm vaddr : Nat) : Nat → Nat → Page :=
  match k.pageAt mm vaddr with
  | none => held
  | some page => Function.update held mm (Function.update (held mm) (vaddrToIndex vaddr) page)

/-- One operation; a successful replacement records the page. -/
def heldStep (codec : Codec) (s : HeldState) (op : Op) : Option HeldState :=
  some ⟨exec codec s.kernel op,
    match op with
    | .replace env mm addr =>
        if (compressAndReplacePte codec env s.kernel mm addr).1 = 0 then
          recordPage s.kernel s.held mm addr
        else s.held
    | _ => s.held⟩

/-- There is a marker at an address. -/
def MarkerAt (k : Kernel) (mm vaddr : Nat) : Prop :=
  ∃ index, k.pteAt mm vaddr = some (.marker index)

/-- User writes, replacements, faults and process exits, one at a time and with all
allocations of a fault successful: nobody changes a PTE in the middle of an operation, and
a fault is taken on the PTE that is there. -/
def Quiet (s : HeldState) : Op → Prop
  | .write _ _ _ => True
  | .replace env _ _ => env.relock = .same
  | .vmFault env vmf => env = .ok ∧ s.kernel.pteAt vmf.mm vmf.address = some vmf.origPte
  | .stockFault env vmf => env = .ok ∧ s.kernel.pteAt vmf.mm vmf.address = some vmf.origPte
  | .exit _ _ => True
  | _ => False

/-- An operation that enters a page in the map does so at a virtual page at which no
address space has a marker. -/
def Exclusive (codec : Codec) (s : HeldState) (op : Op) : Prop :=
  ∀ vaddr, storesAt codec s.kernel op = some vaddr → ∀ mm, ¬MarkerAt s.kernel mm vaddr

/-! ## Replacing a page undisturbed -/

/-- A replacement that nobody disturbs goes through, or changes neither the storage nor any
page table. -/
theorem compressAndReplacePte_quiet (codec : Codec) {env : ReplaceEnv} (henv : env.relock = .same)
    {k : Kernel} (hwf : k.pool.Wf) (mm addr : Nat) :
    (∃ pfn write young dirty algo bytes,
      k.pteAt mm addr = some (.present pfn write young dirty) ∧
      codec.compress (k.frames.data pfn) = .ok (algo, bytes) ∧ k.symbolsResolved = true ∧
      storesAt codec k (.replace env mm addr) = some (pageMask addr) ∧
      compressAndReplacePte codec env k mm addr
        = (0, k.replaced mm (pageMask addr) pfn algo bytes)) ∨
    (storesAt codec k (.replace env mm addr) = none ∧
      (compressAndReplacePte codec env k mm addr).1 ≠ 0 ∧
      SameStorage k (compressAndReplacePte codec env k mm addr).2 ∧
      (compressAndReplacePte codec env k mm addr).2.mms = k.mms ∧
      (compressAndReplacePte codec env k mm addr).2.symbolsResolved = k.symbolsResolved) := by
  have hinstalls : ReplaceInstalls env k mm addr := by rw [ReplaceInstalls, henv, Kernel.relock]
  have hat := storesAt_replace codec env k mm addr
  have hcases := replace_cases codec env hwf mm addr
  generalize compressAndReplacePte codec env k mm addr = result at hcases ⊢
  cases hcases with
  | refused hret hstores hsame =>
      rw [hstores] at hat
      exact .inr ⟨hat, hret, hsame, rfl, rfl⟩
  | undone _ _ hnot => exact absurd hinstalls hnot
  | @done pfn algo bytes hstores _ =>
      obtain ⟨hsym, -, hbuf, write, young, dirty, hpte, -⟩ := replaceStores_eq_some hstores
      rw [hstores] at hat
      have hpte' : k.pteAt mm addr = some (.present pfn write young dirty) := by
        simpa [Kernel.pteAt] using hpte
      exact .inl ⟨pfn, write, young, dirty, algo, bytes, hpte', compressBuf_ok hbuf, hsym, hat, rfl⟩

/-- A replacement sets the PTE of its page to the marker and no other. -/
theorem pteAt_replaced (k : Kernel) (mm vaddr pfn mm' vaddr' : Nat) (algo : AlgoId)
    (bytes : List UInt8) : (k.replaced mm vaddr pfn algo bytes).pteAt mm' vaddr' =
      if mm' = mm ∧ vaddrToIndex vaddr' = vaddrToIndex vaddr then
        some (minimemPte (vaddrToIndex vaddr))
      else k.pteAt mm' vaddr' := by
  have h := pteAt_setPteAt ((k.getPage pfn).addEntry vaddr algo bytes) mm mm' vaddr vaddr'
    (minimemPte (vaddrToIndex vaddr))
  rw [← pteAt_addAnonPages _ mm mm' vaddr' (-1)] at h
  exact h

/-- It adds an entry. -/
theorem map_replaced (k : Kernel) (mm vaddr pfn : Nat) (algo : AlgoId) (bytes : List UInt8) :
    (k.replaced mm vaddr pfn algo bytes).map = (k.addEntry vaddr algo bytes).map := rfl

/-- It adds an object. -/
theorem objs_replaced (k : Kernel) (mm vaddr pfn : Nat) (algo : AlgoId) (bytes : List UInt8) :
    (k.replaced mm vaddr pfn algo bytes).pool.objs = (k.addEntry vaddr algo bytes).pool.objs := rfl

/-- A marker after a replacement is the new one or an old one elsewhere. -/
theorem markerAt_replaced {k : Kernel} {mm addr pfn mm' vaddr : Nat} {algo : AlgoId}
    {bytes : List UInt8} (h : MarkerAt (k.replaced mm (pageMask addr) pfn algo bytes) mm' vaddr) :
    (mm' = mm ∧ vaddrToIndex vaddr = vaddrToIndex addr) ∨
      (¬(mm' = mm ∧ vaddrToIndex vaddr = vaddrToIndex addr) ∧ MarkerAt k mm' vaddr) := by
  obtain ⟨index, hindex⟩ := h
  rw [pteAt_replaced, vaddrToIndex_pageMask] at hindex
  by_cases hnew : mm' = mm ∧ vaddrToIndex vaddr = vaddrToIndex addr
  · exact .inl hnew
  · rw [if_neg hnew] at hindex
    exact .inr ⟨hnew, index, hindex⟩

/-- Where another entry is set there is no marker any more, and elsewhere none is new. -/
theorem markerAt_setPteAt {k : Kernel} {mm mm' vaddr vaddr' : Nat} {pte : Pte}
    (hpte : pte.isMinimem = false) (h : MarkerAt (k.setPteAt mm vaddr pte) mm' vaddr') :
    ¬(mm' = mm ∧ vaddrToIndex vaddr' = vaddrToIndex vaddr) ∧ MarkerAt k mm' vaddr' := by
  obtain ⟨index, hindex⟩ := h
  rw [pteAt_setPteAt] at hindex
  split at hindex
  · injection hindex with hindex
    rw [hindex] at hpte
    cases hpte
  next hne => exact ⟨hne, index, hindex⟩

/-! ## Handling a fault undisturbed -/

/-- Mapping a page brings no marker in, and takes the one of its page away. -/
theorem markerAt_mapNewPage {k : Kernel} {vma : Vma} {mm mm' vaddr vaddr' : Nat} {page : Page}
    (h : MarkerAt (k.mapNewPage vma mm vaddr page) mm' vaddr') :
    ¬(mm' = mm ∧ vaddrToIndex vaddr' = vaddrToIndex vaddr) ∧ MarkerAt k mm' vaddr' := by
  obtain ⟨index, hindex⟩ := h
  rw [Kernel.mapNewPage, pteAt_addAnonPages] at hindex
  have hset : MarkerAt ((k.allocPage page).setPteAt mm vaddr (newPte vma k.frames.next)) mm'
    vaddr' := ⟨index, hindex⟩
  exact markerAt_setPteAt rfl hset

/-- A PTE that is recognised is a marker. -/
theorem markerAt_of_isMinimem {k : Kernel} {mm vaddr : Nat} {pte : Pte}
    (hpte : k.pteAt mm vaddr = some pte) (hmarker : pte.isMinimem = true) :
    MarkerAt k mm vaddr := by
  cases pte with
  | marker index => exact ⟨index, hpte⟩
  | _ => cases hmarker

/-- Through a marker no page is read. -/
theorem pageAt_of_marker {k : Kernel} {mm vaddr : Nat} (hm : MarkerAt k mm vaddr) :
    k.pageAt mm vaddr = none := by
  obtain ⟨index, hindex⟩ := hm
  rw [Kernel.pageAt, hindex]

/-- The kernel after a fault that was handled undisturbed. -/
def Kernel.faulted (k : Kernel) (vmf : FaultInfo) (page : Page) (entry : MapEntry) : Kernel :=
  ((k.mapNewPage vmf.vma vmf.mm vmf.address page).dropEntry (pageMask vmf.address)
    entry.zsHandle).faultHandled

/-- A fault on a marker whose entry decodes is handled, on either kind of kernel. -/
theorem fault_of_entry {codec : Codec} {k : Kernel} {vmf : FaultInfo} {entry : MapEntry}
    {page : Page} (hsym : k.symbolsResolved = true)
    (hpte : k.pteAt vmf.mm vmf.address = some vmf.origPte)
    (hmarker : vmf.origPte.isMinimem = true)
    (hlookup : mapLookup k.map vmf.address = some entry)
    (hdecode : k.decode codec entry = some page) :
    vmFaultHandler codec .ok k vmf = (.nopage, k.faulted vmf page entry) ∧
      stockMarkerFault codec .ok k vmf = (.nopage, k.faulted vmf page entry) := by
  have hlookup' : mapLookup k.map (pageMask vmf.address) = some entry := by
    rw [mapLookup_pageMask, hlookup]
  have hresolve : resolveFault codec .ok k vmf = (.handled, k.faulted vmf page entry) := by
    simp only [resolveFault, hlookup', FaultEnv.ok, hdecode, installPage_eq, Kernel.relock,
      pteAt_dropEntry, hpte]
    rfl
  constructor
  · simp [vmFaultHandler, hsym, hmarker, hresolve]
  · simp [stockMarkerFault, kretprobeEntry, handleSwapFault, hsym, hmarker, hresolve,
      kretprobeReturn]

/-- A handled fault leaves the other address spaces alone. -/
theorem pteAt_faulted_of_ne (k : Kernel) {vmf : FaultInfo} {mm : Nat} (hne : mm ≠ vmf.mm)
    (page : Page) (entry : MapEntry) (vaddr : Nat) :
    (k.faulted vmf page entry).pteAt mm vaddr = k.pteAt mm vaddr := by
  show (k.mapNewPage vmf.vma vmf.mm vmf.address page).pteAt mm vaddr = _
  rw [Kernel.mapNewPage, pteAt_addAnonPages, pteAt_setPteAt, if_neg (fun h => hne h.1)]
  rfl

/-- A handled fault drops the entry. -/
theorem mapLookup_faulted_self (k : Kernel) (vmf : FaultInfo) (page : Page) (entry : MapEntry) :
    mapLookup (k.faulted vmf page entry).map vmf.address = none := by
  rw [← mapLookup_pageMask]
  exact @mapLookup_dropEntry_self (k.mapNewPage vmf.vma vmf.mm vmf.address page)
    (pageMask vmf.address) entry.zsHandle

/-- A handled fault maps the page. -/
@[simp] theorem pageAt_faulted (k : Kernel) (vmf : FaultInfo) (page : Page) (entry : MapEntry) :
    (k.faulted vmf page entry).pageAt vmf.mm vmf.address = some page :=
  pageAt_mapNewPage_self k vmf.vma vmf.mm vmf.address page

/-! ## The invariant -/

/-- What an entry decodes to depends on its object only. -/
theorem decode_congr {k k' : Kernel} {codec : Codec} {entry : MapEntry}
    (h : k'.pool.objs entry.zsHandle = k.pool.objs entry.zsHandle) :
    k'.decode codec entry = k.decode codec entry := by
  rw [Kernel.decode, Kernel.decode, h]

/-- Markers are per page. -/
theorem MarkerAt.congr {k : Kernel} {mm vaddr vaddr' : Nat}
    (h : vaddrToIndex vaddr' = vaddrToIndex vaddr) (hmarker : MarkerAt k mm vaddr) :
    MarkerAt k mm vaddr' := by
  simpa [MarkerAt, Kernel.pteAt, h] using hmarker

/-- Every marker has an entry that decodes to what was recorded for its page, and no two
address spaces have markers at one virtual page. -/
structure HeldInv (codec : Codec) (k : Kernel) (held : Nat → Nat → Page) : Prop where
  storage : StorageOk k
  backed : ∀ mm vaddr, MarkerAt k mm vaddr → ∃ entry, mapLookup k.map vaddr = some entry ∧
    k.decode codec entry = some (held mm (vaddrToIndex vaddr))
  exclusive : ∀ mm mm' vaddr, MarkerAt k mm vaddr → MarkerAt k mm' vaddr → mm = mm'
  resolved : ∀ mm vaddr, MarkerAt k mm vaddr → k.symbolsResolved = true

/-- A removal leaves the address spaces alone. -/
theorem mms_zswapRemove (k : Kernel) (vaddr : Nat) : (zswapRemove k vaddr).2.mms = k.mms := by
  unfold zswapRemove
  split
  · rfl
  · split <;> rfl

namespace HeldInv

variable {codec : Codec} {k k' : Kernel} {held : Nat → Nat → Page}

/-- Losing markers does no harm. -/
theorem mono (h : HeldInv codec k held) (hsame : SameStorage k k')
    (hmarker : ∀ mm vaddr, MarkerAt k' mm vaddr → MarkerAt k mm vaddr)
    (hsym : k'.symbolsResolved = k.symbolsResolved) : HeldInv codec k' held where
  storage := h.storage.same hsame
  backed := by
    intro mm vaddr hm
    obtain ⟨entry, hlookup, hdecode⟩ := h.backed mm vaddr (hmarker mm vaddr hm)
    refine ⟨entry, by rw [hsame.map, hlookup], ?_⟩
    have hobjs : k'.pool.objs entry.zsHandle = k.pool.objs entry.zsHandle := by rw [hsame.objs]
    rw [decode_congr hobjs, hdecode]
  exclusive mm mm' vaddr hm hm' := h.exclusive mm mm' vaddr (hmarker _ _ hm) (hmarker _ _ hm')
  resolved mm vaddr hm := by
    rw [hsym]
    exact h.resolved mm vaddr (hmarker _ _ hm)

/-- Dropping an entry whose page has no marker any more does no harm. -/
theorem drop (h : HeldInv codec k held) {vaddr : Nat} {entry : MapEntry}
    (hlookup : mapLookup k.map vaddr = some entry) (hnone : ∀ mm, ¬MarkerAt k mm vaddr) :
    HeldInv codec (k.dropEntry vaddr entry.zsHandle) held where
  storage := h.storage.drop hlookup
  backed := by
    intro mm vaddr' hm
    obtain ⟨e, hlookup', hdecode⟩ := h.backed mm vaddr' hm
    have hne : vaddrToIndex vaddr' ≠ vaddrToIndex vaddr := by
      intro heq
      exact hnone mm (MarkerAt.congr heq.symm hm)
    refine ⟨e, ?_, ?_⟩
    · rw [mapLookup, load_dropEntry, if_neg hne]
      exact hlookup'
    · rw [decode_congr (h.storage.objs_dropEntry hlookup hlookup' hne), hdecode]
  exclusive := h.exclusive
  resolved := h.resolved

/-- A replacement that goes through puts the recorded bytes behind the new marker. -/
theorem replaced (h : HeldInv codec k held) (hcodec : codec.RoundTrips) {mm addr pfn : Nat}
    {write young dirty : Bool} {algo : AlgoId} {bytes : List UInt8}
    (hpte : k.pteAt mm addr = some (.present pfn write young dirty))
    (hcompress : codec.compress (k.frames.data pfn) = .ok (algo, bytes))
    (hsym : k.symbolsResolved = true)
    (hexclusive : ∀ mm', ¬MarkerAt k mm' (pageMask addr)) :
    HeldInv codec (k.replaced mm (pageMask addr) pfn algo bytes) (recordPage k held mm addr) where
  storage := by
    have hsame : SameStorage (k.addEntry (pageMask addr) algo bytes)
        (k.replaced mm (pageMask addr) pfn algo bytes) := ⟨rfl, rfl, Nat.le_refl _⟩
    exact (h.storage.add (pageMask addr) algo bytes).same hsame
  backed := by
    intro mm' vaddr hm
    have hrecord : recordPage k held mm addr = Function.update held mm
        (Function.update (held mm) (vaddrToIndex addr) (k.frames.data pfn)) := by
      rw [recordPage, pageAt_of_present hpte]
    rw [hrecord, mapLookup, map_replaced, load_addEntry, vaddrToIndex_pageMask]
    rcases markerAt_replaced hm with ⟨rfl, hidx⟩ | ⟨hne, hm⟩
    · refine ⟨_, if_pos hidx, ?_⟩
      rw [Kernel.decode, objs_replaced, objs_addEntry, if_pos rfl]
      simp only [List.take_length, hcodec _ _ _ hcompress, Function.update_self, hidx]
    · have hidx : vaddrToIndex vaddr ≠ vaddrToIndex addr := by
        intro hidx
        exact hexclusive mm' (hm.congr ((vaddrToIndex_pageMask addr).trans hidx.symm))
      obtain ⟨entry, hlookup, hdecode⟩ := h.backed mm' vaddr hm
      refine ⟨entry, (if_neg hidx).trans hlookup, ?_⟩
      have hobjs : (k.replaced mm (pageMask addr) pfn algo bytes).pool.objs entry.zsHandle
          = k.pool.objs entry.zsHandle := by
        rw [objs_replaced, objs_addEntry, if_neg (h.storage.ne_next hlookup)]
      rw [decode_congr hobjs, hdecode]
      by_cases hmm : mm' = mm
      · simp [hmm, hidx]
      · simp [hmm]
  exclusive := by
    intro mm₁ mm₂ vaddr hm₁ hm₂
    rcases markerAt_replaced hm₁ with ⟨hmm₁, hidx₁⟩ | ⟨-, hold₁⟩
    · rcases markerAt_replaced hm₂ with ⟨hmm₂, -⟩ | ⟨-, hold₂⟩
      · rw [hmm₁, hmm₂]
      · exact absurd (hold₂.congr ((vaddrToIndex_pageMask addr).trans hidx₁.symm))
          (hexclusive mm₂)
    · rcases markerAt_replaced hm₂ with ⟨-, hidx₂⟩ | ⟨-, hold₂⟩
      · exact absurd (hold₁.congr ((vaddrToIndex_pageMask addr).trans hidx₂.symm))
          (hexclusive mm₁)
      · exact h.exclusive mm₁ mm₂ vaddr hold₁ hold₂
  resolved _ _ _ := hsym

/-- The state that a handled fault leaves keeps the invariant: the marker goes first, the
entry behind it second. -/
theorem faulted (h : HeldInv codec k held) {vmf : FaultInfo} {page : Page} {entry : MapEntry}
    (hpte : k.pteAt vmf.mm vmf.address = some vmf.origPte)
    (hmarker : vmf.origPte.isMinimem = true)
    (hlookup : mapLookup k.map vmf.address = some entry) :
    HeldInv codec (k.faulted vmf page entry) held := by
  have hm := markerAt_of_isMinimem hpte hmarker
  have hmapped : HeldInv codec (k.mapNewPage vmf.vma vmf.mm vmf.address page) held := by
    refine h.mono ⟨rfl, rfl, Nat.le_refl _⟩ ?_ rfl
    intro mm vaddr hm'
    exact (markerAt_mapNewPage hm').2
  have hlookup' : mapLookup (k.mapNewPage vmf.vma vmf.mm vmf.address page).map
      (pageMask vmf.address) = some entry := by
    rw [mapLookup, vaddrToIndex_pageMask]
    exact hlookup
  have hdrop := hmapped.drop hlookup' (by
    intro mm hm'
    obtain ⟨hne, hm'⟩ := markerAt_mapNewPage hm'
    have hm' : MarkerAt k mm vmf.address := hm'.congr (vaddrToIndex_pageMask _).symm
    exact hne ⟨h.exclusive mm vmf.mm vmf.address hm' hm, vaddrToIndex_pageMask _⟩)
  exact hdrop.mono ⟨rfl, rfl, Nat.le_refl _⟩ (fun _ _ hm' => hm') rfl

/-- Writing a page keeps the invariant. -/
theorem userWrite (h : HeldInv codec k held) (mm vaddr : Nat) (page : Page) :
    HeldInv codec (MiniMem.userWrite k mm vaddr page) held := by
  unfold MiniMem.userWrite
  split
  next pfn young dirty hpte =>
    refine h.mono ⟨rfl, rfl, Nat.le_refl _⟩ ?_ rfl
    intro mm' vaddr' hm'
    exact (markerAt_setPteAt rfl hm').2
  · exact h

/-- Removing a page that has no marker any more keeps the invariant. -/
theorem zswapRemove (h : HeldInv codec k held) {vaddr : Nat} (hnone : ∀ mm, ¬MarkerAt k mm vaddr) :
    HeldInv codec (MiniMem.zswapRemove k vaddr).2 held := by
  unfold MiniMem.zswapRemove
  split
  · exact h
  next entry hlookup =>
    rw [mapRemove_of_lookup hlookup]
    have hdrop := h.drop hlookup hnone
    rw [Kernel.dropEntry, mapRemove_of_lookup hlookup] at hdrop
    exact hdrop.mono ⟨rfl, rfl, Nat.le_refl _⟩ (fun _ _ hm => hm) rfl

/-- Removals of pages without markers keep it, by induction on the list. -/
theorem zapRemove (h : HeldInv codec k held) {vaddrs : List Nat} (freed : Nat)
    (hnone : ∀ vaddr ∈ vaddrs, ∀ mm, ¬MarkerAt k mm vaddr) :
    HeldInv codec (MiniMem.zapRemove vaddrs (freed, k)).2 held := by
  induction vaddrs generalizing k freed with
  | nil => exact h
  | cons vaddr vaddrs ih =>
      rw [List.forall_mem_cons] at hnone
      refine ih (h.zswapRemove hnone.1) _ ?_
      intro vaddr' hmem mm hm
      rw [MarkerAt, Kernel.pteAt, mms_zswapRemove] at hm
      exact hnone.2 vaddr' hmem mm hm

/-- Tearing down a page table keeps the invariant. -/
theorem exitMmap (h : HeldInv codec k held) (mm : Nat) : HeldInv codec (k.exitMmap mm) held := by
  refine h.mono ⟨rfl, rfl, Nat.le_refl _⟩ ?_ rfl
  rintro mm' vaddr ⟨index, hindex⟩
  by_cases hmm : mm' = mm
  · subst hmm
    simp [Kernel.pteAt, Kernel.exitMmap] at hindex
  · refine ⟨index, ?_⟩
    rw [← hindex]
    simp [Kernel.pteAt, Kernel.exitMmap, hmm]

end HeldInv

/-! ## Process exit -/

/-- The walk of `minimem_zap_range`: the invariant, and no marker at an address that it has
collected. -/
structure ZapInv (codec : Codec) (held : Nat → Nat → Page) (s : ZapState) : Prop where
  heldInv : HeldInv codec s.kernel held
  collected : ∀ vaddr ∈ s.buf.vaddrs, ∀ mm, ¬MarkerAt s.kernel mm vaddr

/-- Clearing a marker leaves no marker at its virtual page in any address space. -/
theorem HeldInv.clear {codec : Codec} {k : Kernel} {held : Nat → Nat → Page}
    (h : HeldInv codec k held) {mm addr : Nat} (hmarker : MarkerAt k mm addr) :
    HeldInv codec (k.setPteAt mm addr .empty) held ∧
      ∀ mm', ¬MarkerAt (k.setPteAt mm addr .empty) mm' addr := by
  constructor
  · refine h.mono ⟨rfl, rfl, Nat.le_refl _⟩ ?_ rfl
    intro mm' vaddr hm
    exact (markerAt_setPteAt rfl hm).2
  · intro mm' hm
    obtain ⟨hne, hm⟩ := markerAt_setPteAt rfl hm
    exact hne ⟨h.exclusive mm' mm addr hm hmarker, rfl⟩

/-- One page of the walk keeps it. -/
theorem ZapInv.zapPage {codec : Codec} {held : Nat → Nat → Page} {s : ZapState}
    (h : ZapInv codec held s) (env : ZapEnv) (mm addr : Nat) :
    ZapInv codec held (MiniMem.zapPage env mm s addr) := by
  unfold MiniMem.zapPage
  split
  · exact h
  split
  · exact h
  next pte hpte =>
    split
    · exact h
    next hmarker =>
      have hlock : env.lock addr = true := by
        by_contra hlock
        simp [hlock] at hpte
      rw [if_pos hlock] at hpte
      rw [Bool.not_eq_false] at hmarker
      obtain ⟨hcleared, hnone⟩ := h.heldInv.clear (markerAt_of_isMinimem hpte hmarker)
      have hold : ∀ vaddr ∈ s.buf.vaddrs, ∀ mm',
          ¬MarkerAt (s.kernel.setPteAt mm addr .empty) mm' vaddr := by
        intro vaddr hmem mm' hm
        exact h.collected vaddr hmem mm' (markerAt_setPteAt rfl hm).2
      have hnew : ∀ vaddr ∈ s.buf.vaddrs ++ [pageMask addr], ∀ mm',
          ¬MarkerAt (s.kernel.setPteAt mm addr .empty) mm' vaddr := by
        intro vaddr hmem mm' hm
        rw [List.mem_append, List.mem_singleton] at hmem
        rcases hmem with hmem | rfl
        · exact hold vaddr hmem mm' hm
        · exact hnone mm' (hm.congr (vaddrToIndex_pageMask addr).symm)
      dsimp only
      split
      · split
        · exact ⟨hcleared, hnew⟩
        · exact ⟨hcleared, hold⟩
      · exact ⟨hcleared, hnew⟩

/-- So does the walk over all VMAs. -/
theorem ZapInv.zapVmas {codec : Codec} {held : Nat → Nat → Page} {s : ZapState}
    (h : ZapInv codec held s) (env : ZapEnv) (mm start stop : Nat) (vmas : List Vma) :
    ZapInv codec held (MiniMem.zapVmas env mm start stop vmas s) :=
  zapVmas_keeps (fun _ addr h => h.zapPage env mm addr) start stop vmas h

/-- Process exit keeps the invariant, whichever of its steps fail. -/
theorem HeldInv.mmuRelease {codec : Codec} {k : Kernel} {held : Nat → Nat → Page}
    (h : HeldInv codec k held) (env : ZapEnv) (mm : Nat) :
    HeldInv codec (MiniMem.mmuRelease env k mm).2 held := by
  unfold MiniMem.mmuRelease zapRange
  split
  · exact h
  · have hwalk : ZapInv codec held ⟨k, ⟨[], 256, 0⟩, false⟩ := ⟨h, by simp⟩
    have hdone := hwalk.zapVmas env mm 0 ulongMax
      ((k.mms mm).vmas.filter fun vma => decide (0 < vma.stop))
    exact hdone.heldInv.zapRemove 0 hdone.collected

/-! ## Every operation -/

/-- Both handlers resolve a fault on a marker with the recorded bytes. -/
theorem HeldInv.fault {codec : Codec} {k : Kernel} {held : Nat → Nat → Page}
    (h : HeldInv codec k held) {vmf : FaultInfo}
    (hpte : k.pteAt vmf.mm vmf.address = some vmf.origPte)
    (hmarker : vmf.origPte.isMinimem = true) :
    ∃ entry, mapLookup k.map vmf.address = some entry ∧
      vmFaultHandler codec .ok k vmf = (.nopage, k.faulted vmf
        (held vmf.mm (vaddrToIndex vmf.address)) entry) ∧
      stockMarkerFault codec .ok k vmf = (.nopage, k.faulted vmf
        (held vmf.mm (vaddrToIndex vmf.address)) entry) := by
  have hm := markerAt_of_isMinimem hpte hmarker
  obtain ⟨entry, hlookup, hdecode⟩ := h.backed vmf.mm vmf.address hm
  exact ⟨entry, hlookup, fault_of_entry (h.resolved _ _ hm) hpte hmarker hlookup hdecode⟩

/-- A fault keeps the invariant. -/
theorem HeldInv.vmFault {codec : Codec} {k : Kernel} {held : Nat → Nat → Page}
    (h : HeldInv codec k held) {vmf : FaultInfo}
    (hpte : k.pteAt vmf.mm vmf.address = some vmf.origPte) :
    HeldInv codec (vmFaultHandler codec .ok k vmf).2 held ∧
      HeldInv codec (stockMarkerFault codec .ok k vmf).2 held := by
  by_cases hmarker : vmf.origPte.isMinimem = true
  · obtain ⟨entry, hlookup, hvm, hstock⟩ := h.fault hpte hmarker
    rw [hvm, hstock]
    exact ⟨h.faulted hpte hmarker hlookup, h.faulted hpte hmarker hlookup⟩
  · rw [Bool.not_eq_true] at hmarker
    have hvm : (vmFaultHandler codec .ok k vmf).2 = k := by
      unfold vmFaultHandler
      split <;> simp
    have hstock : (stockMarkerFault codec .ok k vmf).2 = k := by
      show (kretprobeEntry codec .ok k vmf).2 = k
      unfold kretprobeEntry
      split <;> simp
    rw [hvm, hstock]
    exact ⟨h, h⟩

/-- One operation keeps the invariant. -/
theorem HeldInv.step {codec : Codec} (hcodec : codec.RoundTrips) {s s' : HeldState} {op : Op}
    (h : HeldInv codec s.kernel s.held) (hG : Quiet s op ∧ Exclusive codec s op)
    (hstep : heldStep codec s op = some s') : HeldInv codec s'.kernel s'.held := by
  obtain ⟨hquiet, hexclusive⟩ := hG
  injection hstep with hstep
  subst hstep
  cases op with
  | write mm vaddr page => exact h.userWrite mm vaddr page
  | replace env mm addr =>
      show HeldInv codec (compressAndReplacePte codec env s.kernel mm addr).2
        (if _ then _ else s.held)
      rcases compressAndReplacePte_quiet codec hquiet h.storage.wf mm addr with
        ⟨pfn, write, young, dirty, algo, bytes, hpte, hcompress, hsym, hat, hdone⟩ |
        ⟨-, hret, hsame, hmms, hsym⟩
      · rw [hdone]
        exact h.replaced hcodec hpte hcompress hsym (hexclusive _ hat)
      · rw [if_neg hret]
        refine h.mono hsame ?_ hsym
        intro mm' vaddr hm
        rw [MarkerAt, Kernel.pteAt, hmms] at hm
        exact hm
  | vmFault env vmf =>
      obtain ⟨rfl, hpte⟩ := hquiet
      exact (h.vmFault hpte).1
  | stockFault env vmf =>
      obtain ⟨rfl, hpte⟩ := hquiet
      exact (h.vmFault hpte).2
  | exit env mm => exact (h.mmuRelease env mm).exitMmap mm
  | _ => cases hquiet

/-- The fault on the marker that a replacement has put in is handled. -/
theorem vmFault_replaced {codec : Codec} (hcodec : codec.RoundTrips) {k : Kernel}
    (hsym : k.symbolsResolved = true) {addr pfn : Nat} {algo : AlgoId} {bytes : List UInt8}
    (hcompress : codec.compress (k.frames.data pfn) = .ok (algo, bytes)) {vmf : FaultInfo}
    (haddr : vmf.address = addr) (horig : vmf.origPte = minimemPte (vaddrToIndex addr)) :
    (k.replaced vmf.mm (pageMask addr) pfn algo bytes).pteAt vmf.mm vmf.address
        = some vmf.origPte ∧
      vmFaultHandler codec .ok (k.replaced vmf.mm (pageMask addr) pfn algo bytes) vmf
        = (.nopage, (k.replaced vmf.mm (pageMask addr) pfn algo bytes).faulted vmf
            (k.frames.data pfn) ⟨algo, bytes.length, k.pool.next⟩) := by
  subst haddr
  have hpte : (k.replaced vmf.mm (pageMask vmf.address) pfn algo bytes).pteAt vmf.mm vmf.address
      = some vmf.origPte := by
    rw [pteAt_replaced, vaddrToIndex_pageMask, if_pos ⟨rfl, rfl⟩, horig]
  have hlookup : mapLookup (k.replaced vmf.mm (pageMask vmf.address) pfn algo bytes).map
      vmf.address = some ⟨algo, bytes.length, k.pool.next⟩ := by
    rw [mapLookup, map_replaced, load_addEntry, if_pos (vaddrToIndex_pageMask _).symm]
  have hdecode : (k.replaced vmf.mm (pageMask vmf.address) pfn algo bytes).decode codec
      ⟨algo, bytes.length, k.pool.next⟩ = some (k.frames.data pfn) := by
    rw [Kernel.decode, objs_replaced, objs_addEntry, if_pos rfl]
    simp only [List.take_length, hcodec _ _ _ hcompress]
  have hsym' : (k.replaced vmf.mm (pageMask vmf.address) pfn algo bytes).symbolsResolved = true :=
    hsym
  have hmarker : vmf.origPte.isMinimem = true := by
    rw [horig]
    rfl
  exact ⟨hpte, (fault_of_entry hsym' hpte hmarker hlookup hdecode).1⟩

/-- An operation that enters a page where another address space has a marker: once the new
marker is faulted in, the other marker has no entry any more. -/
theorem HeldInv.lost {codec : Codec} (hcodec : codec.RoundTrips) {s : HeldState} {op : Op}
    (h : HeldInv codec s.kernel s.held) (hquiet : Quiet s op)
    (hshared : ¬Exclusive codec s op) :
    ∃ fault u mm vaddr, Run (heldStep codec) Quiet s [op, fault] u ∧
      MarkerAt u.kernel mm vaddr ∧ mapLookup u.kernel.map vaddr = none := by
  simp only [Exclusive, not_forall, not_not] at hshared
  obtain ⟨vaddr, hstores, mm', hm'⟩ := hshared
  cases op with
  | replace env mm addr =>
      rcases compressAndReplacePte_quiet codec hquiet h.storage.wf mm addr with
        ⟨pfn, write, young, dirty, algo, bytes, hpte, hcompress, hsym, hat, hdone⟩ |
        ⟨hnone, -⟩
      · rw [hat] at hstores
        injection hstores with hstores
        subst hstores
        have hne : mm' ≠ mm := by
          rintro rfl
          obtain ⟨index, hindex⟩ := hm'.congr (vaddrToIndex_pageMask addr).symm
          rw [hpte] at hindex
          cases hindex
        let vmf : FaultInfo := ⟨mm, ⟨0, 0, true, true, false, false, false, false⟩, addr,
          minimemPte (vaddrToIndex addr)⟩
        obtain ⟨hpte', hvm⟩ := vmFault_replaced hcodec hsym hcompress
          (show vmf.address = addr from rfl) rfl
        have hreplace : heldStep codec s (.replace env mm addr)
            = some ⟨s.kernel.replaced mm (pageMask addr) pfn algo bytes,
              recordPage s.kernel s.held mm addr⟩ := by
          simp only [heldStep, exec, hdone, if_true]
        have hfault : heldStep codec ⟨s.kernel.replaced mm (pageMask addr) pfn algo bytes,
              recordPage s.kernel s.held mm addr⟩ (.vmFault .ok vmf)
            = some ⟨_, recordPage s.kernel s.held mm addr⟩ :=
          congrArg (fun r : VmFault × Kernel => some (HeldState.mk r.2 _)) hvm
        refine ⟨.vmFault .ok vmf, _, mm', addr,
          .cons hreplace hquiet (.cons hfault ⟨rfl, hpte'⟩ (.nil _)), ?_,
          mapLookup_faulted_self _ vmf _ _⟩
        obtain ⟨index, hindex⟩ := hm'.congr (vaddrToIndex_pageMask addr).symm
        refine ⟨index, ?_⟩
        rw [pteAt_faulted_of_ne _ hne, pteAt_replaced, if_neg (fun h => hne h.1), hindex]
      · rw [hnone] at hstores
        cases hstores
  | store env vaddr pfn => cases hquiet
  | _ => cases hstores

/-- At load there is nothing to hold. -/
theorem heldInv_loaded (codec : Codec) {mms : Nat → Mm} {frames : Frames}
    {maxPoolPages minSavingsPct : Int} {symbolsResolved : Bool}
    (hclean : ∀ mm vaddr,
      ¬MarkerAt (.loaded mms frames maxPoolPages minSavingsPct symbolsResolved) mm vaddr)
    (held : Nat → Nat → Page) :
    HeldInv codec (.loaded mms frames maxPoolPages minSavingsPct symbolsResolved) held where
  storage := storageOk_loaded mms frames maxPoolPages minSavingsPct symbolsResolved
  backed mm vaddr hm := absurd hm (hclean mm vaddr)
  exclusive mm _ vaddr hm := absurd hm (hclean mm vaddr)
  resolved mm vaddr hm := absurd hm (hclean mm vaddr)

/-- In every run in which a page is entered in the map only while no address space has a
marker at that virtual page, each fault on a marker finds an entry and maps exactly the
bytes that the page held when it was last compressed.  An operation that enters a page
elsewhere goes on to a marker without an entry. -/
theorem fault_installs_held {codec : Codec} (hcodec : codec.RoundTrips) {mms : Nat → Mm}
    {frames : Frames} {maxPoolPages minSavingsPct : Int} {symbolsResolved : Bool}
    (hclean : ∀ mm vaddr,
      ¬MarkerAt (.loaded mms frames maxPoolPages minSavingsPct symbolsResolved) mm vaddr)
    {held : Nat → Nat → Page} {ops : List Op} {t : HeldState}
    (hrun : Run (heldStep codec) (fun s op => Quiet s op ∧ Exclusive codec s op)
      ⟨.loaded mms frames maxPoolPages minSavingsPct symbolsResolved, held⟩ ops t) :
    (∀ vmf : FaultInfo, t.kernel.pteAt vmf.mm vmf.address = some vmf.origPte →
      vmf.origPte.isMinimem = true →
      (∃ entry, mapLookup t.kernel.map vmf.address = some entry) ∧
      (vmFaultHandler codec .ok t.kernel vmf).1 = .nopage ∧
      (vmFaultHandler codec .ok t.kernel vmf).2.pageAt vmf.mm vmf.address
        = some (t.held vmf.mm (vaddrToIndex vmf.address)) ∧
      (stockMarkerFault codec .ok t.kernel vmf).1 = .nopage ∧
      (stockMarkerFault codec .ok t.kernel vmf).2.pageAt vmf.mm vmf.address
        = some (t.held vmf.mm (vaddrToIndex vmf.address))) ∧
    ∀ op, Quiet t op → ¬Exclusive codec t op →
      ∃ fault u mm vaddr, Run (heldStep codec) Quiet t [op, fault] u ∧
        MarkerAt u.kernel mm vaddr ∧ mapLookup u.kernel.map vaddr = none := by
  have hinv : (fun s : HeldState => HeldInv codec s.kernel s.held) t :=
    hrun.invariant (fun _ _ _ h hG hstep => HeldInv.step hcodec h hG hstep)
      (heldInv_loaded codec hclean held)
  constructor
  · intro vmf hpte hmarker
    obtain ⟨entry, hlookup, hvm, hstock⟩ := hinv.fault hpte hmarker
    rw [hvm, hstock]
    exact ⟨⟨entry, hlookup⟩, rfl, pageAt_faulted .., rfl, pageAt_faulted ..⟩
  · intro op hquiet hshared
    exact HeldInv.lost hcodec hinv hquiet hshared

/-! ## Two address spaces with the same virtual page -/

/-- Address spaces 0 and 1 both map a page at `0x1000`; the pages hold ones and twos. -/
def twoSpaces : HeldState where
  kernel := .loaded
    (fun mm => ⟨fun vpn => if mm < 2 ∧ vpn = 1 then some (.present mm true true true) else none,
      [], 1⟩)
    ⟨fun pfn => Page.fill (if pfn = 0 then 1 else 2), fun _ => 1, 2⟩ 0 0 true
  held _ _ := Page.fill 0

/-- No page is compressed yet. -/
theorem not_markerAt_twoSpaces (mm vaddr : Nat) : ¬MarkerAt twoSpaces.kernel mm vaddr := by
  rintro ⟨index, hindex⟩
  simp only [Kernel.pteAt, twoSpaces, Kernel.loaded] at hindex
  split at hindex <;> cases hindex

/-- `twoSpaces` after the page of address space 0 is compressed. -/
def firstReplaced : HeldState where
  kernel := twoSpaces.kernel.replaced 0 0x1000 0 .samePage [1]
  held := recordPage twoSpaces.kernel twoSpaces.held 0 0x1000

/-- The page of address space 0 is compressed. -/
theorem heldStep_first :
    heldStep samePageCodec twoSpaces (.replace .ok 0 0x1000) = some firstReplaced := by
  have hdone : compressAndReplacePte samePageCodec .ok twoSpaces.kernel 0 0x1000
      = (0, firstReplaced.kernel) :=
    compressAndReplacePte_fill (wf_loaded _ _ _ _ _) rfl rfl rfl rfl
  simp only [heldStep, exec, hdone, if_true]
  rfl

/-- A fault on the page of address space 0. -/
def firstFault : FaultInfo := ⟨0, ⟨0x1000, 0x2000, true, true, false, false, false, false⟩, 0x1000,
  .marker 1⟩

/-- Address space 0 maps ones at `0x1000`, address space 1 twos at `0x2000`. -/
def spacesApart : HeldState where
  kernel := .loaded
    (fun mm => ⟨fun vpn => if mm < 2 ∧ vpn = mm + 1 then some (.present mm true true true) else none,
      [], 1⟩)
    ⟨fun pfn => Page.fill (if pfn = 0 then 1 else 2), fun _ => 1, 2⟩ 0 0 true
  held _ _ := Page.fill 0

/-- No page is compressed yet. -/
theorem not_markerAt_spacesApart (mm vaddr : Nat) : ¬MarkerAt spacesApart.kernel mm vaddr := by
  rintro ⟨index, hindex⟩
  simp only [Kernel.pteAt, spacesApart, Kernel.loaded] at hindex
  split at hindex <;> cases hindex

/-- `spacesApart` after the page of address space 0 is compressed. -/
def apartFirst : HeldState where
  kernel := spacesApart.kernel.replaced 0 0x1000 0 .samePage [1]
  held := recordPage spacesApart.kernel spacesApart.held 0 0x1000

/-- Both pages are compressed. -/
def apartBoth : HeldState where
  kernel := apartFirst.kernel.replaced 1 0x2000 1 .samePage [2]
  held := recordPage apartFirst.kernel apartFirst.held 1 0x2000

/-- The page of address space 0 is compressed. -/
theorem heldStep_apartFirst :
    heldStep samePageCodec spacesApart (.replace .ok 0 0x1000) = some apartFirst := by
  have hdone : compressAndReplacePte samePageCodec .ok spacesApart.kernel 0 0x1000
      = (0, apartFirst.kernel) :=
    compressAndReplacePte_fill (wf_loaded _ _ _ _ _) rfl rfl rfl rfl
  simp only [heldStep, exec, hdone, if_true]
  rfl

/-- Then that of address space 1, at another address. -/
theorem heldStep_apartBoth :
    heldStep samePageCodec apartFirst (.replace .ok 1 0x2000) = some apartBoth := by
  have hdone : compressAndReplacePte samePageCodec .ok apartFirst.kernel 1 0x2000
      = (0, apartBoth.kernel) :=
    compressAndReplacePte_fill ((wf_loaded _ _ _ _ _).malloc _) rfl rfl rfl rfl
  simp only [heldStep, exec, hdone, if_true]
  rfl

/-- A fault on the page of address space 1. -/
def secondFault : FaultInfo := ⟨1, ⟨0x2000, 0x3000, true, true, false, false, false, false⟩, 0x2000,
  .marker 2⟩

/-- Each address space gets its own page back. -/
theorem fault_installs_held_apart :
    (vmFaultHandler samePageCodec .ok apartBoth.kernel firstFault).2.pageAt 0 0x1000
        = some (Page.fill 1) ∧
      (stockMarkerFault samePageCodec .ok apartBoth.kernel secondFault).2.pageAt 1 0x2000
        = some (Page.fill 2) := by
  have hsecond (mm vaddr : Nat) (hv : vaddrToIndex vaddr = 2) :
      ¬MarkerAt apartFirst.kernel mm vaddr := by
    intro hm
    have hnew : MarkerAt (spacesApart.kernel.replaced 0 (pageMask 0x1000) 0 .samePage [1]) mm vaddr :=
      hm
    rcases markerAt_replaced hnew with ⟨-, hidx⟩ | ⟨-, hm⟩
    · rw [hv] at hidx
      exact absurd hidx (by decide)
    · exact not_markerAt_spacesApart mm vaddr hm
  have hat : ∀ vaddr, storesAt samePageCodec apartFirst.kernel (.replace .ok 1 0x2000) = some vaddr →
      vaddrToIndex vaddr = 2 := by
    intro vaddr hstores
    rw [storesAt_replace, Option.map_eq_some_iff] at hstores
    obtain ⟨-, -, hmask⟩ := hstores
    rw [← hmask]
    decide
  have hrun : Run (heldStep samePageCodec) (fun s op => Quiet s op ∧ Exclusive samePageCodec s op)
      spacesApart [.replace .ok 0 0x1000, .replace .ok 1 0x2000] apartBoth :=
    .cons heldStep_apartFirst ⟨rfl, fun vaddr _ mm => not_markerAt_spacesApart mm vaddr⟩
      (.cons heldStep_apartBoth ⟨rfl, fun vaddr hstores mm => hsecond mm vaddr (hat vaddr hstores)⟩
        (.nil _))
  have hfaults := (fault_installs_held samePageCodec_roundTrips not_markerAt_spacesApart hrun).1
  exact ⟨(hfaults firstFault rfl rfl).2.2.1, (hfaults secondFault rfl rfl).2.2.2.2⟩

/-- `twoSpaces` after both pages are compressed. -/
def bothReplaced : HeldState where
  kernel := firstReplaced.kernel.replaced 1 0x1000 1 .samePage [2]
  held := recordPage firstReplaced.kernel firstReplaced.held 1 0x1000

/-- Then that of address space 1, at the same address. -/
theorem heldStep_second :
    heldStep samePageCodec firstReplaced (.replace .ok 1 0x1000) = some bothReplaced := by
  have hdone : compressAndReplacePte samePageCodec .ok firstReplaced.kernel 1 0x1000
      = (0, bothReplaced.kernel) :=
    compressAndReplacePte_fill ((wf_loaded _ _ _ _ _).malloc _) rfl rfl rfl rfl
  simp only [heldStep, exec, hdone, if_true]
  rfl

/-- Once both pages are compressed, a fault of address space 0 maps the page of address
space 1, twos in place of ones. -/
theorem not_fault_installs_held_twoSpaces :
    samePageCodec.RoundTrips ∧ (∀ mm vaddr, ¬MarkerAt twoSpaces.kernel mm vaddr) ∧
      Run (heldStep samePageCodec) Quiet twoSpaces
        [.replace .ok 0 0x1000, .replace .ok 1 0x1000] bothReplaced ∧
      bothReplaced.kernel.pteAt firstFault.mm firstFault.address = some firstFault.origPte ∧
      bothReplaced.held 0 1 = Page.fill 1 ∧
      (vmFaultHandler samePageCodec .ok bothReplaced.kernel firstFault).2.pageAt 0 0x1000
        = some (Page.fill 2) ∧
      (stockMarkerFault samePageCodec .ok bothReplaced.kernel firstFault).2.pageAt 0 0x1000
        = some (Page.fill 2) ∧
      Page.fill 2 ≠ Page.fill 1 := by
  have hlookup : mapLookup bothReplaced.kernel.map firstFault.address = some ⟨.samePage, 1, 2⟩ := by
    rw [mapLookup, bothReplaced, map_replaced, load_addEntry]
    rfl
  have hdecode : bothReplaced.kernel.decode samePageCodec ⟨.samePage, 1, 2⟩
      = some (Page.fill 2) := rfl
  obtain ⟨hvm, hstock⟩ := fault_of_entry rfl rfl rfl hlookup hdecode
  refine ⟨samePageCodec_roundTrips, not_markerAt_twoSpaces,
    .cons heldStep_first rfl (.cons heldStep_second rfl (.nil _)), rfl, rfl, ?_, ?_, ?_⟩
  · rw [hvm]
    exact pageAt_faulted _ firstFault _ _
  · rw [hstock]
    exact pageAt_faulted _ firstFault _ _
  · rw [Ne, Page.fill_inj]
    decide

end MiniMem
