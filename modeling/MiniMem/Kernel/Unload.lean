import Mathlib.Data.Set.Card
import MiniMem.Kernel.AddressSpaces

/-!
# MiniMem.Kernel.Unload

What module unload gives back.  The three nested loops of
`minimem_zswap_drain_and_restore` come down to one list of visits, and a
compressed page is decided by the first visit to it that gets as far as the
decompressor.
-/

namespace MiniMem

/-! ## The walk as a list of visits -/

/-- One round of the innermost loop: its VMA, its address, and the outcomes of its steps. -/
structure Visit where
  env : DrainPageEnv
  vma : Vma
  mm : Nat
  vaddr : Nat

/-- The visits to one VMA. -/
def vmaVisits (pages : Nat → DrainPageEnv) (mm : Nat) (vma : Vma) : List Visit :=
  if vma.drained = false then []
  else (pagesFrom vma.start vma.stop).map fun vaddr => ⟨pages vaddr, vma, mm, vaddr⟩

/-- The visits to one process; `vmas` gives the VMAs of an address space. -/
def DrainTask.visits (vmas : Nat → List Vma) (task : DrainTask) : List Visit :=
  match task.mm with
  | none => []
  | some mm =>
      if task.mmget = false then []
      else if task.trylock = false then []
      else (vmas mm).flatMap (vmaVisits task.pages mm)

/-- All visits of the walk. -/
def Kernel.visits (k : Kernel) (tasks : List DrainTask) : List Visit :=
  tasks.flatMap (DrainTask.visits fun mm => (k.mms mm).vmas)

/-- What one visit does. -/
def drainVisit (codec : Codec) (acc : Nat × Kernel) (v : Visit) : Nat × Kernel :=
  drainPage codec v.env v.vma v.mm v.vaddr acc

/-- A visit that finds the PTE lock, the memory and the object that it needs. -/
def Visit.attempts (v : Visit) : Bool := v.env.lock && v.env.page && v.env.srcBuf && v.env.zsRead

/-- The kernel after a visit that went through. -/
def Kernel.drained (k : Kernel) (v : Visit) (orig : Pte) (entry : MapEntry) (page : Page) :
    Kernel :=
  ((k.installPage v.vma v.mm v.vaddr orig page v.env.relock).dropEntry v.vaddr
    entry.zsHandle).uncount entry.compressedLen

/-- A visit either does nothing, or it attempts a marker that has an entry; then it drops the
entry, and restores the page first if the entry decodes. -/
theorem drainVisit_cases (codec : Codec) (n : Nat) (k : Kernel) (v : Visit) :
    (drainVisit codec (n, k) v = (n, k) ∧
      (v.attempts = true → MarkerAt k v.mm v.vaddr → mapLookup k.map v.vaddr = none)) ∨
    ∃ orig entry, v.attempts = true ∧ k.pteAt v.mm v.vaddr = some orig ∧
      orig.isMinimem = true ∧ mapLookup k.map v.vaddr = some entry ∧
      ((k.decode codec entry = none ∧ drainVisit codec (n, k) v
        = (n, (k.dropEntry v.vaddr entry.zsHandle).uncount entry.compressedLen)) ∨
      ∃ page, k.decode codec entry = some page ∧
        drainVisit codec (n, k) v = (n + 1, k.drained v orig entry page)) := by
  by_cases hattempts : v.attempts = true
  · have hsteps := hattempts
    simp only [Visit.attempts, Bool.and_eq_true] at hsteps
    obtain ⟨⟨⟨hlock, hpage⟩, hbuf⟩, hread⟩ := hsteps
    simp only [drainVisit, drainPage, hlock, hpage, hbuf, hread, if_true]
    cases hpte : k.pteAt v.mm v.vaddr with
    | none =>
        left
        refine ⟨rfl, ?_⟩
        rintro - ⟨index, hindex⟩
        rw [hpte] at hindex
        cases hindex
    | some orig =>
        by_cases hmarker : orig.isMinimem = true
        · cases hlookup : mapLookup k.map v.vaddr with
          | none => exact .inl ⟨by simp [hmarker], fun _ _ => rfl⟩
          | some entry =>
              right
              refine ⟨orig, entry, hattempts, rfl, hmarker, rfl, ?_⟩
              cases hdecode : k.decode codec entry with
              | none => exact .inl ⟨rfl, by simp [hmarker, hdecode]⟩
              | some page => exact .inr ⟨page, rfl, by simp [hmarker, hdecode, Kernel.drained]⟩
        · left
          rw [Bool.not_eq_true] at hmarker
          refine ⟨by simp [hmarker], ?_⟩
          rintro - ⟨index, hindex⟩
          rw [hpte] at hindex
          injection hindex with hindex
          rw [hindex] at hmarker
          cases hmarker
  · left
    refine ⟨?_, fun h => absurd h hattempts⟩
    simp only [Visit.attempts, Bool.and_eq_true, not_and] at hattempts
    unfold drainVisit drainPage
    dsimp only
    repeat' split
    all_goals first | rfl | simp_all

/-! ## The walk visit by visit -/

/-- The last step of a restore leaves the VMAs alone. -/
theorem vmas_installPage (k : Kernel) (vma : Vma) (mm vaddr mm' : Nat) (orig : Pte) (page : Page)
    (relock : Relock) :
    ((k.installPage vma mm vaddr orig page relock).mms mm').vmas = (k.mms mm').vmas := by
  have hrelock : ((k.relock mm vaddr relock).1.mms mm').vmas = (k.mms mm').vmas := by
    cases relock with
    | changed pte => exact vmas_setPteAt ..
    | _ => rfl
  rw [installPage_eq]
  split
  · rw [Kernel.mapNewPage, vmas_addAnonPages, vmas_setPteAt]
    exact hrelock
  · exact hrelock

/-- So does a visit of the walk. -/
theorem vmas_drainVisit (codec : Codec) (acc : Nat × Kernel) (v : Visit) (mm : Nat) :
    ((drainVisit codec acc v).2.mms mm).vmas = (acc.2.mms mm).vmas := by
  obtain ⟨n, k⟩ := acc
  rcases drainVisit_cases codec n k v with ⟨hdone, -⟩ |
    ⟨orig, entry, -, -, -, -, ⟨-, hdone⟩ | ⟨page, -, hdone⟩⟩
  · rw [hdone]
  · rw [hdone]
    rfl
  · rw [hdone]
    exact vmas_installPage ..

/-- So do all of them. -/
theorem vmas_foldl_drainVisit (codec : Codec) (vs : List Visit) (acc : Nat × Kernel) (mm : Nat) :
    ((vs.foldl (drainVisit codec) acc).2.mms mm).vmas = (acc.2.mms mm).vmas := by
  induction vs generalizing acc with
  | nil => rfl
  | cons v vs ih => rw [List.foldl_cons, ih, vmas_drainVisit]

/-- The walk over a VMA is its visits in a row. -/
theorem drainVma_eq (codec : Codec) (pages : Nat → DrainPageEnv) (mm : Nat) (acc : Nat × Kernel)
    (vma : Vma) :
    drainVma codec pages mm acc vma = (vmaVisits pages mm vma).foldl (drainVisit codec) acc := by
  unfold drainVma vmaVisits
  split
  · rfl
  · rw [List.foldl_map]
    rfl

/-- The walk over a process is the visits of its VMAs in a row. -/
theorem drainProcess_eq (codec : Codec) (acc : Nat × Kernel) (task : DrainTask) :
    drainProcess codec acc task
      = (task.visits fun mm => (acc.2.mms mm).vmas).foldl (drainVisit codec) acc := by
  unfold drainProcess DrainTask.visits
  cases task.mm with
  | none => rfl
  | some mm =>
      by_cases hmmget : task.mmget = false
      · simp [hmmget]
      by_cases htrylock : task.trylock = false
      · simp [htrylock]
      have hvma : drainVma codec task.pages mm
          = fun acc vma => (vmaVisits task.pages mm vma).foldl (drainVisit codec) acc := by
        funext acc vma
        exact drainVma_eq codec task.pages mm acc vma
      dsimp only
      rw [if_neg hmmget, if_neg htrylock, if_neg hmmget, if_neg htrylock, List.foldl_flatMap, hvma]

/-- The three nested loops are one loop over the visits. -/
theorem drainProcess_foldl_eq (codec : Codec) (tasks : List DrainTask) (acc : Nat × Kernel) :
    tasks.foldl (drainProcess codec) acc
      = (acc.2.visits tasks).foldl (drainVisit codec) acc := by
  induction tasks generalizing acc with
  | nil => rfl
  | cons task tasks ih =>
      have hvmas : (fun mm => ((drainProcess codec acc task).2.mms mm).vmas)
          = fun mm => (acc.2.mms mm).vmas := by
        funext mm
        rw [drainProcess_eq, vmas_foldl_drainVisit]
      rw [List.foldl_cons, ih, Kernel.visits, Kernel.visits, List.flatMap_cons, List.foldl_append,
        hvmas, drainProcess_eq]

/-- A visit drops an entry or none. -/
theorem DropClosed.drainVisit {P : Kernel → Prop} (hP : DropClosed P) (codec : Codec) {n : Nat}
    {k : Kernel} (v : Visit) (h : P k) : P (drainVisit codec (n, k) v).2 := by
  rcases drainVisit_cases codec n k v with ⟨hdone, -⟩ |
    ⟨orig, entry, -, -, -, hlookup, ⟨-, hdone⟩ | ⟨page, -, hdone⟩⟩
  · rw [hdone]
    exact h
  · rw [hdone]
    exact hP.uncount _ (hP.drop k _ entry hlookup h)
  · rw [hdone]
    apply hP.uncount
    apply hP.drop
    · rw [map_installPage, hlookup]
    · exact hP.installPage _ _ _ _ _ _ h

/-- The visits only drop entries. -/
theorem DropClosed.visits {P : Kernel → Prop} (hP : DropClosed P) (codec : Codec)
    (vs : List Visit) {acc : Nat × Kernel} (h : P acc.2) :
    P (vs.foldl (MiniMem.drainVisit codec) acc).2 := by
  induction vs generalizing acc with
  | nil => exact h
  | cons v vs ih => exact ih (hP.drainVisit codec v h)

/-- So does the whole walk. -/
theorem DropClosed.drainAndRestore {P : Kernel → Prop} (hP : DropClosed P) (codec : Codec)
    {k : Kernel} (tasks : List DrainTask) (h : P k) : P (drainAndRestore codec tasks k).2 := by
  unfold MiniMem.drainAndRestore
  split
  · exact h
  · rw [drainProcess_foldl_eq]
    exact hP.visits codec _ h

/-! ## What a visit keeps -/

/-- Mapping a page leaves the other PTEs alone. -/
theorem pteAt_mapNewPage_of_ne (k : Kernel) (vma : Vma) {mm vaddr mm' vaddr' : Nat} (page : Page)
    (hne : ¬(mm' = mm ∧ vaddrToIndex vaddr' = vaddrToIndex vaddr)) :
    (k.mapNewPage vma mm vaddr page).pteAt mm' vaddr' = k.pteAt mm' vaddr' := by
  rw [Kernel.mapNewPage, pteAt_addAnonPages, pteAt_setPteAt, if_neg hne]
  rfl

/-- What others do to a PTE leaves the other PTEs alone. -/
theorem pteAt_relock_of_ne (k : Kernel) {mm vaddr mm' vaddr' : Nat} (relock : Relock)
    (hne : ¬(mm' = mm ∧ vaddrToIndex vaddr' = vaddrToIndex vaddr)) :
    (k.relock mm vaddr relock).1.pteAt mm' vaddr' = k.pteAt mm' vaddr' := by
  cases relock with
  | changed pte =>
      show (k.setPteAt mm vaddr pte).pteAt mm' vaddr' = _
      rw [pteAt_setPteAt, if_neg hne]
  | _ => rfl

/-- Only the entry of the page visited changes. -/
theorem pteAt_drained_of_ne (k : Kernel) (v : Visit) (orig : Pte) (entry : MapEntry) (page : Page)
    {mm vaddr : Nat} (hne : ¬(mm = v.mm ∧ vaddrToIndex vaddr = vaddrToIndex v.vaddr)) :
    (k.drained v orig entry page).pteAt mm vaddr = k.pteAt mm vaddr := by
  show (k.installPage v.vma v.mm v.vaddr orig page v.env.relock).pteAt mm vaddr = _
  rw [installPage_eq]
  split
  · rw [pteAt_mapNewPage_of_ne _ _ _ hne, pteAt_relock_of_ne _ _ hne]
  · rw [pteAt_relock_of_ne _ _ hne]

/-- The last step of a restore may hand out a frame, and writes none that is there. -/
theorem frames_installPage (k : Kernel) (vma : Vma) (mm vaddr : Nat) (orig : Pte) (page : Page)
    (relock : Relock) :
    k.frames.next ≤ (k.installPage vma mm vaddr orig page relock).frames.next ∧
      ∀ pfn < k.frames.next,
        (k.installPage vma mm vaddr orig page relock).frames.data pfn = k.frames.data pfn := by
  rw [installPage_eq]
  split
  · constructor
    · show k.frames.next ≤ (k.relock mm vaddr relock).1.frames.next + 1
      rw [frames_relock]
      omega
    · intro pfn hpfn
      show Function.update (k.relock mm vaddr relock).1.frames.data
        (k.relock mm vaddr relock).1.frames.next page pfn = _
      rw [frames_relock, Function.update_of_ne (by omega)]
  · simp

/-- What every visit keeps: the storage is in order, no marker is new, and no frame in use
changes. -/
structure WalkKept (k k' : Kernel) : Prop where
  storage : StorageOk k'
  marker : ∀ mm vaddr, MarkerAt k' mm vaddr → MarkerAt k mm vaddr
  next : k.frames.next ≤ k'.frames.next
  data : ∀ pfn < k.frames.next, k'.frames.data pfn = k.frames.data pfn

/-- What a visit leaves as it was. -/
theorem drainVisit_kept (codec : Codec) (n : Nat) {k : Kernel} (h : StorageOk k) (v : Visit) :
    WalkKept k (drainVisit codec (n, k) v).2 := by
  rcases drainVisit_cases codec n k v with ⟨hdone, -⟩ |
    ⟨orig, entry, -, hpte, hmarker, hlookup, ⟨-, hdone⟩ | ⟨page, -, hdone⟩⟩
  · rw [hdone]
    exact ⟨h, fun _ _ hm => hm, Nat.le_refl _, fun _ _ => rfl⟩
  · rw [hdone]
    exact ⟨dropClosed_storageOk.uncount _ (h.drop hlookup), fun _ _ hm => hm, Nat.le_refl _,
      fun _ _ => rfl⟩
  · rw [hdone]
    obtain ⟨hnext, hdata⟩ := frames_installPage k v.vma v.mm v.vaddr orig page v.env.relock
    refine ⟨?_, ?_, hnext, hdata⟩
    · apply dropClosed_storageOk.uncount
      apply dropClosed_storageOk.drop
      · rw [map_installPage, hlookup]
      · exact dropClosed_storageOk.installPage _ _ _ _ _ _ h
    · rintro mm vaddr ⟨index, hindex⟩
      by_cases hat : mm = v.mm ∧ vaddrToIndex vaddr = vaddrToIndex v.vaddr
      · have hm := markerAt_of_isMinimem hpte hmarker
        rw [hat.1]
        exact hm.congr hat.2
      · rw [pteAt_drained_of_ne _ _ _ _ _ hat] at hindex
        exact ⟨index, hindex⟩

/-- What a visit elsewhere keeps of a page. -/
structure PageKept (codec : Codec) (k k' : Kernel) (mm vaddr : Nat) : Prop where
  pte : k'.pteAt mm vaddr = k.pteAt mm vaddr
  lookup : mapLookup k'.map vaddr = mapLookup k.map vaddr
  decode : ∀ entry, mapLookup k.map vaddr = some entry → k'.decode codec entry = k.decode codec entry

/-- Dropping the entry of another virtual page keeps the entry of this one. -/
theorem pageKept_dropEntry {codec : Codec} {k k₁ : Kernel} (h : StorageOk k)
    (hmap : k₁.map = k.map) (hpool : k₁.pool = k.pool) {mm vaddr vaddr' : Nat} {entry : MapEntry}
    (hpte : k₁.pteAt mm vaddr = k.pteAt mm vaddr) (hlookup : mapLookup k.map vaddr' = some entry)
    (hne : vaddrToIndex vaddr ≠ vaddrToIndex vaddr') (len : Nat) :
    PageKept codec k ((k₁.dropEntry vaddr' entry.zsHandle).uncount len) mm vaddr where
  pte := hpte
  lookup := by
    show (k₁.dropEntry vaddr' entry.zsHandle).map.entries.load (vaddrToIndex vaddr) = _
    rw [load_dropEntry, if_neg hne, hmap]
    rfl
  decode := by
    intro e he
    apply decode_congr
    show (k₁.dropEntry vaddr' entry.zsHandle).pool.objs e.zsHandle = _
    rw [pool_dropEntry, hpool, ← h.objs_dropEntry hlookup he hne, pool_dropEntry]

/-- A visit keeps a page unless it attempts a marker at that virtual page that has an entry. -/
theorem drainVisit_pageKept (codec : Codec) (n : Nat) {k : Kernel} (h : StorageOk k) (v : Visit)
    (mm : Nat) {vaddr : Nat}
    (hother : v.attempts = true → vaddrToIndex v.vaddr = vaddrToIndex vaddr →
      MarkerAt k v.mm vaddr → mapLookup k.map vaddr = none) :
    PageKept codec k (drainVisit codec (n, k) v).2 mm vaddr := by
  rcases drainVisit_cases codec n k v with ⟨hdone, -⟩ |
    ⟨orig, entry, hattempts, hpte, hmarker, hlookup, hdone⟩
  · rw [hdone]
    exact ⟨rfl, rfl, fun _ _ => rfl⟩
  · have hne : vaddrToIndex vaddr ≠ vaddrToIndex v.vaddr := by
      intro hidx
      have hm := (markerAt_of_isMinimem hpte hmarker).congr hidx
      have hnone := hother hattempts hidx.symm hm
      rw [mapLookup, hidx, ← mapLookup, hlookup] at hnone
      cases hnone
    rcases hdone with ⟨-, hdone⟩ | ⟨page, -, hdone⟩
    · rw [hdone]
      exact pageKept_dropEntry h rfl rfl rfl hlookup hne _
    · rw [hdone]
      exact pageKept_dropEntry h (map_installPage ..) (pool_installPage ..)
        (pteAt_drained_of_ne k v orig entry page fun hat => hne hat.2) hlookup hne _

/-! ## The fate of one page -/

/-- A page without an entry stays as it is. -/
theorem walk_settled (codec : Codec) (vs : List Visit) (n : Nat) {k : Kernel} (h : StorageOk k)
    (mm : Nat) {vaddr : Nat} (hnone : mapLookup k.map vaddr = none) :
    (vs.foldl (drainVisit codec) (n, k)).2.pteAt mm vaddr = k.pteAt mm vaddr ∧
      ∀ pfn < k.frames.next,
        (vs.foldl (drainVisit codec) (n, k)).2.frames.data pfn = k.frames.data pfn := by
  induction vs generalizing n k with
  | nil => exact ⟨rfl, fun _ _ => rfl⟩
  | cons v vs ih =>
      have hkept := drainVisit_kept codec n h v
      have hpage : PageKept codec k (drainVisit codec (n, k) v).2 mm vaddr :=
        drainVisit_pageKept codec n h v mm fun _ _ _ => hnone
      obtain ⟨hpte, hdata⟩ := ih (drainVisit codec (n, k) v).1 hkept.storage
        (hpage.lookup.trans hnone)
      rw [List.foldl_cons]
      refine ⟨hpte.trans hpage.pte, ?_⟩
      intro pfn hpfn
      have hnext := hkept.next
      exact (hdata pfn (by omega)).trans (hkept.data pfn hpfn)

/-- The page at an address, if the frame mapped there is `first` or a later one. -/
def Kernel.pageSince (k : Kernel) (first mm vaddr : Nat) : Option Page :=
  match k.pteAt mm vaddr with
  | some (.present pfn _ _ _) => if first ≤ pfn then some (k.frames.data pfn) else none
  | _ => none

/-- A page mapped since then is mapped. -/
theorem pageAt_of_pageSince {k : Kernel} {first mm vaddr : Nat} {page : Page}
    (h : k.pageSince first mm vaddr = some page) : k.pageAt mm vaddr = some page := by
  unfold Kernel.pageSince at h
  unfold Kernel.pageAt
  grind

/-- What an address shows depends on its virtual page only. -/
theorem Kernel.pageAt_index (k : Kernel) (mm vaddr : Nat) :
    k.pageAt mm vaddr = k.pageAt mm (indexToVaddr (vaddrToIndex vaddr)) := by
  simp only [Kernel.pageAt, Kernel.pteAt, vaddrToIndex_indexToVaddr]

/-- It depends on the page of the address only. -/
theorem Kernel.pageSince_index (k : Kernel) (first mm vaddr : Nat) :
    k.pageSince first mm vaddr
      = k.pageSince first mm (indexToVaddr (vaddrToIndex vaddr)) := by
  simp only [Kernel.pageSince, Kernel.pteAt, vaddrToIndex_indexToVaddr]

/-- Behind a marker no page is mapped. -/
theorem pageSince_of_marker {k : Kernel} {mm vaddr : Nat} (first : Nat) (h : MarkerAt k mm vaddr) :
    k.pageSince first mm vaddr = none := by
  obtain ⟨index, hindex⟩ := h
  simp [Kernel.pageSince, hindex]

/-- A mapped page without an entry keeps its contents. -/
theorem pageSince_walk_settled (codec : Codec) (vs : List Visit) (n : Nat) {k : Kernel}
    (h : StorageOk k) (first : Nat) {mm vaddr : Nat} (hnone : mapLookup k.map vaddr = none)
    (hused : ∀ pfn write young dirty, k.pteAt mm vaddr = some (.present pfn write young dirty) →
      pfn < k.frames.next) :
    (vs.foldl (drainVisit codec) (n, k)).2.pageSince first mm vaddr
      = k.pageSince first mm vaddr := by
  obtain ⟨hpte, hdata⟩ := walk_settled codec vs n h mm hnone
  unfold Kernel.pageSince
  rw [hpte]
  split
  next pfn write young dirty hpresent =>
    rw [hdata pfn (hused pfn write young dirty hpresent)]
  · rfl

/-- A visit that acts at a virtual page takes its entry. -/
theorem mapLookup_drainVisit_acts (codec : Codec) (n : Nat) {k : Kernel} {v : Visit} {vaddr : Nat}
    (hattempts : v.attempts = true) (hidx : vaddrToIndex v.vaddr = vaddrToIndex vaddr)
    (hm : MarkerAt k v.mm vaddr) : mapLookup (drainVisit codec (n, k) v).2.map vaddr = none := by
  rcases drainVisit_cases codec n k v with ⟨hdone, hnone⟩ |
    ⟨orig, entry, -, -, -, -, ⟨-, hdone⟩ | ⟨page, -, hdone⟩⟩
  · rw [hdone, mapLookup, ← hidx]
    exact hnone hattempts (hm.congr hidx)
  · rw [hdone, mapLookup, ← hidx]
    exact mapLookup_dropEntry_self k v.vaddr entry.zsHandle
  · rw [hdone, mapLookup, ← hidx]
    exact mapLookup_dropEntry_self _ v.vaddr entry.zsHandle

/-- A visit leaves the other address spaces alone. -/
theorem pteAt_drainVisit_of_ne (codec : Codec) (n : Nat) (k : Kernel) {v : Visit} {mm vaddr : Nat}
    (hne : mm ≠ v.mm) : (drainVisit codec (n, k) v).2.pteAt mm vaddr = k.pteAt mm vaddr := by
  rcases drainVisit_cases codec n k v with ⟨hdone, -⟩ |
    ⟨orig, entry, -, -, -, -, ⟨-, hdone⟩ | ⟨page, -, hdone⟩⟩
  · rw [hdone]
  · rw [hdone]
    rfl
  · rw [hdone]
    exact pteAt_drained_of_ne k v orig entry page fun hat => hne hat.1

/-- Of two markers at one virtual page, at least one remains. -/
theorem walk_once (codec : Codec) (vs : List Visit) (n : Nat) {k : Kernel} (h : StorageOk k)
    {mm mm' vaddr : Nat} (hne : mm ≠ mm') (hm : MarkerAt k mm vaddr) (hm' : MarkerAt k mm' vaddr) :
    MarkerAt (vs.foldl (drainVisit codec) (n, k)).2 mm vaddr ∨
      MarkerAt (vs.foldl (drainVisit codec) (n, k)).2 mm' vaddr := by
  induction vs generalizing n k with
  | nil => exact .inl hm
  | cons v vs ih =>
      have hkept := drainVisit_kept codec n h v
      rw [List.foldl_cons]
      by_cases hacts : v.attempts = true ∧ vaddrToIndex v.vaddr = vaddrToIndex vaddr ∧
          MarkerAt k v.mm vaddr
      · obtain ⟨hattempts, hidx, hmv⟩ := hacts
        have hnone := mapLookup_drainVisit_acts codec n hattempts hidx hmv
        by_cases hv : mm = v.mm
        · right
          rw [hv] at hne
          rw [MarkerAt, (walk_settled codec vs _ hkept.storage mm' hnone).1,
            pteAt_drainVisit_of_ne codec n k hne.symm]
          exact hm'
        · left
          rw [MarkerAt, (walk_settled codec vs _ hkept.storage mm hnone).1,
            pteAt_drainVisit_of_ne codec n k hv]
          exact hm
      · have hother : v.attempts = true → vaddrToIndex v.vaddr = vaddrToIndex vaddr →
            MarkerAt k v.mm vaddr → mapLookup k.map vaddr = none :=
          fun hattempts hidx hmv => absurd ⟨hattempts, hidx, hmv⟩ hacts
        apply ih _ hkept.storage
        · rw [MarkerAt, (drainVisit_pageKept codec n h v mm hother).pte]
          exact hm
        · rw [MarkerAt, (drainVisit_pageKept codec n h v mm' hother).pte]
          exact hm'

/-! ## The deciding visit -/

/-- The second PTE lock finds the marker again, so that the new page is mapped. -/
def Relock.Finds (orig : Pte) : Relock → Prop
  | .same => True
  | .noLock => False
  | .changed pte => pte = orig

/-- Somebody else maps only frames that are in use when the walk begins. -/
def Visit.UsesOld (first : Nat) (v : Visit) : Prop :=
  ∀ pfn write young dirty, v.env.relock = .changed (.present pfn write young dirty) → pfn < first

/-- The first visit to a page that attempts it. -/
def firstAttempt (vs : List Visit) (mm vaddr : Nat) : Option Visit :=
  vs.find? fun v =>
    v.attempts && decide (v.mm = mm) && decide (vaddrToIndex v.vaddr = vaddrToIndex vaddr)

/-- A page that is mapped now is mapped since then. -/
theorem pageSince_mapNewPage_self (k : Kernel) (vma : Vma) (mm vaddr : Nat) (page : Page)
    {first : Nat} (hfirst : first ≤ k.frames.next) :
    (k.mapNewPage vma mm vaddr page).pageSince first mm vaddr = some page := by
  simp [Kernel.pageSince, newPte, hfirst]

/-- The walk's own page is at the address exactly when the marker was found again. -/
theorem pageSince_installPage (k : Kernel) (vma : Vma) (relock : Relock) {first mm vaddr : Nat}
    {orig : Pte} {page : Page} (hpte : k.pteAt mm vaddr = some orig)
    (hmarker : orig.isMinimem = true) (hfirst : first ≤ k.frames.next)
    (hold : ∀ pfn write young dirty, relock = .changed (.present pfn write young dirty) →
      pfn < first) (shown : Page) :
    (k.installPage vma mm vaddr orig page relock).pageSince first mm vaddr = some shown ↔
      relock.Finds orig ∧ page = shown := by
  rw [installPage_eq]
  cases relock with
  | same =>
      simp [Kernel.relock, hpte, Relock.Finds, pageSince_mapNewPage_self k vma mm vaddr page hfirst]
  | noLock =>
      cases orig with
      | marker index => simp [Kernel.relock, Kernel.pageSince, hpte, Relock.Finds]
      | _ => cases hmarker
  | changed pte =>
      by_cases hsame : pte = orig
      · subst hsame
        have hshown := pageSince_mapNewPage_self (k.setPteAt mm vaddr pte) vma mm vaddr page
          (show first ≤ (k.setPteAt mm vaddr pte).frames.next by rwa [frames_setPteAt])
        simp [Kernel.relock, Relock.Finds, hshown]
      · simp only [Kernel.relock, Option.some.injEq, hsame, if_false, Relock.Finds, false_and,
          Kernel.pageSince, pteAt_setPteAt_self, iff_false]
        cases pte with
        | present pfn write young dirty =>
            have hlt := hold pfn write young dirty rfl
            simp [show ¬first ≤ pfn by omega]
        | _ => simp

/-- A frame that is mapped after a page is installed is in use. -/
theorem used_installPage (k : Kernel) {vma : Vma} {mm vaddr : Nat} {orig : Pte} {page : Page}
    {relock : Relock} (hpte : k.pteAt mm vaddr = some orig) (hmarker : orig.isMinimem = true)
    (hold : ∀ pfn write young dirty, relock = .changed (.present pfn write young dirty) →
      pfn < k.frames.next) {pfn : Nat} {write young dirty : Bool}
    (hpresent : (k.installPage vma mm vaddr orig page relock).pteAt mm vaddr
      = some (.present pfn write young dirty)) :
    pfn < (k.installPage vma mm vaddr orig page relock).frames.next := by
  rw [installPage_eq] at hpresent ⊢
  split at hpresent
  next hfound =>
    rw [if_pos hfound]
    rw [pteAt_mapNewPage_self, newPte, frames_relock] at hpresent
    simp only [Option.some.injEq, Pte.present.injEq] at hpresent
    show pfn < (k.relock mm vaddr relock).1.frames.next + 1
    rw [frames_relock, hpresent.1]
    omega
  next hfound =>
    rw [if_neg hfound, frames_relock]
    cases relock with
    | changed pte =>
        simp only [Kernel.relock, pteAt_setPteAt_self, Option.some.injEq] at hpresent
        exact hold pfn write young dirty (by rw [hpresent])
    | same => exact absurd hpte hfound
    | noLock =>
        simp only [Kernel.relock, hpte, Option.some.injEq] at hpresent
        rw [hpresent] at hmarker
        cases hmarker

/-- The marker at an address has an entry that decodes to `page`, and the first visit that
attempts it finds it again under the second PTE lock. -/
def Restorable (codec : Codec) (k : Kernel) (vs : List Visit) (mm vaddr : Nat) (page : Page) :
    Prop :=
  ∃ orig entry visit, k.pteAt mm vaddr = some orig ∧ mapLookup k.map vaddr = some entry ∧
    k.decode codec entry = some page ∧ firstAttempt vs mm vaddr = some visit ∧
    visit.env.relock.Finds orig

/-- A visit elsewhere leaves a page as restorable as it was. -/
theorem restorable_cons_of_kept {codec : Codec} {k k' : Kernel} {v : Visit} {vs : List Visit}
    {mm vaddr : Nat} {page : Page}
    (hother : ¬(v.attempts = true ∧ v.mm = mm ∧ vaddrToIndex v.vaddr = vaddrToIndex vaddr))
    (hkept : PageKept codec k k' mm vaddr) :
    Restorable codec k (v :: vs) mm vaddr page ↔ Restorable codec k' vs mm vaddr page := by
  have hfirst : firstAttempt (v :: vs) mm vaddr = firstAttempt vs mm vaddr := by
    apply List.find?_cons_of_neg
    simpa [and_assoc] using hother
  unfold Restorable
  rw [hfirst, hkept.pte, hkept.lookup]
  constructor
  · rintro ⟨orig, entry, visit, hpte, hlookup, hdecode, hvisit⟩
    exact ⟨orig, entry, visit, hpte, hlookup, (hkept.decode entry hlookup).trans hdecode, hvisit⟩
  · rintro ⟨orig, entry, visit, hpte, hlookup, hdecode, hvisit⟩
    exact ⟨orig, entry, visit, hpte, hlookup, (hkept.decode entry hlookup).symm.trans hdecode,
      hvisit⟩

/-- The visit that attempts a marker decides what the page shows from then on. -/
theorem walk_decided (codec : Codec) (vs : List Visit) (n : Nat) {k : Kernel} (h : StorageOk k)
    {first : Nat} (hfirst : first ≤ k.frames.next) {v : Visit} (hattempts : v.attempts = true)
    (hm : MarkerAt k v.mm v.vaddr) (hold : v.UsesOld first) (page : Page) :
    ((v :: vs).foldl (drainVisit codec) (n, k)).2.pageSince first v.mm v.vaddr = some page ↔
      Restorable codec k (v :: vs) v.mm v.vaddr page := by
  have hvisit : firstAttempt (v :: vs) v.mm v.vaddr = some v := by
    apply List.find?_cons_of_pos
    simp [hattempts]
  have hstorage := (drainVisit_kept codec n h v).storage
  have hnone := mapLookup_drainVisit_acts codec n hattempts rfl hm
  unfold Restorable
  rw [List.foldl_cons, hvisit]
  rcases drainVisit_cases codec n k v with ⟨hdone, hmiss⟩ |
    ⟨orig, entry, -, hpte, hmarker, hlookup, ⟨hdecode, hdone⟩ | ⟨restored, hdecode, hdone⟩⟩
  · rw [hdone, pageSince_walk_settled codec vs n h _ (hmiss hattempts hm),
      pageSince_of_marker _ hm]
    · simp [hmiss hattempts hm]
    · obtain ⟨index, hindex⟩ := hm
      simp [hindex]
  · rw [hdone] at hstorage hnone ⊢
    have hm' : MarkerAt ((k.dropEntry v.vaddr entry.zsHandle).uncount entry.compressedLen) v.mm
        v.vaddr := hm
    rw [pageSince_walk_settled codec vs n hstorage _ hnone, pageSince_of_marker _ hm']
    · simp [hlookup, hdecode]
    · obtain ⟨index, hindex⟩ := hm'
      simp [hindex]
  · rw [hdone] at hstorage hnone ⊢
    rw [pageSince_walk_settled codec vs (n + 1) hstorage _ hnone]
    · show (k.installPage v.vma v.mm v.vaddr orig restored v.env.relock).pageSince first v.mm
        v.vaddr = some page ↔ _
      rw [pageSince_installPage k v.vma _ hpte hmarker hfirst hold]
      simp [hpte, hlookup, hdecode, and_comm]
    · intro pfn write young dirty hpresent
      refine used_installPage k hpte hmarker ?_ hpresent
      intro pfn write young dirty hrelock
      exact Nat.lt_of_lt_of_le (hold pfn write young dirty hrelock) hfirst

/-- It depends on the page of the address only. -/
theorem Restorable.congr {codec : Codec} {k : Kernel} {vs : List Visit} {mm vaddr vaddr' : Nat}
    {page : Page} (hidx : vaddrToIndex vaddr = vaddrToIndex vaddr') :
    Restorable codec k vs mm vaddr page ↔ Restorable codec k vs mm vaddr' page := by
  simp only [Restorable, Kernel.pteAt, mapLookup, firstAttempt, hidx]

/-- A marker that is alone at its virtual page ends up showing a page that the walk mapped
exactly when it is restorable as that page. -/
theorem walk_page (codec : Codec) (vs : List Visit) (n : Nat) {k : Kernel} (h : StorageOk k)
    {first : Nat} (hfirst : first ≤ k.frames.next) {mm vaddr : Nat} (hm : MarkerAt k mm vaddr)
    (halone : ∀ mm', MarkerAt k mm' vaddr → mm' = mm) (hold : ∀ v ∈ vs, v.UsesOld first)
    (page : Page) :
    (vs.foldl (drainVisit codec) (n, k)).2.pageSince first mm vaddr = some page ↔
      Restorable codec k vs mm vaddr page := by
  induction vs generalizing n k with
  | nil =>
      rw [List.foldl_nil, pageSince_of_marker _ hm]
      simp [Restorable, firstAttempt]
  | cons v vs ih =>
      rw [List.forall_mem_cons] at hold
      by_cases hdecides : v.attempts = true ∧ v.mm = mm ∧ vaddrToIndex v.vaddr = vaddrToIndex vaddr
      · obtain ⟨hattempts, rfl, hidx⟩ := hdecides
        have hdecided :=
          walk_decided codec vs n h hfirst hattempts (hm.congr hidx) hold.1 page
        rw [Kernel.pageSince, Kernel.pteAt, hidx] at hdecided
        rw [← Restorable.congr hidx, ← hdecided]
        rfl
      · have hkept := drainVisit_kept codec n h v
        have hpage : PageKept codec k (drainVisit codec (n, k) v).2 mm vaddr := by
          apply drainVisit_pageKept codec n h v mm
          intro hattempts hidx hmv
          exact absurd ⟨hattempts, halone v.mm hmv, hidx⟩ hdecides
        have hm' : MarkerAt (drainVisit codec (n, k) v).2 mm vaddr := by
          rw [MarkerAt, hpage.pte]
          exact hm
        rw [List.foldl_cons, restorable_cons_of_kept hdecides hpage]
        exact ih _ hkept.storage (hfirst.trans hkept.next) hm'
          (fun mm' hmm' => halone mm' (hkept.marker mm' vaddr hmm')) hold.2

/-! ## All pages -/

/-- Every marker is alone at its virtual page and restorable as what the page held. -/
def WalkSafe (codec : Codec) (k : Kernel) (held : Nat → Nat → Page) (vs : List Visit) : Prop :=
  ∀ mm vaddr, MarkerAt k mm vaddr → (∀ mm', MarkerAt k mm' vaddr → mm' = mm) ∧
    Restorable codec k vs mm vaddr (held mm (vaddrToIndex vaddr))

/-- The walk itself maps every marker's page again exactly when it is safe. -/
theorem walk_restores_iff (codec : Codec) (vs : List Visit) (n : Nat) {k : Kernel}
    (h : StorageOk k) (held : Nat → Nat → Page) (hold : ∀ v ∈ vs, v.UsesOld k.frames.next) :
    (∀ mm vaddr, MarkerAt k mm vaddr →
      (vs.foldl (drainVisit codec) (n, k)).2.pageSince k.frames.next mm vaddr
        = some (held mm (vaddrToIndex vaddr))) ↔ WalkSafe codec k held vs := by
  constructor
  · intro hrestored mm vaddr hm
    have halone : ∀ mm', MarkerAt k mm' vaddr → mm' = mm := by
      intro mm' hm'
      by_contra hne
      rcases walk_once codec vs n h hne hm' hm with hleft | hleft
      · have hpage := hrestored mm' vaddr hm'
        rw [pageSince_of_marker _ hleft] at hpage
        cases hpage
      · have hpage := hrestored mm vaddr hm
        rw [pageSince_of_marker _ hleft] at hpage
        cases hpage
    exact ⟨halone, (walk_page codec vs n h le_rfl hm halone hold _).1 (hrestored mm vaddr hm)⟩
  · intro hsafe mm vaddr hm
    obtain ⟨halone, hpage⟩ := hsafe mm vaddr hm
    exact (walk_page codec vs n h le_rfl hm halone hold _).2 hpage

/-- The walk makes no new markers. -/
theorem walk_marker (codec : Codec) (vs : List Visit) (n : Nat) {k : Kernel} (h : StorageOk k)
    {mm vaddr : Nat} (hm : MarkerAt (vs.foldl (drainVisit codec) (n, k)).2 mm vaddr) :
    MarkerAt k mm vaddr := by
  induction vs generalizing n k with
  | nil => exact hm
  | cons v vs ih =>
      have hkept := drainVisit_kept codec n h v
      exact hkept.marker mm vaddr (ih _ hkept.storage hm)

/-- The markers, by address space and virtual page number. -/
def Kernel.markers (k : Kernel) : Set (Nat × Nat) := {p | MarkerAt k p.1 (indexToVaddr p.2)}

/-- The set of markers as pairs. -/
theorem mem_markers {k : Kernel} {mm vaddr : Nat} :
    (mm, vaddrToIndex vaddr) ∈ k.markers ↔ MarkerAt k mm vaddr :=
  ⟨fun h => h.congr (vaddrToIndex_indexToVaddr _).symm,
    fun h => h.congr (vaddrToIndex_indexToVaddr _)⟩

/-- In a safe walk the visit that attempts a marker brings its page back. -/
theorem WalkSafe.drained {codec : Codec} (n : Nat) {k : Kernel} {held : Nat → Nat → Page}
    {v : Visit} {vs : List Visit} (hold : v.UsesOld k.frames.next)
    (hsafe : WalkSafe codec k held (v :: vs)) (hattempts : v.attempts = true)
    (hm : MarkerAt k v.mm v.vaddr) :
    ∃ orig entry restored, drainVisit codec (n, k) v = (n + 1, k.drained v orig entry restored) ∧
      ¬MarkerAt (k.drained v orig entry restored) v.mm v.vaddr := by
  obtain ⟨-, orig, entry, visit, hpte, hlookup, hdecode, hvisit, hfinds⟩ :=
    hsafe v.mm v.vaddr hm
  have hfirst : firstAttempt (v :: vs) v.mm v.vaddr = some v := by
    apply List.find?_cons_of_pos
    simp [hattempts]
  rw [hfirst] at hvisit
  injection hvisit with hvisit
  subst hvisit
  have hmarker : orig.isMinimem = true := by
    obtain ⟨index, hindex⟩ := hm
    rw [hpte] at hindex
    injection hindex with hindex
    rw [hindex]
    rfl
  have hback := (pageSince_installPage k v.vma v.env.relock hpte hmarker le_rfl hold
    (held v.mm (vaddrToIndex v.vaddr))).2 ⟨hfinds, rfl⟩
  refine ⟨orig, entry, held v.mm (vaddrToIndex v.vaddr), ?_, ?_⟩
  · rcases drainVisit_cases codec n k v with ⟨-, hnone⟩ |
      ⟨orig', entry', -, hpte', -, hlookup', hcases⟩
    · rw [hnone hattempts hm] at hlookup
      cases hlookup
    · rw [hpte] at hpte'
      injection hpte' with hpte'
      rw [hlookup] at hlookup'
      injection hlookup' with hlookup'
      rw [← hpte', ← hlookup', hdecode] at hcases
      rcases hcases with ⟨hnone, -⟩ | ⟨page, hpage, hdone⟩
      · cases hnone
      · injection hpage with hpage
        rw [hdone, hpage]
  · intro hm'
    have hm'' : MarkerAt (k.installPage v.vma v.mm v.vaddr orig
      (held v.mm (vaddrToIndex v.vaddr)) v.env.relock) v.mm v.vaddr := hm'
    rw [pageSince_of_marker _ hm''] at hback
    cases hback

/-- A safe walk restores the marker that a visit attempts, and stays safe. -/
theorem WalkSafe.acts {codec : Codec} (n : Nat) {k : Kernel} (h : StorageOk k)
    {held : Nat → Nat → Page} {v : Visit} {vs : List Visit} (hold : v.UsesOld k.frames.next)
    (hsafe : WalkSafe codec k held (v :: vs)) (hattempts : v.attempts = true)
    (hm : MarkerAt k v.mm v.vaddr) :
    (drainVisit codec (n, k) v).1 = n + 1 ∧
      WalkSafe codec (drainVisit codec (n, k) v).2 held vs ∧
      k.markers = insert (v.mm, vaddrToIndex v.vaddr) (drainVisit codec (n, k) v).2.markers ∧
      (v.mm, vaddrToIndex v.vaddr) ∉ (drainVisit codec (n, k) v).2.markers := by
  obtain ⟨orig, entry, restored, hdone, hgone⟩ := hsafe.drained n hold hattempts hm
  have hgone' : ¬MarkerAt (drainVisit codec (n, k) v).2 v.mm v.vaddr := by
    rw [hdone]
    exact hgone
  have halone : ∀ mm, MarkerAt k mm v.vaddr → mm = v.mm := (hsafe v.mm v.vaddr hm).1
  have hkept := drainVisit_kept codec n h v
  have hleft : ∀ mm vaddr, MarkerAt (drainVisit codec (n, k) v).2 mm vaddr →
      MarkerAt k mm vaddr ∧ vaddrToIndex v.vaddr ≠ vaddrToIndex vaddr := by
    intro mm vaddr hm'
    have hold := hkept.marker mm vaddr hm'
    refine ⟨hold, ?_⟩
    intro hidx
    have hmm := halone mm (hold.congr hidx)
    subst hmm
    exact hgone' (hm'.congr hidx)
  refine ⟨by rw [hdone], ?_, ?_, ?_⟩
  · intro mm vaddr hm'
    obtain ⟨hold', hne⟩ := hleft mm vaddr hm'
    obtain ⟨halone', hrestorable⟩ := hsafe mm vaddr hold'
    have hpage : PageKept codec k (drainVisit codec (n, k) v).2 mm vaddr :=
      drainVisit_pageKept codec n h v mm fun _ hidx _ => absurd hidx hne
    rw [restorable_cons_of_kept (fun hat => hne hat.2.2) hpage] at hrestorable
    exact ⟨fun mm' hmm' => halone' mm' (hkept.marker mm' vaddr hmm'), hrestorable⟩
  · ext ⟨mm, index⟩
    rw [← vaddrToIndex_indexToVaddr index, Set.mem_insert_iff, mem_markers, mem_markers,
      Prod.mk.injEq]
    constructor
    · intro hm'
      by_cases hat : mm = v.mm ∧ vaddrToIndex (indexToVaddr index) = vaddrToIndex v.vaddr
      · exact .inl hat
      · right
        rw [hdone, MarkerAt, pteAt_drained_of_ne k v orig entry restored hat]
        exact hm'
    · rintro (⟨rfl, hidx⟩ | hm')
      · exact hm.congr hidx
      · exact (hleft mm _ hm').1
  · rw [mem_markers]
    exact hgone'

/-- A safe walk counts the markers. -/
theorem WalkSafe.count {codec : Codec} (n : Nat) {k : Kernel} (h : StorageOk k)
    {held : Nat → Nat → Page} {vs : List Visit} (hold : ∀ v ∈ vs, v.UsesOld k.frames.next)
    (hsafe : WalkSafe codec k held vs) :
    k.markers.Finite ∧ (vs.foldl (drainVisit codec) (n, k)).1 = n + k.markers.ncard := by
  induction vs generalizing n k with
  | nil =>
      have hempty : k.markers = ∅ := by
        rw [Set.eq_empty_iff_forall_notMem]
        intro p hp
        obtain ⟨-, orig, entry, visit, -, -, -, hvisit, -⟩ := hsafe _ _ hp
        cases hvisit
      simp [hempty]
  | cons v vs ih =>
      have hkept := drainVisit_kept codec n h v
      have hold' : ∀ w ∈ vs, w.UsesOld (drainVisit codec (n, k) v).2.frames.next := by
        intro w hw pfn write young dirty hrelock
        have hlt := hold w (List.mem_cons_of_mem v hw) pfn write young dirty hrelock
        exact Nat.lt_of_lt_of_le hlt hkept.next
      rw [List.foldl_cons]
      by_cases hacts : v.attempts = true ∧ MarkerAt k v.mm v.vaddr
      · obtain ⟨hn, hsafe', hmarkers, hnew⟩ :=
          hsafe.acts n h (hold v List.mem_cons_self) hacts.1 hacts.2
        obtain ⟨hfinite, hcount⟩ := ih (n + 1) hkept.storage hold' hsafe'
        have hpair : drainVisit codec (n, k) v = (n + 1, (drainVisit codec (n, k) v).2) :=
          Prod.ext hn rfl
        rw [hpair, hmarkers, hcount, Set.ncard_insert_of_notMem hnew hfinite]
        exact ⟨hfinite.insert _, by omega⟩
      · have hidle : drainVisit codec (n, k) v = (n, k) := by
          rcases drainVisit_cases codec n k v with ⟨hdone, -⟩ |
            ⟨orig, entry, hattempts, hpte, hmarker, -, -⟩
          · exact hdone
          · exact absurd ⟨hattempts, markerAt_of_isMinimem hpte hmarker⟩ hacts
        rw [hidle] at hkept hold' ⊢
        apply ih n h hold'
        intro mm vaddr hm
        obtain ⟨halone, hrestorable⟩ := hsafe mm vaddr hm
        refine ⟨halone, ?_⟩
        have hother : ¬(v.attempts = true ∧ v.mm = mm ∧
            vaddrToIndex v.vaddr = vaddrToIndex vaddr) := by
          rintro ⟨hattempts, rfl, hidx⟩
          exact hacts ⟨hattempts, hm.congr hidx⟩
        exact (restorable_cons_of_kept hother ⟨rfl, rfl, fun _ _ => rfl⟩).1 hrestorable

/-- Whatever the walk meets, it counts at least the markers that it leaves cleared: a visit
that changes a page-table entry has decoded the page and counts it. -/
theorem walk_cleared (codec : Codec) (vs : List Visit) (n : Nat) (k : Kernel) :
    (k.markers \ (vs.foldl (drainVisit codec) (n, k)).2.markers).Finite ∧
      n + (k.markers \ (vs.foldl (drainVisit codec) (n, k)).2.markers).ncard
        ≤ (vs.foldl (drainVisit codec) (n, k)).1 := by
  induction vs generalizing n k with
  | nil => simp
  | cons v vs ih =>
      rw [List.foldl_cons]
      rcases drainVisit_cases codec n k v with ⟨hdone, -⟩ |
        ⟨orig, entry, -, -, -, -, ⟨-, hdone⟩ | ⟨page, -, hdone⟩⟩
      · rw [hdone]
        exact ih n k
      · rw [hdone]
        exact ih n ((k.dropEntry v.vaddr entry.zsHandle).uncount entry.compressedLen)
      · rw [hdone]
        obtain ⟨hfinite, hcount⟩ := ih (n + 1) (k.drained v orig entry page)
        generalize (vs.foldl (drainVisit codec) (n + 1, k.drained v orig entry page)) = after
          at hfinite hcount ⊢
        have hsub : k.markers \ after.2.markers
            ⊆ insert (v.mm, vaddrToIndex v.vaddr)
              ((k.drained v orig entry page).markers \ after.2.markers) := by
          rintro ⟨mm, index⟩ hp
          by_cases hat : mm = v.mm ∧ index = vaddrToIndex v.vaddr
          · left
            rw [hat.1, hat.2]
          · right
            refine ⟨?_, hp.2⟩
            rw [← vaddrToIndex_indexToVaddr index] at hat
            show MarkerAt (k.drained v orig entry page) mm (indexToVaddr index)
            rw [MarkerAt, pteAt_drained_of_ne k v orig entry page hat]
            exact hp.1
        have hle := Set.ncard_le_ncard hsub (hfinite.insert _)
        have hinsert := Set.ncard_insert_le (v.mm, vaddrToIndex v.vaddr)
          ((k.drained v orig entry page).markers \ after.2.markers)
        exact ⟨(hfinite.insert _).subset hsub, by omega⟩

/-! ## Unload -/

/-- `minimem_zswap_drain_and_restore` and then `minimem_zswap_exit`. -/
def unload (codec : Codec) (tasks : List DrainTask) (k : Kernel) : Nat × Kernel :=
  match drainAndRestore codec tasks k with
  | (restored, k) => (restored, zswapExit k)

/-- The markers of `k` that map in `k'` a frame which `k` had not handed out: between the two
the walk made these entries present. -/
def Kernel.madePresent (k k' : Kernel) : Set (Nat × Nat) :=
  {p | p ∈ k.markers ∧ (k'.pageSince k.frames.next p.1 (indexToVaddr p.2)).isSome}

/-- Unload loses nothing: no marker is left, every page that was compressed shows what it
held, and the count returned is the number of entries that the walk made present. -/
structure UnloadOk (codec : Codec) (s : HeldState) (tasks : List DrainTask) : Prop where
  noMarker : ∀ mm vaddr, ¬MarkerAt (unload codec tasks s.kernel).2 mm vaddr
  restored : ∀ mm vaddr, MarkerAt s.kernel mm vaddr →
    (unload codec tasks s.kernel).2.pageAt mm vaddr = some (s.held mm (vaddrToIndex vaddr))
  count : (unload codec tasks s.kernel).1
    = (s.kernel.madePresent (unload codec tasks s.kernel).2).ncard

/-- Every marker is alone at its virtual page, its entry decodes to what the page held, and
the first visit that attempts it finds it again under the second PTE lock. -/
def UnloadSafe (codec : Codec) (s : HeldState) (tasks : List DrainTask) : Prop :=
  WalkSafe codec s.kernel s.held (s.kernel.visits tasks)

/-- Where every page is back and the count is right, the walk made every marker present. -/
theorem UnloadOk.madePresent {codec : Codec} {s : HeldState} {tasks : List DrainTask}
    (hok : UnloadOk codec s tasks)
    (hcleared : (s.kernel.markers \ (unload codec tasks s.kernel).2.markers).Finite ∧
      (s.kernel.markers \ (unload codec tasks s.kernel).2.markers).ncard
        ≤ (unload codec tasks s.kernel).1) :
    s.kernel.madePresent (unload codec tasks s.kernel).2 = s.kernel.markers := by
  have hall : s.kernel.markers \ (unload codec tasks s.kernel).2.markers = s.kernel.markers := by
    rw [sdiff_eq_left, Set.disjoint_left]
    intro p _ hp
    exact hok.noMarker _ _ hp
  rw [hall, hok.count] at hcleared
  exact Set.eq_of_subset_of_ncard_le (fun p hp => hp.1) hcleared.2 hcleared.1

/-- A page that is shown, by a frame from `first` on, is what those frames show. -/
theorem pageSince_of_pageAt {k : Kernel} {first mm vaddr : Nat} {page : Page}
    (hsome : (k.pageSince first mm vaddr).isSome) (hpage : k.pageAt mm vaddr = some page) :
    k.pageSince first mm vaddr = some page := by
  obtain ⟨shown, hshown⟩ := Option.isSome_iff_exists.1 hsome
  rw [pageAt_of_pageSince hshown] at hpage
  rw [hshown, hpage]

/-- With an empty map the walk does nothing, as the early return does. -/
theorem walk_empty (codec : Codec) (vs : List Visit) (n : Nat) {k : Kernel}
    (hempty : ∀ vaddr, mapLookup k.map vaddr = none) :
    vs.foldl (drainVisit codec) (n, k) = (n, k) := by
  induction vs with
  | nil => rfl
  | cons v vs ih =>
      rcases drainVisit_cases codec n k v with ⟨hdone, -⟩ | ⟨_, _, -, -, -, hlookup, -⟩
      · rw [List.foldl_cons, hdone, ih]
      · rw [hempty] at hlookup
        cases hlookup

/-- **The walk is its visits in a row**, since no visit changes the VMAs that the next ones come
from. -/
theorem drainAndRestore_eq (codec : Codec) (tasks : List DrainTask) {k : Kernel}
    (h : StorageOk k) :
    drainAndRestore codec tasks k = (k.visits tasks).foldl (drainVisit codec) (0, k) := by
  unfold drainAndRestore
  split
  next hcount =>
    have hsize := h.size_le_count
    rw [walk_empty codec (k.visits tasks)]
    intro vaddr
    by_contra hsome
    obtain ⟨entry, hload⟩ := Option.ne_none_iff_exists'.1 hsome
    have hpos := XArray.size_pos_of_load hload
    omega
  · exact drainProcess_foldl_eq codec tasks (0, k)

/-- Unload loses nothing exactly when the walk is safe, in every state whose storage is in
order. -/
theorem unloadOk_iff_of {codec : Codec} {s : HeldState} (h : StorageOk s.kernel)
    {tasks : List DrainTask}
    (hold : ∀ v ∈ s.kernel.visits tasks, v.UsesOld s.kernel.frames.next) :
    UnloadOk codec s tasks ↔ UnloadSafe codec s tasks := by
  have hunload : unload codec tasks s.kernel
      = (((s.kernel.visits tasks).foldl (drainVisit codec) (0, s.kernel)).1,
        zswapExit ((s.kernel.visits tasks).foldl (drainVisit codec) (0, s.kernel)).2) := by
    rw [unload, drainAndRestore_eq codec tasks h]
  have hwalk := walk_restores_iff codec (s.kernel.visits tasks) 0 h s.held hold
  constructor
  · intro hok
    have hcleared := walk_cleared codec (s.kernel.visits tasks) 0 s.kernel
    rw [Nat.zero_add] at hcleared
    have hmade := hok.madePresent (by rw [hunload]; exact hcleared)
    apply hwalk.1
    intro mm vaddr hm
    have hpage := hok.restored mm vaddr hm
    have hsome : (mm, vaddrToIndex vaddr) ∈ s.kernel.madePresent
        (unload codec tasks s.kernel).2 := by
      rw [hmade, mem_markers]
      exact hm
    rw [Kernel.pageAt_index] at hpage
    have hsince := pageSince_of_pageAt hsome.2 hpage
    rw [hunload, ← Kernel.pageSince_index] at hsince
    exact hsince
  · intro hsafe
    have hsince : ∀ mm vaddr, MarkerAt s.kernel mm vaddr →
        (unload codec tasks s.kernel).2.pageSince s.kernel.frames.next mm vaddr
          = some (s.held mm (vaddrToIndex vaddr)) := by
      intro mm vaddr hm
      rw [hunload]
      exact hwalk.2 hsafe mm vaddr hm
    refine ⟨?_, fun mm vaddr hm => pageAt_of_pageSince (hsince mm vaddr hm), ?_⟩
    · intro mm vaddr hm
      have hpage := hsince mm vaddr (by
        rw [hunload] at hm
        exact walk_marker codec (s.kernel.visits tasks) 0 h hm)
      rw [pageSince_of_marker _ hm] at hpage
      cases hpage
    · have hall : s.kernel.madePresent (unload codec tasks s.kernel).2 = s.kernel.markers := by
        ext p
        refine ⟨fun hp => hp.1, fun hp => ⟨hp, ?_⟩⟩
        rw [hsince p.1 _ hp]
        rfl
      rw [hall, hunload, (WalkSafe.count 0 h hold hsafe).2, Nat.zero_add]

/-- **Unload loses nothing** in a reachable state, whichever steps of the walk fail, exactly
when every marker is alone at its virtual page, its entry decodes to what the page held, and
the first visit that attempts it finds it under the second PTE lock. -/
theorem unloadOk_iff {codec : Codec} {mms : Nat → Mm} {frames : Frames}
    {maxPoolPages minSavingsPct : Int} {symbolsResolved : Bool} {held : Nat → Nat → Page}
    {ops : List Op} {s : HeldState}
    (hrun : Run (heldStep codec) (fun _ _ => True)
      ⟨.loaded mms frames maxPoolPages minSavingsPct symbolsResolved, held⟩ ops s)
    {tasks : List DrainTask}
    (hold : ∀ v ∈ s.kernel.visits tasks, v.UsesOld s.kernel.frames.next) :
    UnloadOk codec s tasks ↔ UnloadSafe codec s tasks := by
  have hkeep : ∀ (s : HeldState) (op : Op) (s' : HeldState), StorageOk s.kernel → True →
      heldStep codec s op = some s' → StorageOk s'.kernel := by
    rintro s op s' h - hstep
    injection hstep with hstep
    rw [← hstep]
    exact storageOk_exec h op
  have hstorage : (fun s : HeldState => StorageOk s.kernel) s :=
    hrun.invariant hkeep (storageOk_loaded mms frames _ _ _)
  exact unloadOk_iff_of hstorage hold

/-! ## One compressed page -/

/-- Address space 0 maps a page of ones at `0x1000`, in a VMA that is anonymous or not. -/
def oneVma (anonymous : Bool) : HeldState where
  kernel := .loaded
    (fun mm => ⟨fun vpn => if mm = 0 ∧ vpn = 1 then some (.present 0 true true true) else none,
      [⟨0x1000, 0x2000, anonymous, true, false, false, false, false⟩], 1⟩)
    ⟨fun _ => Page.fill 1, fun _ => 1, 1⟩ 0 0 true
  held _ _ := Page.fill 0

/-- `oneVma` after the page is compressed. -/
def oneVmaReplaced (anonymous : Bool) : HeldState where
  kernel := (oneVma anonymous).kernel.replaced 0 0x1000 0 .samePage [1]
  held := recordPage (oneVma anonymous).kernel (oneVma anonymous).held 0 0x1000

/-- The only process, all of whose steps succeed. -/
def oneTask : DrainTask := ⟨some 0, true, true, fun _ => ⟨true, true, true, true, .same⟩⟩

/-- The page is compressed in one step. -/
theorem run_oneVma (anonymous : Bool) :
    Run (heldStep samePageCodec) (fun _ _ => True) (oneVma anonymous) [.replace .ok 0 0x1000]
      (oneVmaReplaced anonymous) := by
  have hdone : compressAndReplacePte samePageCodec .ok (oneVma anonymous).kernel 0 0x1000
      = (0, (oneVmaReplaced anonymous).kernel) :=
    compressAndReplacePte_fill (fun _ _ => rfl) rfl rfl rfl rfl
  have hstep : heldStep samePageCodec (oneVma anonymous) (.replace .ok 0 0x1000)
      = some (oneVmaReplaced anonymous) := by
    simp only [heldStep, exec, hdone, if_true]
    rfl
  exact .cons hstep trivial (.nil _)

/-- Its marker is the only one. -/
theorem markerAt_oneVmaReplaced {anonymous : Bool} {mm vaddr : Nat}
    (hm : MarkerAt (oneVmaReplaced anonymous).kernel mm vaddr) :
    mm = 0 ∧ vaddrToIndex vaddr = 1 := by
  have hm' : MarkerAt ((oneVma anonymous).kernel.replaced 0 (pageMask 0x1000) 0 .samePage [1]) mm
      vaddr := hm
  rcases markerAt_replaced hm' with hat | ⟨-, index, hindex⟩
  · exact hat
  · simp only [Kernel.pteAt, oneVma, Kernel.loaded] at hindex
    split at hindex <;> cases hindex

/-- The walk visits that page if the VMA is anonymous. -/
theorem visits_oneVma_anonymous : (oneVmaReplaced true).kernel.visits [oneTask]
    = [⟨⟨true, true, true, true, .same⟩, ⟨0x1000, 0x2000, true, true, false, false, false, false⟩, 0,
      0x1000⟩] := rfl

/-- The page of an anonymous VMA survives unload. -/
theorem unloadOk_oneVma_anonymous : UnloadOk samePageCodec (oneVmaReplaced true) [oneTask] := by
  have hold : ∀ v ∈ (oneVmaReplaced true).kernel.visits [oneTask],
      v.UsesOld (oneVmaReplaced true).kernel.frames.next := by
    rw [visits_oneVma_anonymous]
    intro v hv pfn write young dirty hrelock
    rw [List.mem_singleton] at hv
    subst hv
    cases hrelock
  rw [unloadOk_iff (run_oneVma true) hold]
  intro mm vaddr hm
  obtain ⟨rfl, hidx⟩ := markerAt_oneVmaReplaced hm
  refine ⟨fun mm' hm' => (markerAt_oneVmaReplaced hm').1, ?_⟩
  rw [visits_oneVma_anonymous, hidx,
    ← Restorable.congr (show vaddrToIndex 0x1000 = _ from hidx.symm)]
  refine ⟨.marker 1, ⟨.samePage, 1, 1⟩, _, rfl, ?_, rfl, rfl, trivial⟩
  rw [mapLookup, oneVmaReplaced, map_replaced, load_addEntry]
  rfl

/-- The page of a file-backed VMA, compressed through `compress_vaddr`, does not. -/
theorem not_unloadOk_oneVma_file :
    Run (heldStep samePageCodec) (fun _ _ => True) (oneVma false) [.replace .ok 0 0x1000]
      (oneVmaReplaced false) ∧
    ¬UnloadOk samePageCodec (oneVmaReplaced false) [oneTask] := by
  refine ⟨run_oneVma false, ?_⟩
  intro hok
  exact hok.noMarker 0 0x1000 ⟨1, rfl⟩

end MiniMem
