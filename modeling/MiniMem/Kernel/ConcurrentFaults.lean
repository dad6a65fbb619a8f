import MiniMem.Kernel.AddressSpaces
import MiniMem.Kernel.Threads

/-!
# MiniMem.Kernel.ConcurrentFaults

Several threads of one process that fault on the same marker.  The first one
to get there takes the entry and its object away; a thread that comes to
look for either too late ends in `VM_FAULT_SIGBUS`, although its page is
there or about to be.
-/

namespace MiniMem

/-! ## The race -/

/-- A fault like `vmf` at another address of its page. -/
def FaultInfo.moved (vmf : FaultInfo) (address : Nat) : FaultInfo := { vmf with address := address }

/-- One fault on the same marker for each element of `threads`, which says whether the kernel
is a stock one and at which address of the page the fault is; all allocations succeed. -/
def faultTasks (vmf : FaultInfo) (threads : List (Bool × Nat)) : List Task :=
  threads.map fun thread => .fault thread.1 .ok (vmf.moved thread.2)

/-- The thread has removed the map entry. -/
def TaskPc.pastRemove : TaskPc → Bool
  | .removed _ _ => true
  | .freed _ => true
  | .done (some .nopage) => true
  | _ => false

/-- The thread has freed the object. -/
def TaskPc.pastFree : TaskPc → Bool
  | .freed _ => true
  | .done (some .nopage) => true
  | _ => false

/-- The thread has handled its fault. -/
def TaskPc.handled : TaskPc → Bool
  | .done (some .nopage) => true
  | _ => false

/-- No thread has ended in `VM_FAULT_SIGBUS`, and once all have ended the page shows at the
address. -/
def FaultsOk (vmf : FaultInfo) (page : Page) (n : Nat) (s : ThreadState) : Prop :=
  (∀ i < n, s.pcs i ≠ .done (some .sigbus)) ∧
    ((∀ i < n, ∃ result, s.pcs i = .done result) →
      s.kernel.pageAt vmf.mm vmf.address = some page)

/-- A thread does its lookup while no other has removed the entry, and reads the object
while no other has freed it. -/
def InTime (n : Nat) (s : ThreadState) (i : Nat) : Prop :=
  i < n → (s.pcs i = .start → ∀ j < n, (s.pcs j).pastRemove = false) ∧
    ((∃ entry, s.pcs i = .looked entry) → ∀ j < n, (s.pcs j).pastFree = false)

/-- A thread that has read the object is no longer late. -/
theorem inTime_of_read {n : Nat} {s : ThreadState} {i : Nat} (hstart : s.pcs i ≠ .start)
    (hlooked : ∀ entry, s.pcs i ≠ .looked entry) : InTime n s i := fun _ =>
  ⟨fun h => absurd h hstart, fun ⟨entry, h⟩ => absurd h (hlooked entry)⟩

/-- Before any thread has removed the entry, none is late. -/
theorem inTime_of_mapped {n : Nat} {s : ThreadState} {i : Nat}
    (h : ∀ j < n, (s.pcs j).pastRemove = false ∧ (s.pcs j).pastFree = false) : InTime n s i :=
  fun _ => ⟨fun _ j hj => (h j hj).1, fun _ j hj => (h j hj).2⟩

/-! ## Before and after some thread has passed a point -/

/-- Until some thread has passed a point `before` holds, from then on `after`. -/
def Phase (passed : TaskPc → Bool) (n : Nat) (pcs : Nat → TaskPc) (before after : Prop) : Prop :=
  (before ∧ ∀ j < n, passed (pcs j) = false) ∨ (after ∧ ∃ j < n, passed (pcs j) = true)

section Phase

variable {passed : TaskPc → Bool} {n i : Nat} {pcs : Nat → TaskPc} {pc : TaskPc}
  {old : TaskPc} {before after before' after' : Prop}

/-- A step of a thread that does not pass the point. -/
theorem Phase.stay (h : Phase passed n pcs before after) (hold : pcs i = old)
    (hpassed : passed pc = passed old) (hbefore : before → before') (hafter : after → after') :
    Phase passed n (Function.update pcs i pc) before' after' := by
  have hsame : ∀ j, passed (Function.update pcs i pc j) = passed (pcs j) := by
    intro j
    by_cases hji : j = i
    · rw [hji, Function.update_self, hpassed, hold]
    · rw [Function.update_of_ne hji]
  simp only [Phase, hsame]
  exact h.imp (And.imp_left hbefore) (And.imp_left hafter)

/-- A step of a thread that passes the point. -/
theorem Phase.pass (hi : i < n) (hpassed : passed pc = true) (hafter : after') :
    Phase passed n (Function.update pcs i pc) before' after' :=
  .inr ⟨hafter, i, hi, by rw [Function.update_self, hpassed]⟩

end Phase

/-! ## The invariant -/

/-- Where a thread in the race can be. -/
inductive RacePc (entry : MapEntry) (page : Page) : TaskPc → Prop
  | start : RacePc entry page .start
  | looked : RacePc entry page (.looked entry)
  | decompressed : RacePc entry page (.decompressed entry page)
  | removed : RacePc entry page (.removed entry (some page))
  | freed : RacePc entry page (.freed page)
  | handled : RacePc entry page (.done (some .nopage))
  | missed : RacePc entry page (.done (some .sigbus))

/-- The entry is mapped until some thread removes it, the object there until some thread
frees it, and the marker in place until some thread maps the page. -/
structure RaceInv (codec : Codec) (vmf : FaultInfo) (entry : MapEntry) (page : Page) (n : Nat)
    (s : ThreadState) : Prop where
  rwsem : s.rwsem = none
  resolved : s.kernel.symbolsResolved = true
  pcs : ∀ i < n, RacePc entry page (s.pcs i)
  mapped : Phase TaskPc.pastRemove n s.pcs (mapLookup s.kernel.map vmf.address = some entry)
    (mapLookup s.kernel.map vmf.address = none)
  object : Phase TaskPc.pastFree n s.pcs (s.kernel.decode codec entry = some page)
    (s.kernel.decode codec entry = none)
  pte : Phase TaskPc.handled n s.pcs (s.kernel.pteAt vmf.mm vmf.address = some vmf.origPte)
    (s.kernel.pageAt vmf.mm vmf.address = some page)

/-- In the race, everything is well exactly when no thread has missed. -/
theorem RaceInv.faultsOk_iff {codec : Codec} {vmf : FaultInfo} {entry : MapEntry} {page : Page}
    {n : Nat} (hn : 0 < n) {s : ThreadState} (h : RaceInv codec vmf entry page n s) :
    FaultsOk vmf page n s ↔ ∀ i < n, s.pcs i ≠ .done (some .sigbus) := by
  refine ⟨fun hok => hok.1, fun hmiss => ⟨hmiss, fun hdone => ?_⟩⟩
  have hhandled : (s.pcs 0).handled = true := by
    obtain ⟨result, hresult⟩ := hdone 0 hn
    have hpc := h.pcs 0 hn
    have hne := hmiss 0 hn
    rw [hresult] at hpc hne ⊢
    cases hpc with
    | handled => rfl
    | missed => exact absurd rfl hne
  rcases h.pte with ⟨-, hnone⟩ | ⟨hpage, -⟩
  · rw [hnone 0 hn] at hhandled
    cases hhandled
  · exact hpage

/-! ## One step in the race -/

/-- A thread steps and leaves the kernel in order. -/
theorem RaceInv.advance {codec : Codec} {vmf : FaultInfo} {entry : MapEntry} {page : Page}
    {n i : Nat} {s : ThreadState} (h : RaceInv codec vmf entry page n s) {k : Kernel} {pc : TaskPc}
    (trace : List PoolEvent) (hpc : RacePc entry page pc) (hresolved : k.symbolsResolved = true)
    (hmapped : Phase TaskPc.pastRemove n (Function.update s.pcs i pc)
      (mapLookup k.map vmf.address = some entry) (mapLookup k.map vmf.address = none))
    (hobject : Phase TaskPc.pastFree n (Function.update s.pcs i pc)
      (k.decode codec entry = some page) (k.decode codec entry = none))
    (hpte : Phase TaskPc.handled n (Function.update s.pcs i pc)
      (k.pteAt vmf.mm vmf.address = some vmf.origPte)
      (k.pageAt vmf.mm vmf.address = some page)) :
    RaceInv codec vmf entry page n ⟨k, none, Function.update s.pcs i pc, trace⟩ where
  rwsem := rfl
  resolved := hresolved
  pcs := by
    intro j hj
    dsimp only
    by_cases hji : j = i
    · rw [hji, Function.update_self]
      exact hpc
    · rw [Function.update_of_ne hji]
      exact h.pcs j hj
  mapped := hmapped
  object := hobject
  pte := hpte

/-- A thread steps past none of the points, and the kernel shows the same map, pool and page
tables. -/
theorem RaceInv.idle {codec : Codec} {vmf : FaultInfo} {entry : MapEntry} {page : Page}
    {n i : Nat} {s : ThreadState} (h : RaceInv codec vmf entry page n s) {pc old : TaskPc}
    (k : Kernel) (trace : List PoolEvent) (hpc : RacePc entry page pc)
    (hk : ∃ stats, k = { s.kernel with stats := stats }) (hold : s.pcs i = old)
    (hremove : pc.pastRemove = old.pastRemove) (hfree : pc.pastFree = old.pastFree)
    (hhandled : pc.handled = old.handled) :
    RaceInv codec vmf entry page n ⟨k, none, Function.update s.pcs i pc, trace⟩ := by
  obtain ⟨stats, rfl⟩ := hk
  exact h.advance trace hpc h.resolved (h.mapped.stay hold hremove id id)
    (h.object.stay hold hfree id id) (h.pte.stay hold hhandled id id)

/-- All addresses of a page share one entry of the map and one of the page table. -/
theorem samePage_congr (k : Kernel) (mm : Nat) {vaddr vaddr' : Nat}
    (h : vaddrToIndex vaddr = vaddrToIndex vaddr') :
    mapLookup k.map vaddr = mapLookup k.map vaddr' ∧ k.pteAt mm vaddr = k.pteAt mm vaddr' ∧
      k.pageAt mm vaddr = k.pageAt mm vaddr' := by
  simp only [mapLookup, Kernel.pageAt, Kernel.pteAt, h, and_self]

section Turns

variable {codec : Codec} {k : Kernel} {vmf : FaultInfo} {entry : MapEntry} {page : Page}
  (stock : Bool) (i : Nat) {address : Nat}

/-- The lookup of a fault: it misses when there is no entry. -/
theorem turn_start (hresolved : k.symbolsResolved = true)
    (hmarker : vmf.origPte.isMinimem = true)
    (hindex : vaddrToIndex address = vaddrToIndex vmf.address) :
    turn codec none i k (.fault stock .ok (vmf.moved address)) .start
      = some (match mapLookup k.map vmf.address with
        | none => ⟨k.faultMissed, none, .done (some .sigbus), none⟩
        | some entry => ⟨k, none, .looked entry, none⟩) := by
  simp only [turn, lookupTurn, FaultInfo.moved, hresolved, hmarker, mapLookup_pageMask, FaultEnv.ok,
    (samePage_congr k vmf.mm hindex).1]
  cases mapLookup k.map vmf.address <;> rfl

/-- Reading the object: it misses when there is none. -/
theorem turn_looked :
    turn codec none i k (.fault stock .ok (vmf.moved address)) (.looked entry)
      = some (match k.decode codec entry with
        | none => ⟨k.faultMissed, none, .done (some .sigbus), some (.read entry.zsHandle)⟩
        | some page => ⟨k, none, .decompressed entry page, some (.read entry.zsHandle)⟩) := by
  simp only [turn, lookedTurn, FaultEnv.ok]
  cases k.decode codec entry <;> rfl

theorem turn_decompressed :
    turn codec none i k (.fault stock .ok (vmf.moved address)) (.decompressed entry page)
      = some ⟨{ k with map := (mapRemove k.map (pageMask address)).2 }, none,
        .removed entry (some page), none⟩ := rfl

theorem turn_removed :
    turn codec none i k (.fault stock .ok (vmf.moved address)) (.removed entry (some page))
      = some ⟨{ k with pool := k.pool.free entry.zsHandle }, none, .freed page,
        some (.free entry.zsHandle)⟩ := rfl

theorem turn_freed :
    turn codec none i k (.fault stock .ok (vmf.moved address)) (.freed page)
      = some ⟨(k.installPage vmf.vma vmf.mm address vmf.origPte page .same).faultHandled, none,
        .done (some .nopage), none⟩ := rfl

end Turns

theorem symbolsResolved_installPage (k : Kernel) (vma : Vma) (mm vaddr : Nat) (orig : Pte)
    (page : Page) (relock : Relock) :
    (k.installPage vma mm vaddr orig page relock).symbolsResolved = k.symbolsResolved := by
  rw [installPage_eq]
  cases relock <;> split <;> rfl

/-- After an undisturbed install the page is there, whether this thread mapped it or it was
mapped before. -/
theorem pageAt_installPage_same {k : Kernel} (vma : Vma) {mm vaddr : Nat} {orig : Pte} {page : Page}
    (hmarker : orig.isMinimem = true)
    (h : k.pteAt mm vaddr = some orig ∨ k.pageAt mm vaddr = some page) :
    (k.installPage vma mm vaddr orig page .same).pageAt mm vaddr = some page := by
  rw [installPage_eq, Kernel.relock]
  rcases h with hpte | hpage
  · rw [if_pos hpte]
    exact pageAt_mapNewPage_self k vma mm vaddr page
  · have hne : k.pteAt mm vaddr ≠ some orig := by
      intro hpte
      rw [pageAt_of_marker (markerAt_of_isMinimem hpte hmarker)] at hpage
      cases hpage
    rw [if_neg hne]
    exact hpage

section Steps

variable {codec : Codec} {vmf : FaultInfo} {entry : MapEntry} {page : Page} {n i : Nat}
  {s : ThreadState} {address : Nat} {t : Turn} (stock : Bool) (trace : List PoolEvent)

/-- The lookup finds the entry until some thread has removed it. -/
theorem RaceInv.start (h : RaceInv codec vmf entry page n s) (hi : i < n)
    (hmarker : vmf.origPte.isMinimem = true)
    (hindex : vaddrToIndex address = vaddrToIndex vmf.address) (hpc : s.pcs i = .start)
    (ht : turn codec none i s.kernel (.fault stock .ok (vmf.moved address)) .start = some t) :
    RaceInv codec vmf entry page n ⟨t.kernel, t.rwsem, Function.update s.pcs i t.pc, trace⟩ ∧
      (t.pc = .done (some .sigbus) ↔ ¬InTime n s i) := by
  have hintime : InTime n s i ↔ ∀ j < n, (s.pcs j).pastRemove = false := by
    simp [InTime, hi, hpc]
  rw [turn_start stock i h.resolved hmarker hindex, Option.some.injEq] at ht
  subst ht
  rw [hintime]
  rcases h.mapped with ⟨hlookup, hnone⟩ | ⟨hlookup, j, hj, hremoved⟩
  · rw [hlookup]
    refine ⟨h.idle _ _ .looked ⟨_, rfl⟩ hpc rfl rfl rfl, ?_⟩
    simpa using hnone
  · rw [hlookup]
    refine ⟨h.idle _ _ .missed ⟨_, rfl⟩ hpc rfl rfl rfl, ?_⟩
    simpa using ⟨j, hj, hremoved⟩

/-- The object can be read until some thread has freed it. -/
theorem RaceInv.looked (h : RaceInv codec vmf entry page n s) (hi : i < n)
    (hpc : s.pcs i = .looked entry)
    (ht : turn codec none i s.kernel (.fault stock .ok (vmf.moved address)) (.looked entry)
      = some t) :
    RaceInv codec vmf entry page n ⟨t.kernel, t.rwsem, Function.update s.pcs i t.pc, trace⟩ ∧
      (t.pc = .done (some .sigbus) ↔ ¬InTime n s i) := by
  have hintime : InTime n s i ↔ ∀ j < n, (s.pcs j).pastFree = false := by
    simp [InTime, hi, hpc]
  rw [turn_looked, Option.some.injEq] at ht
  subst ht
  rw [hintime]
  rcases h.object with ⟨hdecode, hnone⟩ | ⟨hdecode, j, hj, hfreed⟩
  · rw [hdecode]
    refine ⟨h.idle _ _ .decompressed ⟨_, rfl⟩ hpc rfl rfl rfl, ?_⟩
    simpa using hnone
  · rw [hdecode]
    refine ⟨h.idle _ _ .missed ⟨_, rfl⟩ hpc rfl rfl rfl, ?_⟩
    simpa using ⟨j, hj, hfreed⟩

/-- A removal leaves no entry, whoever did it first. -/
theorem RaceInv.remove (h : RaceInv codec vmf entry page n s) (hi : i < n)
    (hindex : vaddrToIndex address = vaddrToIndex vmf.address)
    (hpc : s.pcs i = .decompressed entry page) :
    RaceInv codec vmf entry page n
      ⟨{ s.kernel with map := (mapRemove s.kernel.map (pageMask address)).2 }, none,
        Function.update s.pcs i (.removed entry (some page)), trace⟩ := by
  have hlookup : mapLookup (mapRemove s.kernel.map (pageMask address)).2 vmf.address = none := by
    rw [mapLookup, load_mapRemove, vaddrToIndex_pageMask, hindex, if_pos rfl]
  apply h.advance trace .removed
  · exact h.resolved
  · exact .pass hi rfl hlookup
  · exact h.object.stay hpc rfl id id
  · exact h.pte.stay hpc rfl id id

/-- A free leaves no object, whoever did it first. -/
theorem RaceInv.free (h : RaceInv codec vmf entry page n s) (hi : i < n)
    (hpc : s.pcs i = .removed entry (some page)) :
    RaceInv codec vmf entry page n
      ⟨{ s.kernel with pool := s.kernel.pool.free entry.zsHandle }, none,
        Function.update s.pcs i (.freed page), trace⟩ := by
  have hdecode : ({ s.kernel with pool := s.kernel.pool.free entry.zsHandle } : Kernel).decode
      codec entry = none := by
    rw [Kernel.decode, objs_free, if_pos rfl]
  apply h.advance trace .freed
  · exact h.resolved
  · exact h.mapped.stay hpc rfl id id
  · exact .pass hi rfl hdecode
  · exact h.pte.stay hpc rfl id id

/-- The install leaves the page mapped, whoever mapped it first. -/
theorem RaceInv.install (h : RaceInv codec vmf entry page n s) (hi : i < n)
    (hmarker : vmf.origPte.isMinimem = true)
    (hindex : vaddrToIndex address = vaddrToIndex vmf.address) (hpc : s.pcs i = .freed page) :
    RaceInv codec vmf entry page n
      ⟨(s.kernel.installPage vmf.vma vmf.mm address vmf.origPte page .same).faultHandled, none,
        Function.update s.pcs i (.done (some .nopage)), trace⟩ := by
  obtain ⟨-, hpte, hpage⟩ := samePage_congr s.kernel vmf.mm hindex
  have hinstalled : (s.kernel.installPage vmf.vma vmf.mm address vmf.origPte page
      .same).pageAt vmf.mm vmf.address = some page := by
    rw [← (samePage_congr _ vmf.mm hindex).2.2]
    apply pageAt_installPage_same vmf.vma hmarker
    rw [hpte, hpage]
    exact h.pte.imp And.left And.left
  apply h.advance trace .handled
  · rw [Kernel.faultHandled, symbolsResolved_installPage]
    exact h.resolved
  · rw [Kernel.faultHandled, map_installPage]
    exact h.mapped.stay hpc rfl id id
  · rw [Kernel.faultHandled, Kernel.decode, pool_installPage]
    exact h.object.stay hpc rfl id id
  · exact .pass hi rfl hinstalled

end Steps

/-- A step of one thread in the race keeps the invariant, and the thread misses exactly when
it comes too late. -/
theorem RaceInv.step {codec : Codec} {vmf : FaultInfo} {entry : MapEntry} {page : Page}
    {threads : List (Bool × Nat)}
    (hpage : ∀ thread ∈ threads, vaddrToIndex thread.2 = vaddrToIndex vmf.address)
    (hmarker : vmf.origPte.isMinimem = true) {s s' : ThreadState} {i : Nat}
    (h : RaceInv codec vmf entry page threads.length s)
    (hstep : threadStep codec (faultTasks vmf threads) s i = some s') :
    RaceInv codec vmf entry page threads.length s' ∧
      i < threads.length ∧ ∃ pc, s'.pcs = Function.update s.pcs i pc ∧
        (pc = .done (some .sigbus) ↔ ¬InTime threads.length s i) := by
  unfold threadStep at hstep
  split at hstep
  · cases hstep
  next task htask =>
    split at hstep
    · cases hstep
    next t ht =>
      injection hstep with hstep
      subst hstep
      rw [faultTasks, List.getElem?_map, Option.map_eq_some_iff] at htask
      obtain ⟨⟨stock, address⟩, hthread, rfl⟩ := htask
      have hi : i < threads.length := (List.getElem?_eq_some_iff.1 hthread).1
      have hindex : vaddrToIndex address = vaddrToIndex vmf.address :=
        hpage (stock, address) (List.mem_of_getElem? hthread)
      rw [h.rwsem] at ht
      have hpc := h.pcs i hi
      have hread := inTime_of_read (n := threads.length) (s := s) (i := i)
      generalize hcase : s.pcs i = pc at hpc ht hread
      cases hpc with
      | start =>
          obtain ⟨hinv, hmiss⟩ :=
            h.start stock (t.event.toList ++ s.trace) hi hmarker hindex hcase ht
          exact ⟨hinv, hi, t.pc, rfl, hmiss⟩
      | looked =>
          obtain ⟨hinv, hmiss⟩ := h.looked stock (t.event.toList ++ s.trace) hi hcase ht
          exact ⟨hinv, hi, t.pc, rfl, hmiss⟩
      | decompressed =>
          rw [turn_decompressed, Option.some.injEq] at ht
          subst ht
          exact ⟨h.remove _ hi hindex hcase, hi, _, rfl, by simp [hread]⟩
      | removed =>
          rw [turn_removed, Option.some.injEq] at ht
          subst ht
          exact ⟨h.free _ hi hcase, hi, _, rfl, by simp [hread]⟩
      | freed =>
          rw [turn_freed, Option.some.injEq] at ht
          subst ht
          exact ⟨h.install _ hi hmarker hindex hcase, hi, _, rfl, by simp [hread]⟩
      | handled => cases ht
      | missed => cases ht

/-! ## Whole runs -/

/-- In the race, a thread that has its lookup or its read to do can do it. -/
theorem RaceInv.inTime {codec : Codec} {vmf : FaultInfo} {entry : MapEntry} {page : Page}
    {threads : List (Bool × Nat)}
    (hpage : ∀ thread ∈ threads, vaddrToIndex thread.2 = vaddrToIndex vmf.address)
    (hmarker : vmf.origPte.isMinimem = true) {s : ThreadState} {i : Nat}
    (h : RaceInv codec vmf entry page threads.length s)
    (hstep : threadStep codec (faultTasks vmf threads) s i = none) : InTime threads.length s i := by
  intro hi
  have htask : (faultTasks vmf threads)[i]?
      = some (.fault threads[i].1 .ok (vmf.moved threads[i].2)) := by
    simp [faultTasks, hi]
  have hindex := hpage _ (List.getElem_mem hi)
  simp only [threadStep, htask, h.rwsem] at hstep
  constructor
  · intro hstart
    simp only [hstart, turn_start _ i h.resolved hmarker hindex] at hstep
    cases hstep
  · rintro ⟨entry, hlooked⟩
    simp only [hlooked, turn_looked] at hstep
    cases hstep

/-- Any number of faults on one compressed page go well, along any schedule, exactly when
each does its lookup before any other has removed the entry and reads the object before any
other has freed it. -/
theorem faultsOk_iff_inTime {codec : Codec} {vmf : FaultInfo} {entry : MapEntry} {page : Page}
    {k : Kernel} {threads : List (Bool × Nat)} (hthreads : threads ≠ [])
    (hpage : ∀ thread ∈ threads, vaddrToIndex thread.2 = vaddrToIndex vmf.address)
    (hresolved : k.symbolsResolved = true) (hmarker : vmf.origPte.isMinimem = true)
    (hpte : k.pteAt vmf.mm vmf.address = some vmf.origPte)
    (hlookup : mapLookup k.map vmf.address = some entry)
    (hdecode : k.decode codec entry = some page) (schedule : List Nat) :
    Along (threadStep codec (faultTasks vmf threads)) (FaultsOk vmf page threads.length) (.init k)
        schedule ↔
      Guarded (threadStep codec (faultTasks vmf threads)) (InTime threads.length) (.init k)
        schedule := by
  have hn : 0 < threads.length := List.length_pos_iff.2 hthreads
  have hinit : RaceInv codec vmf entry page threads.length (.init k) :=
    ⟨rfl, hresolved, fun _ _ => .start, .inl ⟨hlookup, fun _ _ => rfl⟩,
      .inl ⟨hdecode, fun _ _ => rfl⟩, .inl ⟨hpte, fun _ _ => rfl⟩⟩
  have hok : FaultsOk vmf page threads.length (.init k) := by
    rw [hinit.faultsOk_iff hn]
    intro i _ h
    cases h
  refine along_iff_guarded (fun s i hI hstep => hI.inTime hpage hmarker hstep)
    (fun s i s' hI hstep => (hI.step hpage hmarker hstep).1) ?_ schedule hok hinit
  intro s i s' hok hI hstep
  obtain ⟨hI', hi, pc, hpcs, hpc⟩ := hI.step hpage hmarker hstep
  rw [hI'.faultsOk_iff hn, hpcs, ← not_not (a := InTime _ _ _), ← hpc]
  constructor
  · intro hmiss
    have hself := hmiss i hi
    rwa [Function.update_self] at hself
  · intro hself j hj
    by_cases hji : j = i
    · rw [hji, Function.update_self]
      exact hself
    · rw [Function.update_of_ne hji]
      exact hok.1 j hj

/-! ## Two faults -/

theorem mapLookup_firstReplaced :
    mapLookup firstReplaced.kernel.map firstFault.address = some ⟨.samePage, 1, 1⟩ := by
  rw [mapLookup, firstReplaced, map_replaced, load_addEntry]
  rfl

/-- Two faults of which each reads the object before either removes the entry. -/
theorem faultsOk_pair :
    Along (threadStep samePageCodec (faultTasks firstFault [(true, 0x1000), (false, 0x1008)]))
      (FaultsOk firstFault (Page.fill 1) 2) (.init firstReplaced.kernel)
      [0, 1, 0, 1, 0, 0, 0, 1, 1, 1] := by
  have hmapped : ∀ {s : ThreadState} {i : Nat}, (s.pcs 0).pastRemove = false →
      (s.pcs 0).pastFree = false → (s.pcs 1).pastRemove = false → (s.pcs 1).pastFree = false →
      InTime 2 s i := by
    intro s i h0 h0' h1 h1'
    apply inTime_of_mapped
    intro j hj
    match j, hj with
    | 0, _ => exact ⟨h0, h0'⟩
    | 1, _ => exact ⟨h1, h1'⟩
  have hread : ∀ {s : ThreadState} {i : Nat} {pc : TaskPc}, s.pcs i = pc → pc ≠ .start →
      (∀ entry, pc ≠ .looked entry) → InTime 2 s i := by
    intro s i pc hpc hstart hlooked
    rw [← hpc] at hstart hlooked
    exact inTime_of_read hstart hlooked
  refine (faultsOk_iff_inTime (by simp) (by decide) rfl rfl rfl mapLookup_firstReplaced rfl _).2 ?_
  iterate 4
    apply guarded_cons_of_step rfl
    · exact hmapped rfl rfl rfl rfl
  iterate 6
    apply guarded_cons_of_step rfl
    · exact hread rfl nofun nofun
  trivial

/-- The same page once more: by the time the second thread looks its entry up, the first
has removed it. -/
theorem not_faultsOk_late :
    firstReplaced.kernel.symbolsResolved = true ∧
      firstReplaced.kernel.pteAt firstFault.mm firstFault.address = some firstFault.origPte ∧
      mapLookup firstReplaced.kernel.map firstFault.address = some ⟨.samePage, 1, 1⟩ ∧
      firstReplaced.kernel.decode samePageCodec ⟨.samePage, 1, 1⟩ = some (Page.fill 1) ∧
      ¬Along (threadStep samePageCodec (faultTasks firstFault [(true, 0x1000), (true, 0x1000)]))
        (FaultsOk firstFault (Page.fill 1) 2) (.init firstReplaced.kernel) [0, 0, 0, 1] := by
  refine ⟨rfl, rfl, mapLookup_firstReplaced, rfl, ?_⟩
  intro h
  have hlast := (((h.2 _ rfl).2 _ rfl).2 _ rfl).2 _ rfl
  exact hlast.1 1 (by decide) rfl

end MiniMem
