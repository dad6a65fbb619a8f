import MiniMem.Kernel.Interleaving

/-!
# MiniMem.Kernel.InterleavingFrame

What the steps of `threadsStep` leave alone.  A step works on one virtual
page: elsewhere nothing changes that a thread or a process sees (`SameView`),
and handles and frames are only handed out (`Onward`).  So the invariant of
an interleaving is kept by a step as soon as it is kept at that page
(`ThreadsInv.move`, `ThreadsInv.turn`).
-/

namespace MiniMem

variable {codec : Codec} {k k' : Kernel} {s : Interleaving} {m : Memory} {mm vaddr : Nat}

/-! ## Steps elsewhere -/

/-- Nothing changes that a thread at an address or a process sees of it. -/
structure SameView (k k' : Kernel) (vaddr : Nat) : Prop where
  pte : ∀ mm, k'.pteAt mm vaddr = k.pteAt mm vaddr
  lookup : mapLookup k'.map vaddr = mapLookup k.map vaddr
  objs : ∀ e, mapLookup k.map vaddr = some e →
    k'.pool.objs e.zsHandle = k.pool.objs e.zsHandle
  data : ∀ mm pfn write young dirty, k.pteAt mm vaddr = some (.present pfn write young dirty) →
    k'.frames.data pfn = k.frames.data pfn

/-- What every step does: frames and handles are new when they are handed out, and a handle that
no entry has gets into none. -/
structure Onward (k k' : Kernel) : Prop where
  frames : k.frames.next ≤ k'.frames.next
  handles : k.pool.next ≤ k'.pool.next
  kept : ∀ h, h < k.pool.next → (∀ i e, k.map.entries.load i = some e → e.zsHandle ≠ h) →
    ∀ i e, k'.map.entries.load i = some e → e.zsHandle ≠ h

/-- The markers at the page are the same. -/
theorem SameView.markerAt (h : SameView k k' vaddr) (mm : Nat) :
    MarkerAt k' mm vaddr ↔ MarkerAt k mm vaddr := by
  rw [MarkerAt, MarkerAt, h.pte]

/-- There are none if there were none. -/
theorem SameView.noMarker (h : SameView k k' vaddr) : NoMarker k' vaddr ↔ NoMarker k vaddr := by
  simp [NoMarker, h.markerAt]

/-- There is one if there was one. -/
theorem SameView.onlyMarker (h : SameView k k' vaddr) :
    OnlyMarker k' mm vaddr ↔ OnlyMarker k mm vaddr := by
  simp [OnlyMarker, h.markerAt]

/-- The entry of the page decodes to the same. -/
theorem SameView.decode (h : SameView k k' vaddr) {entry : MapEntry}
    (hlookup : mapLookup k.map vaddr = some entry) : k'.decode codec entry = k.decode codec entry :=
  decode_congr (h.objs entry hlookup)

/-- Where the PTE and the frame stay, what shows stays if it stays behind a marker. -/
theorem ShowsBy.of_behind {carried carried' page : Option Page}
    (h : ShowsBy codec k carried mm vaddr page) (hpte : k'.pteAt mm vaddr = k.pteAt mm vaddr)
    (hdata : ∀ pfn write young dirty, k.pteAt mm vaddr = some (.present pfn write young dirty) →
      k'.frames.data pfn = k.frames.data pfn)
    (hbehind : MarkerAt k mm vaddr → ∀ p,
      (carried = some p ∨ ∃ entry, mapLookup k.map vaddr = some entry ∧
        k.decode codec entry = some p) →
      carried' = some p ∨ ∃ entry, mapLookup k'.map vaddr = some entry ∧
        k'.decode codec entry = some p) : ShowsBy codec k' carried' mm vaddr page := by
  unfold ShowsBy at h ⊢
  rw [hpte]
  split at h
  next hp => rw [h, hdata _ _ _ _ hp]
  next index hp =>
    obtain ⟨p, hpage, hshown⟩ := h
    exact ⟨p, hpage, hbehind ⟨index, hp⟩ p hshown⟩
  next => exact h

/-- So the same page shows. -/
theorem SameView.showsBy (h : SameView k k' vaddr) {carried page : Option Page}
    (hshows : ShowsBy codec k carried mm vaddr page) : ShowsBy codec k' carried mm vaddr page := by
  refine hshows.of_behind (h.pte mm) (h.data mm) fun _ p hbehind => hbehind.imp id ?_
  rintro ⟨entry, hlookup, hdecode⟩
  exact ⟨entry, h.lookup.trans hlookup, (h.decode hlookup).trans hdecode⟩

/-- The PTE is still the one of the snapshot, or as far from it. -/
theorem PteSince.same (h : Onward k k') (hs : SameView k k' vaddr) {pfn : Nat} {oldPte : Pte}
    (hsince : PteSince k mm vaddr pfn oldPte) : PteSince k' mm vaddr pfn oldPte := by
  obtain ⟨write, young, dirty, hold, hlt, hgrown⟩ := hsince
  refine ⟨write, young, dirty, hold, Nat.lt_of_lt_of_le hlt h.frames, ?_⟩
  rw [hs.pte]
  exact hgrown

/-- A handle that no entry has gets into none. -/
theorem HandleKept.onward (h : Onward k k') {entry : MapEntry} (hkept : HandleKept k entry) :
    HandleKept k' entry :=
  ⟨Nat.lt_of_lt_of_le hkept.1 h.handles, h.kept _ hkept.1 hkept.2⟩

/-- A fault on the page goes on. -/
theorem Faulting.same {vmf : FaultInfo} (h : SameView k k' vmf.address) (hf : Faulting k vmf) :
    Faulting k' vmf where
  marker := hf.marker
  only := h.onlyMarker.2 hf.only
  orig hm := (h.pte _).trans (hf.orig ((h.markerAt _).1 hm))

/-- A replacement goes on. -/
theorem ReplaceWork.same (h : Onward k k') (hs : SameView k k' vaddr) {pc : ReplacePc}
    (hw : ReplaceWork codec k mm vaddr pc) : ReplaceWork codec k' mm vaddr pc := by
  have hdata {pfn : Nat} {oldPte : Pte} (hsince : PteSince k mm vaddr pfn oldPte)
      (hpte : k.pteAt mm vaddr = some oldPte) : k'.frames.data pfn = k.frames.data pfn := by
    obtain ⟨write, young, dirty, rfl, -⟩ := hsince
    exact hs.data _ _ _ _ _ hpte
  cases pc with
  | start => exact hs.onlyMarker.2 hw
  | snapshotted oldPte pfn => exact ⟨hs.noMarker.2 hw.1, hw.2.same h hs⟩
  | compressed oldPte pfn algo bytes =>
      obtain ⟨hnone, hsince, hdecoded⟩ := hw
      refine ⟨hs.noMarker.2 hnone, hsince.same h hs, ?_⟩
      rw [hs.pte]
      intro hpte
      rw [hdata hsince hpte, hdecoded hpte]
  | stored oldPte pfn handle =>
      obtain ⟨hnone, hsince, entry, hlookup, hhandle, hdecoded⟩ := hw
      refine ⟨hs.noMarker.2 hnone, hsince.same h hs, entry, hs.lookup.trans hlookup, hhandle, ?_⟩
      rw [hs.pte]
      intro hpte
      rw [hs.decode hlookup, hdata hsince hpte, hdecoded hpte]
  | installed contents => exact hw
  | failed ret => exact hw

/-- So does a fault, wherever it stands. -/
theorem FaultWork.same (h : Onward k k') {vmf : FaultInfo} (hs : SameView k k' vmf.address)
    {pc : TaskPc} (hw : FaultWork codec k vmf pc) : FaultWork codec k' vmf pc := by
  cases pc with
  | start => exact fun hmarker => (hw hmarker).same hs
  | looked entry => exact ⟨hw.1.same hs, hs.lookup.trans hw.2⟩
  | decompressed entry page =>
      obtain ⟨hf, hlookup, hdecode⟩ := hw
      exact ⟨hf.same hs, hs.lookup.trans hlookup, (hs.decode hlookup).trans hdecode⟩
  | removed entry page =>
      obtain ⟨hf, hlookup, hkept, hpage⟩ := hw
      exact ⟨hf.same hs, hs.lookup.trans hlookup, hkept.onward h, hpage⟩
  | freed page => exact ⟨hw.1.same hs, hs.lookup.trans hw.2⟩
  | draining | fetched | done => exact hw

/-- So does a removal. -/
theorem RemoveWork.same (h : Onward k k') (hs : SameView k k' vaddr) {pc : TaskPc}
    (hw : RemoveWork k vaddr pc) : RemoveWork k' vaddr pc := by
  cases pc with
  | start => exact hs.noMarker.2 hw
  | looked entry => exact ⟨hs.noMarker.2 hw.1, hs.lookup.trans hw.2⟩
  | removed entry page => exact ⟨hs.noMarker.2 hw.1, hw.2.1.onward h, hw.2.2⟩
  | decompressed | freed | draining | fetched | done => exact hw

/-- A thread is not disturbed by what happens elsewhere. -/
theorem WorkInv.same (h : Onward k k') {work : Work}
    (hs : ∀ vaddr, vaddrToIndex vaddr = work.vpn → SameView k k' vaddr)
    (hw : WorkInv codec k work) : WorkInv codec k' work := by
  cases work with
  | replace env mm addr pc => exact ⟨hw.1, hw.2.same h (hs addr rfl)⟩
  | task t pc =>
      cases t with
      | fault stock env vmf =>
          exact ⟨hw.1, hw.2.same h (hs vmf.address (vaddrToIndex_pageMask _).symm)⟩
      | remove vaddr => exact RemoveWork.same h (hs vaddr rfl) hw
      | zapCb addr => exact RemoveWork.same h (hs addr (vaddrToIndex_pageMask _).symm) hw
      | restore | shrink => exact hw


/-! ## What a step has to show -/

/-- What is carried elsewhere does not change. -/
theorem CarriedAt.congr {works' : Nat → Option Work} {v v' : Nat} (hv : v' ≠ v)
    (hworks : ∀ i work, work.vpn ≠ v → (works' i = some work ↔ s.works i = some work))
    {carried : Option Page} (h : CarriedAt s v' carried) :
    CarriedAt ⟨k', works'⟩ v' carried := by
  refine h.imp ?_ ?_
  · rintro ⟨i, work, hi, hvpn, hcarried⟩
    exact ⟨i, work, (hworks i work (hvpn ▸ hv)).2 hi, hvpn, hcarried⟩
  · rintro ⟨halone, hcarried⟩
    refine ⟨fun i work hi hvpn => ?_, hcarried⟩
    exact halone i work ((hworks i work (hvpn ▸ hv)).1 hi) hvpn

/-- A step that works on one virtual page only. -/
theorem ThreadsInv.move (h : ThreadsInv codec s m) (v : Nat) {works' : Nat → Option Work}
    {m' : Memory} (hon : Onward s.kernel k')
    (helse : ∀ vaddr, vaddrToIndex vaddr ≠ v → SameView s.kernel k' vaddr)
    (hworks : ∀ i work, work.vpn ≠ v → (works' i = some work ↔ s.works i = some work))
    (hstorage : StorageOk k') (hframes : FramesOk k')
    (hexclusive : ∀ mm mm' vaddr, vaddrToIndex vaddr = v → MarkerAt k' mm vaddr →
      MarkerAt k' mm' vaddr → mm = mm')
    (hapart : ∀ i j work work', works' i = some work → works' j = some work' → work.vpn = v →
      work'.vpn = v → i = j)
    (hinv : ∀ i work, works' i = some work → work.vpn = v → WorkInv codec k' work)
    (hmem : ∀ mm v', v' ≠ v → m' mm v' = m mm v')
    (hshows : ∀ mm vaddr, vaddrToIndex vaddr = v → ∃ carried,
      CarriedAt ⟨k', works'⟩ v carried ∧ ShowsBy codec k' carried mm vaddr (m' mm v)) :
    ThreadsInv codec ⟨k', works'⟩ m' where
  storage := hstorage
  frames := hframes
  exclusive mm mm' vaddr hm hm' := by
    by_cases hv : vaddrToIndex vaddr = v
    · exact hexclusive mm mm' vaddr hv hm hm'
    · have hsame := helse vaddr hv
      exact h.exclusive mm mm' vaddr ((hsame.markerAt _).1 hm) ((hsame.markerAt _).1 hm')
  apart i j work work' hi hj hvpn := by
    by_cases hv : work.vpn = v
    · exact hapart i j work work' hi hj hv (hvpn ▸ hv)
    · exact h.apart i j work work' ((hworks i work hv).1 hi)
        ((hworks j work' (hvpn ▸ hv)).1 hj) hvpn
  works i work hi := by
    by_cases hv : work.vpn = v
    · exact hinv i work hi hv
    · refine (h.works i work ((hworks i work hv).1 hi)).same hon ?_
      intro vaddr hvaddr
      exact helse vaddr (hvaddr ▸ hv)
  shows mm vaddr := by
    by_cases hv : vaddrToIndex vaddr = v
    · rw [hv]
      exact hshows mm vaddr hv
    · obtain ⟨carried, hcarried, hshown⟩ := h.shows mm vaddr
      rw [hmem mm _ hv]
      exact ⟨carried, hcarried.congr hv hworks, (helse vaddr hv).showsBy hshown⟩

/-- What is carried at the page of a thread is what the thread carries. -/
theorem ThreadsInv.carriedAt (h : ThreadsInv codec s m) {i : Nat} {work : Work}
    (hi : s.works i = some work) {carried : Option Page} (hc : CarriedAt s work.vpn carried) :
    carried = work.carried := by
  rcases hc with ⟨j, work', hj, hvpn, hcarried⟩ | ⟨halone, -⟩
  · have hij := h.apart j i work' work hj hi hvpn
    rw [hij, hi] at hj
    rw [hcarried, ← Option.some.inj hj]
  · exact absurd rfl (halone i work hi)

/-- A step of a thread, which leaves the memory as it is. -/
theorem ThreadsInv.turn (h : ThreadsInv codec s m) {i : Nat} {work : Work}
    (hi : s.works i = some work) {work' : Option Work} (hon : Onward s.kernel k')
    (helse : ∀ vaddr, vaddrToIndex vaddr ≠ work.vpn → SameView s.kernel k' vaddr)
    (hstorage : StorageOk k') (hframes : FramesOk k')
    (hexclusive : ∀ mm mm' vaddr, vaddrToIndex vaddr = work.vpn → MarkerAt k' mm vaddr →
      MarkerAt k' mm' vaddr → mm = mm')
    (hinv : ∀ w, work' = some w → w.vpn = work.vpn ∧ WorkInv codec k' w)
    (hshows : ∀ mm vaddr page, vaddrToIndex vaddr = work.vpn →
      ShowsBy codec s.kernel work.carried mm vaddr page →
      ShowsBy codec k' (work'.bind Work.carried) mm vaddr page) :
    ThreadsInv codec ⟨k', Function.update s.works i work'⟩ m := by
  have honly {j : Nat} {w : Work} (hj : Function.update s.works i work' j = some w)
      (hv : w.vpn = work.vpn) : j = i := by
    by_contra hji
    rw [Function.update_of_ne hji] at hj
    exact hji (h.apart j i w work hj hi hv)
  refine h.move work.vpn hon helse ?_ hstorage hframes hexclusive ?_ ?_ (fun _ _ _ => rfl) ?_
  · intro j w hv
    by_cases hji : j = i
    · subst hji
      rw [Function.update_self]
      constructor
      · intro hw
        exact absurd (hinv w hw).1 hv
      · intro hw
        rw [hi] at hw
        exact absurd (congrArg Work.vpn (Option.some.inj hw)).symm hv
    · rw [Function.update_of_ne hji]
  · intro j j' w w' hj hj' hv hv'
    rw [honly hj hv, honly hj' hv']
  · intro j w hj hv
    rw [honly hj hv, Function.update_self] at hj
    exact (hinv w hj).2
  · intro mm vaddr hv
    obtain ⟨carried, hcarried, hshown⟩ := h.shows mm vaddr
    rw [hv] at hcarried hshown
    rw [h.carriedAt hi hcarried] at hshown
    refine ⟨work'.bind Work.carried, ?_, hshows mm vaddr _ hv hshown⟩
    cases work' with
    | none =>
        refine .inr ⟨fun j w hj hv => ?_, rfl⟩
        have hnone : Function.update s.works i none i = some w := honly hj hv ▸ hj
        simp at hnone
    | some w => exact .inl ⟨i, w, Function.update_self .., (hinv w rfl).1, rfl⟩

/-- What a step that only counts leaves alone. -/
structure Counts (k k' : Kernel) : Prop extends SameStorage k k' where
  mms : k'.mms = k.mms
  data : k'.frames.data = k.frames.data
  nextFrame : k'.frames.next = k.frames.next

/-- A step that only counts is one onward. -/
theorem Counts.onward (h : Counts k k') : Onward k k' where
  frames := Nat.le_of_eq h.nextFrame.symm
  handles := h.next
  kept _ _ hnone := by
    rw [h.map]
    exact hnone

/-- It changes no page's view. -/
theorem Counts.sameView (h : Counts k k') (vaddr : Nat) : SameView k k' vaddr where
  pte mm := by rw [Kernel.pteAt, Kernel.pteAt, h.mms]
  lookup := by rw [h.map]
  objs _ _ := by rw [h.objs]
  data _ _ _ _ _ _ := by rw [h.data]

/-- It leaves the frames mapped as they are. -/
theorem Counts.framesOk (h : Counts k k') (hframes : FramesOk k) : FramesOk k' := by
  refine hframes.mono (Nat.le_of_eq h.nextFrame.symm) ?_
  intro mm vaddr pfn write young dirty hp
  rw [(h.sameView vaddr).pte] at hp
  exact ⟨_, _, hp⟩

/-- A step of a thread that only counts. -/
theorem ThreadsInv.counts (h : ThreadsInv codec s m) {i : Nat} {work : Work}
    (hi : s.works i = some work) (hk : Counts s.kernel k') {work' : Option Work}
    (hinv : ∀ w, work' = some w → w.vpn = work.vpn ∧ WorkInv codec s.kernel w)
    (hcarried : work'.bind Work.carried = work.carried) :
    ThreadsInv codec ⟨k', Function.update s.works i work'⟩ m := by
  refine h.turn hi hk.onward (fun vaddr _ => hk.sameView vaddr) (h.storage.same hk.toSameStorage)
    (hk.framesOk h.frames) ?_ ?_ ?_
  · intro mm mm' vaddr _ hm hm'
    exact h.exclusive mm mm' vaddr (((hk.sameView vaddr).markerAt _).1 hm)
      (((hk.sameView vaddr).markerAt _).1 hm')
  · intro w hw
    obtain ⟨hvpn, hwork⟩ := hinv w hw
    exact ⟨hvpn, hwork.same hk.onward fun vaddr _ => hk.sameView vaddr⟩
  · intro mm vaddr page _ hshown
    rw [hcarried]
    exact (hk.sameView vaddr).showsBy hshown


/-! ## What the steps of the threads do -/

/-- Two steps onward. -/
theorem Onward.trans {k₁ k₂ k₃ : Kernel} (h : Onward k₁ k₂) (h' : Onward k₂ k₃) :
    Onward k₁ k₃ where
  frames := Nat.le_trans h.frames h'.frames
  handles := Nat.le_trans h.handles h'.handles
  kept x hx hnone := h'.kept x (Nat.lt_of_lt_of_le hx h.handles) (h.kept x hx hnone)

/-- Two steps that do not show. -/
theorem SameView.trans {k₁ k₂ k₃ : Kernel} (h : SameView k₁ k₂ vaddr) (h' : SameView k₂ k₃ vaddr) :
    SameView k₁ k₃ vaddr where
  pte mm := (h'.pte mm).trans (h.pte mm)
  lookup := h'.lookup.trans h.lookup
  objs e he := (h'.objs e (h.lookup.trans he)).trans (h.objs e he)
  data mm pfn write young dirty hp :=
    (h'.data mm pfn write young dirty ((h.pte mm).trans hp)).trans
      (h.data mm pfn write young dirty hp)

/-- A page is stored. -/
theorem onward_addEntry (k : Kernel) (vaddr : Nat) (algo : AlgoId) (bytes : List UInt8) :
    Onward k (k.addEntry vaddr algo bytes) where
  frames := Nat.le_refl _
  handles := Nat.le_succ _
  kept x hx hnone i e hload := by
    rw [load_addEntry] at hload
    split at hload
    · rw [← Option.some.inj hload]
      exact fun heq => Nat.lt_irrefl _ (heq ▸ hx)
    · exact hnone i e hload

/-- An entry of another page does not show. -/
theorem sameView_addEntry (hok : StorageOk k) {addr : Nat} (algo : AlgoId) (bytes : List UInt8)
    (hne : vaddrToIndex vaddr ≠ vaddrToIndex addr) :
    SameView k (k.addEntry addr algo bytes) vaddr where
  pte _ := rfl
  lookup := by rw [mapLookup, load_addEntry, if_neg hne, mapLookup]
  objs e he := by rw [objs_addEntry, if_neg (hok.ne_next he)]
  data _ _ _ _ _ _ := rfl

/-- An entry is removed from the map; its object stays. -/
def Kernel.removeEntry (k : Kernel) (vaddr : Nat) : Kernel :=
  { k with map := (mapRemove k.map vaddr).2 }

/-- A removal takes the entry of its page and no other. -/
theorem load_removeEntry (k : Kernel) (vaddr i : Nat) :
    (k.removeEntry vaddr).map.entries.load i =
      if i = vaddrToIndex vaddr then none else k.map.entries.load i :=
  load_mapRemove _ _ _

/-- A removal puts nothing in. -/
theorem onward_removeEntry (k : Kernel) (vaddr : Nat) : Onward k (k.removeEntry vaddr) where
  frames := Nat.le_refl _
  handles := Nat.le_refl _
  kept x _ hnone i e hload := by
    rw [load_removeEntry] at hload
    split at hload
    · cases hload
    · exact hnone i e hload

/-- The removal of another page's entry does not show. -/
theorem sameView_removeEntry {addr : Nat} (hne : vaddrToIndex vaddr ≠ vaddrToIndex addr) :
    SameView k (k.removeEntry addr) vaddr where
  pte _ := rfl
  lookup := by rw [mapLookup, load_removeEntry, if_neg hne, mapLookup]
  objs _ _ := rfl
  data _ _ _ _ _ _ := rfl

/-- A removal keeps the storage as it should be. -/
theorem StorageOk.removeEntry (h : StorageOk k) (vaddr : Nat) :
    StorageOk (k.removeEntry vaddr) where
  wf := h.wf
  live i e hload := by
    rw [load_removeEntry] at hload
    split at hload
    · cases hload
    · exact h.live i e hload
  unique := unique_dropEntry h.unique vaddr 0
  size_le_count := by
    have hle := h.size_le_count
    simp only [Kernel.removeEntry, mapRemove]
    cases hlookup : k.map.entries.load (vaddrToIndex vaddr) with
    | none => exact hle
    | some entry =>
        have hpos := XArray.size_pos_of_load hlookup
        show ((k.map.entries.erase (vaddrToIndex vaddr)).size : Int) ≤ k.map.count - 1
        rw [XArray.size_erase, if_neg (by simp [hlookup])]
        omega

/-- The handle of an entry that is removed is in no other. -/
theorem HandleKept.removed (hok : StorageOk k) {entry : MapEntry}
    (hlookup : mapLookup k.map vaddr = some entry) : HandleKept (k.removeEntry vaddr) entry := by
  refine ⟨hok.wf.lt_next _ (hok.live _ _ hlookup), ?_⟩
  intro i e hload heq
  rw [load_removeEntry] at hload
  split at hload
  · cases hload
  next hne => exact hne (hok.unique _ _ _ _ hload hlookup heq)

/-- A handle that is in no entry is freed. -/
def Kernel.freeHandle (k : Kernel) (handle : Nat) : Kernel := { k with pool := k.pool.free handle }

/-- Handles are not given out again when they are freed. -/
theorem onward_freeHandle (k : Kernel) (handle : Nat) : Onward k (k.freeHandle handle) :=
  ⟨Nat.le_refl _, Nat.le_refl _, fun _ _ hnone => hnone⟩

/-- A handle that no entry has can be freed unseen. -/
theorem sameView_freeHandle {entry : MapEntry} (hkept : HandleKept k entry) (vaddr : Nat) :
    SameView k (k.freeHandle entry.zsHandle) vaddr where
  pte _ := rfl
  lookup := rfl
  objs e he := by
    show (k.pool.free entry.zsHandle).objs e.zsHandle = _
    rw [objs_free, if_neg (hkept.2 _ e he)]
  data _ _ _ _ _ _ := rfl

/-- Freeing it keeps the storage as it should be. -/
theorem StorageOk.freeHandle (h : StorageOk k) {entry : MapEntry} (hkept : HandleKept k entry) :
    StorageOk (k.freeHandle entry.zsHandle) where
  wf := h.wf.free _
  live i e hload := by
    show ((k.pool.free entry.zsHandle).objs e.zsHandle).isSome = true
    rw [objs_free, if_neg (hkept.2 i e hload)]
    exact h.live i e hload
  unique := h.unique
  size_le_count := h.size_le_count

/-- A replacement that comes too late takes its page out again. -/
theorem sameView_dropEntry (hok : StorageOk k) {addr : Nat} {entry : MapEntry}
    (hlookup : mapLookup k.map addr = some entry)
    (hne : vaddrToIndex vaddr ≠ vaddrToIndex addr) :
    SameView k (k.dropEntry addr entry.zsHandle) vaddr where
  pte _ := rfl
  lookup := by rw [mapLookup, load_dropEntry, if_neg hne, mapLookup]
  objs e he := hok.objs_dropEntry hlookup he hne
  data _ _ _ _ _ _ := rfl

/-- Dropping an entry is both. -/
theorem onward_dropEntry (k : Kernel) (vaddr handle : Nat) : Onward k (k.dropEntry vaddr handle) :=
  (onward_removeEntry k vaddr).trans (onward_freeHandle _ handle)

/-- Where there is no marker, the storage does not show. -/
theorem showsBy_of_noMarker (hnone : NoMarker k vaddr) (hpte : k'.pteAt mm vaddr = k.pteAt mm vaddr)
    (hdata : ∀ pfn write young dirty, k.pteAt mm vaddr = some (.present pfn write young dirty) →
      k'.frames.data pfn = k.frames.data pfn) {carried carried' page : Option Page}
    (h : ShowsBy codec k carried mm vaddr page) : ShowsBy codec k' carried' mm vaddr page :=
  h.of_behind hpte hdata fun hm => absurd hm (hnone mm)

end MiniMem
