import MiniMem.Kernel.InterleavingFrame

/-!
# MiniMem.Kernel.InterleavingSteps

The steps of the threads are not seen: the four sections of a replacement,
the five steps of a fault and the three of a removal each keep the invariant
of the interleaving with the memory as it is.  One lemma for each, and
`ThreadsInv.next` for all of them.
-/

namespace MiniMem

variable {codec : Codec} {k k' : Kernel} {s : Interleaving} {m : Memory} {mm vaddr i : Nat}

/-! ## Steps that only count -/

theorem Counts.refl (k : Kernel) : Counts k k := ⟨.refl k, rfl, rfl, rfl⟩

theorem Counts.trans {k₁ k₂ k₃ : Kernel} (h : Counts k₁ k₂) (h' : Counts k₂ k₃) : Counts k₁ k₃ :=
  ⟨h.toSameStorage.trans h'.toSameStorage, h'.mms.trans h.mms, h'.data.trans h.data,
    h'.nextFrame.trans h.nextFrame⟩

/-- What is outside the storage, the page tables and the contents of the frames. -/
theorem Counts.of_eq (hmap : k'.map = k.map) (hpool : k'.pool = k.pool) (hmms : k'.mms = k.mms)
    (hdata : k'.frames.data = k.frames.data) (hnext : k'.frames.next = k.frames.next) :
    Counts k k' :=
  ⟨⟨hmap, congrArg Pool.objs hpool, Nat.le_of_eq (congrArg Pool.next hpool.symm)⟩, hmms, hdata,
    hnext⟩

theorem counts_getPage (k : Kernel) (pfn : Nat) : Counts k (k.getPage pfn) :=
  .of_eq rfl rfl rfl rfl rfl

theorem counts_putPage (k : Kernel) (pfn : Nat) : Counts k (k.putPage pfn) :=
  .of_eq rfl rfl rfl rfl rfl

theorem counts_stats (k : Kernel) (stats : Stats) : Counts k { k with stats := stats } :=
  .of_eq rfl rfl rfl rfl rfl

theorem counts_uncount (k : Kernel) (len : Nat) : Counts k (k.uncount len) := counts_stats k _

/-- A page that is not stored leaves no trace but a handle that is skipped. -/
theorem counts_storeCompressed (hwf : k.pool.Wf) {env : StoreEnv} {algo : AlgoId}
    {bytes : List UInt8} {ret : Int}
    (h : storeCompressed k env vaddr algo bytes = (.error ret, k')) : Counts k k' := by
  unfold storeCompressed at h
  split at h
  · obtain ⟨-, rfl⟩ := Prod.mk.inj h
    exact .refl k
  dsimp only at h
  split at h
  · obtain ⟨-, rfl⟩ := Prod.mk.inj h
    exact ⟨⟨rfl, objs_free_malloc hwf bytes, Nat.le_succ _⟩, rfl, rfl, rfl⟩
  · cases (Prod.mk.inj h).1

/-- A thread that returns without having done anything. -/
theorem ThreadsInv.returned (h : ThreadsInv codec s m) {work : Work} (hi : s.works i = some work)
    (hk : Counts s.kernel k') (hnone : work.carried = none) :
    ThreadsInv codec ⟨k', Function.update s.works i none⟩ m :=
  h.counts hi hk (by simp) hnone.symm

theorem mapLookup_congr {map : CompressionMap} {vaddr' : Nat}
    (h : vaddrToIndex vaddr' = vaddrToIndex vaddr) : mapLookup map vaddr' = mapLookup map vaddr := by
  unfold mapLookup
  rw [h]

/-! ## The sections of a replacement -/

section Replace

variable {env : ReplaceEnv} {addr : Nat} {r : ReplaceState}

/-- The snapshot: the page is mapped, so there is no marker. -/
theorem ThreadsInv.snapshot (h : ThreadsInv codec s m)
    (hi : s.works i = some (.replace env mm addr .start))
    (hstep : replaceNext codec env mm addr s.kernel .start = some r) :
    ThreadsInv codec ⟨r.kernel, Function.update s.works i (r.pc.work env mm addr)⟩ m := by
  obtain ⟨henv, honly⟩ : env.relock = .same ∧ OnlyMarker s.kernel mm addr := h.works i _ hi
  rcases replaceNext_start_cases hstep with
    ⟨ret, rfl⟩ | ⟨pfn, write, young, dirty, -, hpte, rfl⟩
  · exact h.returned hi (.refl _) rfl
  have hnone : NoMarker s.kernel addr := by
    intro mm' hm
    obtain rfl := honly mm' hm
    obtain ⟨index, hindex⟩ := hm
    rw [hpte] at hindex
    cases hindex
  have hsince : PteSince s.kernel mm addr pfn (.present pfn write young dirty) := by
    refine ⟨write, young, dirty, rfl, h.frames.fresh _ _ _ _ _ _ hpte, ?_⟩
    intro write' young' dirty' hpte'
    rw [hpte] at hpte'
    cases hpte'
    exact ⟨rfl, id, id⟩
  refine h.counts hi (counts_getPage _ _) (fun w hw => ?_) rfl
  obtain rfl := Option.some.inj hw
  exact ⟨rfl, henv, hnone, hsince⟩

/-- The compression. -/
theorem ThreadsInv.compress (h : ThreadsInv codec s m) {oldPte : Pte} {pfn : Nat}
    (hi : s.works i = some (.replace env mm addr (.snapshotted oldPte pfn)))
    (hread : codec.ReadsBack (s.kernel.frames.data pfn))
    (hstep : replaceNext codec env mm addr s.kernel (.snapshotted oldPte pfn) = some r) :
    ThreadsInv codec ⟨r.kernel, Function.update s.works i (r.pc.work env mm addr)⟩ m := by
  obtain ⟨henv, hnone, hsince⟩ : env.relock = .same ∧ NoMarker s.kernel addr ∧
    PteSince s.kernel mm addr pfn oldPte := h.works i _ hi
  rcases replaceNext_snapshotted_cases hstep with ⟨ret, rfl⟩ | ⟨algo, bytes, hcompress, rfl⟩
  · exact h.returned hi (counts_putPage _ _) rfl
  refine h.counts hi (.refl _) (fun w hw => ?_) rfl
  obtain rfl := Option.some.inj hw
  exact ⟨rfl, henv, hnone, hsince, fun _ => hread _ _ hcompress⟩

/-- The page goes into the storage, where there is no marker. -/
theorem ThreadsInv.storePage (h : ThreadsInv codec s m) {oldPte : Pte} {pfn : Nat} {algo : AlgoId}
    {bytes : List UInt8}
    (hi : s.works i = some (.replace env mm addr (.compressed oldPte pfn algo bytes)))
    (hstep : replaceNext codec env mm addr s.kernel (.compressed oldPte pfn algo bytes) = some r) :
    ThreadsInv codec ⟨r.kernel, Function.update s.works i (r.pc.work env mm addr)⟩ m := by
  obtain ⟨henv, hnone, hsince, hdecoded⟩ : env.relock = .same ∧ NoMarker s.kernel addr ∧
    PteSince s.kernel mm addr pfn oldPte ∧ (s.kernel.pteAt mm addr = some oldPte →
      codec.decompress algo bytes = some (s.kernel.frames.data pfn)) := h.works i _ hi
  rcases replaceNext_compressed_cases hstep with ⟨ret, k₁, hstored, rfl⟩ | rfl
  · have hcounts := counts_storeCompressed h.storage.wf hstored
    exact h.returned hi (hcounts.trans (counts_putPage _ _)) rfl
  have hlookup : mapLookup (s.kernel.addEntry (pageMask addr) algo bytes).map addr
      = some ⟨algo, bytes.length, s.kernel.pool.next⟩ := by
    rw [mapLookup, load_addEntry, if_pos (vaddrToIndex_pageMask addr).symm]
  refine h.turn hi (onward_addEntry _ _ _ _) ?_ (h.storage.add _ _ _) ?_ ?_ ?_ ?_
  · intro vaddr hne
    refine sameView_addEntry h.storage _ _ ?_
    rw [vaddrToIndex_pageMask]
    exact hne
  · exact h.frames.mono (Nat.le_refl _) fun _ _ _ _ _ _ hp => ⟨_, _, hp⟩
  · intro mm₁ mm₂ vaddr _ hm hm'
    exact h.exclusive mm₁ mm₂ vaddr hm hm'
  · intro w hw
    obtain rfl := Option.some.inj hw
    refine ⟨rfl, henv, hnone, hsince, _, hlookup, rfl, fun hpte => ?_⟩
    rw [decode_addEntry]
    exact hdecoded hpte
  · intro mm' vaddr page hvpn hshown
    have hnone' : NoMarker s.kernel vaddr := fun mm₁ hm => hnone mm₁ (hm.congr hvpn.symm)
    refine showsBy_of_noMarker hnone' ?_ ?_ hshown
    · rfl
    · exact fun _ _ _ _ _ => rfl

/-- The marker: behind it is what the page holds. -/
theorem ThreadsInv.install (h : ThreadsInv codec s m) {oldPte : Pte} {pfn handle : Nat}
    (hi : s.works i = some (.replace env mm addr (.stored oldPte pfn handle)))
    (hstep : replaceNext codec env mm addr s.kernel (.stored oldPte pfn handle) = some r) :
    ThreadsInv codec ⟨r.kernel, Function.update s.works i (r.pc.work env mm addr)⟩ m := by
  obtain ⟨henv, hnone, ⟨write, young, dirty, hold, -, -⟩, entry, hlookup, hhandle, hdecoded⟩ :
    env.relock = .same ∧ NoMarker s.kernel addr ∧ PteSince s.kernel mm addr pfn oldPte ∧
      ∃ entry, mapLookup s.kernel.map addr = some entry ∧ entry.zsHandle = handle ∧
        (s.kernel.pteAt mm addr = some oldPte →
          s.kernel.decode codec entry = some (s.kernel.frames.data pfn)) := h.works i _ hi
  subst hhandle
  have hnoneAt {vaddr : Nat} (hvpn : vaddrToIndex vaddr = vaddrToIndex addr) :
      NoMarker s.kernel vaddr := fun mm₁ hm => hnone mm₁ (hm.congr hvpn.symm)
  rcases replaceNext_stored_cases (by simp [henv]) hstep with ⟨hpte, rfl⟩ | ⟨ret, rfl⟩
  · have hslot (mm' vaddr : Nat) := pteAt_markerInstalled s.kernel mm addr pfn mm' vaddr
    have helse : ∀ vaddr, vaddrToIndex vaddr ≠ vaddrToIndex addr →
        SameView s.kernel (s.kernel.markerInstalled mm (pageMask addr) pfn) vaddr := by
      intro vaddr hne
      refine ⟨fun mm' => ?_, rfl, fun _ _ => rfl, fun _ _ _ _ _ _ => rfl⟩
      rw [hslot, if_neg fun hat => hne hat.2]
    refine h.turn hi ⟨Nat.le_refl _, Nat.le_refl _, fun _ _ hfresh => hfresh⟩ helse
      (h.storage.same (k := s.kernel) ⟨rfl, rfl, Nat.le_refl _⟩) ?_ ?_ (fun w hw => by cases hw) ?_
    · refine h.frames.mono (Nat.le_refl _) fun mm' vaddr pfn' write' young' dirty' hp => ?_
      rw [hslot] at hp
      split at hp
      · cases hp
      · exact ⟨_, _, hp⟩
    · have honly {mm' vaddr : Nat} (hvpn : vaddrToIndex vaddr = vaddrToIndex addr)
          (hm : MarkerAt (s.kernel.markerInstalled mm (pageMask addr) pfn) mm' vaddr) :
          mm' = mm := by
        by_contra hne
        rw [MarkerAt, hslot, if_neg fun hat => hne hat.1] at hm
        exact hnoneAt hvpn mm' hm
      intro mm₁ mm₂ vaddr hvpn hm hm'
      rw [honly hvpn hm, honly hvpn hm']
    · intro mm' vaddr page hvpn hshown
      show ShowsBy codec (s.kernel.markerInstalled mm (pageMask addr) pfn) none mm' vaddr page
      by_cases hmm : mm' = mm
      · subst hmm
        have hpte' : s.kernel.pteAt mm' vaddr = some (.present pfn write young dirty) := by
          rw [pteAt_congr hvpn, hpte, hold]
        rw [ShowsBy, hpte'] at hshown
        rw [ShowsBy, hslot, if_pos ⟨rfl, hvpn⟩]
        exact ⟨_, hshown, .inr ⟨entry, (mapLookup_congr hvpn).trans hlookup, hdecoded hpte⟩⟩
      · refine showsBy_of_noMarker (hnoneAt hvpn) ?_ ?_ hshown
        · rw [hslot, if_neg fun hat => hmm hat.1]
        · exact fun _ _ _ _ _ => rfl
  · have hlookup' : mapLookup s.kernel.map (pageMask addr) = some entry := by
      rw [mapLookup_pageMask]
      exact hlookup
    have hput := counts_putPage (s.kernel.dropEntry (pageMask addr) entry.zsHandle) pfn
    refine h.turn hi ((onward_dropEntry _ _ _).trans hput.onward) ?_
      ((h.storage.drop hlookup').same hput.toSameStorage) ?_ ?_ (fun w hw => by cases hw) ?_
    · intro vaddr hne
      refine (sameView_dropEntry h.storage hlookup' ?_).trans (hput.sameView vaddr)
      rw [vaddrToIndex_pageMask]
      exact hne
    · exact h.frames.mono (Nat.le_refl _) fun _ _ _ _ _ _ hp => ⟨_, _, hp⟩
    · intro mm₁ mm₂ vaddr _ hm hm'
      exact h.exclusive mm₁ mm₂ vaddr hm hm'
    · intro mm' vaddr page hvpn hshown
      refine showsBy_of_noMarker (hnoneAt hvpn) ?_ ?_ hshown
      · rfl
      · exact fun _ _ _ _ _ => rfl

/-- A section of a replacement is not seen. -/
theorem ThreadsInv.replaceNext (h : ThreadsInv codec s m) {pc : ReplacePc}
    (hi : s.works i = some (.replace env mm addr pc))
    (hread : ∀ oldPte pfn, pc = .snapshotted oldPte pfn →
      codec.ReadsBack (s.kernel.frames.data pfn))
    (hstep : MiniMem.replaceNext codec env mm addr s.kernel pc = some r) :
    ThreadsInv codec ⟨r.kernel, Function.update s.works i (r.pc.work env mm addr)⟩ m := by
  cases pc with
  | start => exact h.snapshot hi hstep
  | snapshotted oldPte pfn => exact h.compress hi (hread oldPte pfn rfl) hstep
  | compressed oldPte pfn algo bytes => exact h.storePage hi hstep
  | stored oldPte pfn handle => exact h.install hi hstep
  | installed contents => cases hstep
  | failed ret => cases hstep

end Replace

/-! ## The steps of a fault and of a removal -/

/-- An entry is taken out of the map by the thread at its page. -/
theorem ThreadsInv.removeEntry (h : ThreadsInv codec s m) {work : Work}
    (hi : s.works i = some work) {addr : Nat} (haddr : vaddrToIndex addr = work.vpn)
    {work' : Option Work} (hinv : ∀ w, work' = some w → w.vpn = work.vpn ∧
      WorkInv codec (s.kernel.removeEntry addr) w)
    (hshows : ∀ mm vaddr page, vaddrToIndex vaddr = work.vpn →
      ShowsBy codec s.kernel work.carried mm vaddr page →
      ShowsBy codec (s.kernel.removeEntry addr) (work'.bind Work.carried) mm vaddr page) :
    ThreadsInv codec ⟨s.kernel.removeEntry addr, Function.update s.works i work'⟩ m := by
  refine h.turn hi (onward_removeEntry _ _) ?_ (h.storage.removeEntry _) ?_ ?_ hinv hshows
  · intro vaddr hne
    exact sameView_removeEntry fun heq => hne (heq.trans haddr)
  · exact h.frames.mono (Nat.le_refl _) fun _ _ _ _ _ _ hp => ⟨_, _, hp⟩
  · intro mm₁ mm₂ vaddr _ hm hm'
    exact h.exclusive mm₁ mm₂ vaddr hm hm'

/-- A handle is freed that is in no entry. -/
theorem ThreadsInv.freeHandle (h : ThreadsInv codec s m) {work : Work}
    (hi : s.works i = some work) {entry : MapEntry} (hkept : HandleKept s.kernel entry)
    (hk : Counts (s.kernel.freeHandle entry.zsHandle) k') {work' : Option Work}
    (hinv : ∀ w, work' = some w → w.vpn = work.vpn ∧ WorkInv codec k' w)
    (hcarried : work'.bind Work.carried = work.carried) :
    ThreadsInv codec ⟨k', Function.update s.works i work'⟩ m := by
  have hview (vaddr : Nat) : SameView s.kernel k' vaddr :=
    (sameView_freeHandle hkept vaddr).trans (hk.sameView vaddr)
  refine h.turn hi ((onward_freeHandle _ _).trans hk.onward) (fun vaddr _ => hview vaddr)
    ((h.storage.freeHandle hkept).same hk.toSameStorage) (hk.framesOk ?_) ?_ hinv ?_
  · exact h.frames.mono (Nat.le_refl _) fun _ _ _ _ _ _ hp => ⟨_, _, hp⟩
  · intro mm₁ mm₂ vaddr _ hm hm'
    exact h.exclusive mm₁ mm₂ vaddr (((hview vaddr).markerAt _).1 hm) (((hview vaddr).markerAt _).1 hm')
  · intro mm' vaddr page _ hshown
    rw [hcarried]
    exact (hview vaddr).showsBy hshown

section Fault

variable {stock : Bool} {env : FaultEnv} {vmf : FaultInfo} {u : Turn}

theorem vpn_fault (stock : Bool) (env : FaultEnv) (vmf : FaultInfo) (pc : TaskPc) :
    (Work.task (.fault stock env vmf) pc).vpn = vaddrToIndex vmf.address :=
  vaddrToIndex_pageMask _

theorem counts_faultMissed (k : Kernel) : Counts k k.faultMissed := counts_stats k _

theorem counts_faultHandled (k : Kernel) : Counts k k.faultHandled := counts_stats k _

/-- A fault looks its entry up. -/
theorem ThreadsInv.faultLookup (h : ThreadsInv codec s m)
    (hi : s.works i = some (.task (.fault stock env vmf) .start))
    (hstep : lookupTurn none i s.kernel (.fault stock env vmf) = some u) :
    ThreadsInv codec ⟨u.kernel, Function.update s.works i (u.pc.work (.fault stock env vmf))⟩ m := by
  obtain ⟨henv, hfault⟩ : env.relock = .same ∧
    (vmf.origPte.isMinimem = true → Faulting s.kernel vmf) := h.works i _ hi
  simp only [lookupTurn] at hstep
  split at hstep
  · obtain rfl := Option.some.inj hstep
    exact h.returned hi (.refl _) rfl
  split at hstep
  · obtain rfl := Option.some.inj hstep
    exact h.returned hi (.refl _) rfl
  next hmarker =>
    split at hstep
    · obtain rfl := Option.some.inj hstep
      exact h.returned hi (counts_faultMissed _) rfl
    next entry hlookup =>
      split at hstep
      · obtain rfl := Option.some.inj hstep
        exact h.returned hi (counts_faultMissed _) rfl
      split at hstep
      · obtain rfl := Option.some.inj hstep
        exact h.returned hi (counts_faultMissed _) rfl
      · obtain rfl := Option.some.inj hstep
        refine h.counts hi (.refl _) (fun w hw => ?_) rfl
        obtain rfl := Option.some.inj hw
        rw [mapLookup_pageMask] at hlookup
        exact ⟨rfl, henv, hfault (by simpa using hmarker), hlookup⟩

/-- It reads what the entry decodes to. -/
theorem ThreadsInv.faultRead (h : ThreadsInv codec s m) {entry : MapEntry}
    (hi : s.works i = some (.task (.fault stock env vmf) (.looked entry)))
    (hstep : lookedTurn codec none s.kernel entry (.fault stock env vmf) = some u) :
    ThreadsInv codec ⟨u.kernel, Function.update s.works i (u.pc.work (.fault stock env vmf))⟩ m := by
  obtain ⟨henv, hfault, hlookup⟩ : env.relock = .same ∧ Faulting s.kernel vmf ∧
    mapLookup s.kernel.map vmf.address = some entry := h.works i _ hi
  simp only [lookedTurn] at hstep
  split at hstep
  · obtain rfl := Option.some.inj hstep
    exact h.returned hi (counts_faultMissed _) rfl
  split at hstep
  · obtain rfl := Option.some.inj hstep
    exact h.returned hi (counts_faultMissed _) rfl
  next page hdecode =>
    obtain rfl := Option.some.inj hstep
    refine h.counts hi (.refl _) (fun w hw => ?_) rfl
    obtain rfl := Option.some.inj hw
    exact ⟨rfl, henv, hfault, hlookup, hdecode⟩

/-- It takes the entry out and carries the page from here on. -/
theorem ThreadsInv.faultRemove (h : ThreadsInv codec s m) {entry : MapEntry} {page : Page}
    (hi : s.works i = some (.task (.fault stock env vmf) (.decompressed entry page))) :
    ThreadsInv codec ⟨s.kernel.removeEntry (pageMask vmf.address), Function.update s.works i
      (some (.task (.fault stock env vmf) (.removed entry (some page))))⟩ m := by
  obtain ⟨henv, hfault, hlookup, hdecode⟩ : env.relock = .same ∧ Faulting s.kernel vmf ∧
    mapLookup s.kernel.map vmf.address = some entry ∧
      s.kernel.decode codec entry = some page := h.works i _ hi
  have hgone : mapLookup (s.kernel.removeEntry (pageMask vmf.address)).map vmf.address = none := by
    rw [mapLookup, load_removeEntry, vaddrToIndex_pageMask, if_pos rfl]
  refine h.removeEntry hi rfl (fun w hw => ?_) ?_
  · obtain rfl := Option.some.inj hw
    have hlookup' : mapLookup s.kernel.map (pageMask vmf.address) = some entry := by
      rw [mapLookup_pageMask]
      exact hlookup
    exact ⟨rfl, henv, ⟨hfault.marker, hfault.only, hfault.orig⟩, hgone,
      .removed h.storage hlookup', rfl⟩
  · intro mm vaddr shown hvpn hshown
    rw [vpn_fault] at hvpn
    refine hshown.of_behind ?_ ?_ ?_
    · rfl
    · exact fun _ _ _ _ _ => rfl
    · rintro - p (hcarried | ⟨entry', hlookup', hdecode'⟩)
      · cases hcarried
      · rw [mapLookup_congr hvpn, hlookup] at hlookup'
        obtain rfl := Option.some.inj hlookup'
        rw [hdecode] at hdecode'
        exact .inl hdecode'

/-- It frees the handle, which no entry has any more. -/
theorem ThreadsInv.faultFree (h : ThreadsInv codec s m) {entry : MapEntry} {page : Page}
    (hi : s.works i = some (.task (.fault stock env vmf) (.removed entry (some page)))) :
    ThreadsInv codec ⟨s.kernel.freeHandle entry.zsHandle, Function.update s.works i
      (some (.task (.fault stock env vmf) (.freed page)))⟩ m := by
  obtain ⟨henv, hfault, hlookup, hkept, -⟩ : env.relock = .same ∧ Faulting s.kernel vmf ∧
    mapLookup s.kernel.map vmf.address = none ∧ HandleKept s.kernel entry ∧
      (some page).isSome = true := h.works i _ hi
  refine h.freeHandle hi hkept (.refl _) (fun w hw => ?_) rfl
  obtain rfl := Option.some.inj hw
  exact ⟨rfl, henv, ⟨hfault.marker, hfault.only, hfault.orig⟩, hlookup⟩

theorem pteAt_mapNewPage (k : Kernel) (vma : Vma) (mm vaddr mm' vaddr' : Nat) (page : Page) :
    (k.mapNewPage vma mm vaddr page).pteAt mm' vaddr' =
      if mm' = mm ∧ vaddrToIndex vaddr' = vaddrToIndex vaddr then some (newPte vma k.frames.next)
      else k.pteAt mm' vaddr' := by
  rw [Kernel.mapNewPage, pteAt_addAnonPages, pteAt_setPteAt]
  rfl

/-- The page that the thread carries is mapped behind the marker, where it is what shows. -/
theorem ThreadsInv.faultMap (h : ThreadsInv codec s m) {page : Page}
    (hi : s.works i = some (.task (.fault stock env vmf) (.freed page)))
    (hpte : s.kernel.pteAt vmf.mm vmf.address = some vmf.origPte) :
    ThreadsInv codec ⟨(s.kernel.mapNewPage vmf.vma vmf.mm vmf.address page).faultHandled,
      Function.update s.works i none⟩ m := by
  obtain ⟨-, hfault, hlookup⟩ : env.relock = .same ∧ Faulting s.kernel vmf ∧
    mapLookup s.kernel.map vmf.address = none := h.works i _ hi
  have hslot (mm' vaddr : Nat) :=
    pteAt_mapNewPage s.kernel vmf.vma vmf.mm vmf.address mm' vaddr page
  have hdata {mm vaddr pfn : Nat} {write young dirty : Bool}
      (hp : s.kernel.pteAt mm vaddr = some (.present pfn write young dirty)) :
      (s.kernel.mapNewPage vmf.vma vmf.mm vmf.address page).frames.data pfn
        = s.kernel.frames.data pfn := h.frames.data_allocPage hp page
  have hnone {mm' vaddr : Nat} (hvpn : vaddrToIndex vaddr = vaddrToIndex vmf.address)
      (hm : MarkerAt (s.kernel.mapNewPage vmf.vma vmf.mm vmf.address page) mm' vaddr) : False := by
    rw [MarkerAt, hslot] at hm
    split at hm
    · obtain ⟨index, hindex⟩ := hm
      cases hindex
    next hne => exact hne ⟨hfault.only mm' (MarkerAt.congr hvpn.symm hm), hvpn⟩
  refine h.turn hi ⟨Nat.le_succ _, Nat.le_refl _, fun _ _ hfresh => hfresh⟩ ?_
    (h.storage.same (k := s.kernel) ⟨rfl, rfl, Nat.le_refl _⟩) ?_ ?_ (by simp) ?_
  · intro vaddr hne
    rw [vpn_fault] at hne
    refine ⟨fun mm' => ?_, rfl, fun _ _ => rfl, fun _ _ _ _ _ hp => hdata hp⟩
    exact (hslot mm' vaddr).trans (if_neg fun hat => hne hat.2)
  · exact h.frames.newFrame (k := s.kernel) rfl (hslot · ·)
  · intro mm₁ mm₂ vaddr hvpn hm
    rw [vpn_fault] at hvpn
    exact (hnone hvpn hm).elim
  · intro mm' vaddr shown hvpn hshown
    rw [vpn_fault] at hvpn
    by_cases hmm : mm' = vmf.mm
    · subst hmm
      have hat : s.kernel.pteAt vmf.mm vaddr = some vmf.origPte := by rw [pteAt_congr hvpn, hpte]
      obtain ⟨index, hindex⟩ := markerAt_of_isMinimem hat hfault.marker
      rw [ShowsBy, hindex] at hshown
      obtain ⟨p, rfl, hcarried | ⟨entry, hlookup', -⟩⟩ := hshown
      · show ShowsBy codec (s.kernel.mapNewPage vmf.vma vmf.mm vmf.address page) none vmf.mm vaddr
          (some p)
        rw [ShowsBy, hslot, if_pos ⟨rfl, hvpn⟩]
        exact hcarried.symm.trans (congrArg some (data_allocPage_self s.kernel page).symm)
      · rw [mapLookup_congr hvpn, hlookup] at hlookup'
        cases hlookup'
    · refine hshown.of_behind ?_ ?_ ?_
      · exact (hslot mm' vaddr).trans (if_neg fun hat => hmm hat.1)
      · exact fun _ _ _ _ hp => hdata hp
      · exact fun hm => absurd (hfault.only mm' (hm.congr hvpn.symm)) hmm

/-- Where the marker has gone meanwhile, the page is dropped. -/
theorem ThreadsInv.faultDropped (h : ThreadsInv codec s m) {page : Page}
    (hi : s.works i = some (.task (.fault stock env vmf) (.freed page)))
    (hpte : s.kernel.pteAt vmf.mm vmf.address ≠ some vmf.origPte) :
    ThreadsInv codec ⟨s.kernel.faultHandled, Function.update s.works i none⟩ m := by
  obtain ⟨-, hfault, -⟩ : env.relock = .same ∧ Faulting s.kernel vmf ∧
    mapLookup s.kernel.map vmf.address = none := h.works i _ hi
  have hnone : NoMarker s.kernel vmf.address := by
    intro mm' hm
    obtain rfl := hfault.only mm' hm
    exact hpte (hfault.orig hm)
  have hk := counts_faultHandled s.kernel
  refine h.turn hi hk.onward (fun vaddr _ => hk.sameView vaddr) (h.storage.same hk.toSameStorage)
    (hk.framesOk h.frames) ?_ (by simp) ?_
  · intro mm₁ mm₂ vaddr _ hm hm'
    exact h.exclusive mm₁ mm₂ vaddr hm hm'
  · intro mm' vaddr shown hvpn hshown
    rw [vpn_fault] at hvpn
    refine showsBy_of_noMarker (fun mm₁ hm => hnone mm₁ (hm.congr hvpn.symm)) ?_ ?_ hshown
    · rfl
    · exact fun _ _ _ _ _ => rfl

/-- A step of a fault is not seen. -/
theorem ThreadsInv.faultTurn (h : ThreadsInv codec s m) {pc : TaskPc}
    (hi : s.works i = some (.task (.fault stock env vmf) pc))
    (hstep : MiniMem.turn codec none i s.kernel (.fault stock env vmf) pc = some u) :
    ThreadsInv codec ⟨u.kernel, Function.update s.works i (u.pc.work (.fault stock env vmf))⟩ m := by
  have hw : WorkInv codec s.kernel (.task (.fault stock env vmf) pc) := h.works i _ hi
  cases pc with
  | start => exact h.faultLookup hi hstep
  | looked entry => exact h.faultRead hi hstep
  | decompressed entry page =>
      obtain rfl := Option.some.inj hstep
      exact h.faultRemove hi
  | removed entry page =>
      cases page with
      | none => exact absurd hw.2.2.2.2 (by simp)
      | some page =>
          obtain rfl := Option.some.inj hstep
          exact h.faultFree hi
  | freed page =>
      obtain rfl := Option.some.inj hstep
      show ThreadsInv codec ⟨(s.kernel.installPage vmf.vma vmf.mm vmf.address vmf.origPte page
        env.relock).faultHandled, Function.update s.works i none⟩ m
      rw [installPage_eq, hw.1, Kernel.relock]
      by_cases hpte : s.kernel.pteAt vmf.mm vmf.address = some vmf.origPte
      · rw [if_pos hpte]
        exact h.faultMap hi hpte
      · rw [if_neg hpte]
        exact h.faultDropped hi hpte
  | draining | fetched | done => exact hw.2.elim

end Fault

section Remove

variable {u : Turn} {addr : Nat} {entry : MapEntry}

/-- An entry is taken out where there is no marker. -/
theorem ThreadsInv.takeOut (h : ThreadsInv codec s m) {work : Work} (hi : s.works i = some work)
    (haddr : vaddrToIndex addr = work.vpn) (hnone : NoMarker s.kernel addr) {work' : Option Work}
    (hinv : ∀ w, work' = some w → w.vpn = work.vpn ∧
      WorkInv codec (s.kernel.removeEntry addr) w) :
    ThreadsInv codec ⟨s.kernel.removeEntry addr, Function.update s.works i work'⟩ m := by
  refine h.removeEntry hi haddr hinv fun mm vaddr page hvpn hshown => ?_
  refine showsBy_of_noMarker (fun mm₁ hm => hnone mm₁ (hm.congr (haddr.trans hvpn.symm))) ?_ ?_ hshown
  · rfl
  · exact fun _ _ _ _ _ => rfl

/-- Its handle is freed, and the thread returns. -/
theorem ThreadsInv.removeFree (h : ThreadsInv codec s m) {work : Work} (hi : s.works i = some work)
    (hnone : work.carried = none) (hkept : HandleKept s.kernel entry) :
    ThreadsInv codec ⟨(s.kernel.freeHandle entry.zsHandle).uncount entry.compressedLen,
      Function.update s.works i none⟩ m :=
  h.freeHandle hi hkept (counts_uncount _ _) (by simp) hnone.symm

/-- A step of `minimem_zswap_remove` is not seen. -/
theorem ThreadsInv.removeTurn (h : ThreadsInv codec s m) {pc : TaskPc}
    (hi : s.works i = some (.task (.remove addr) pc))
    (hstep : MiniMem.turn codec none i s.kernel (.remove addr) pc = some u) :
    ThreadsInv codec ⟨u.kernel, Function.update s.works i (u.pc.work (.remove addr))⟩ m := by
  have hw : RemoveWork s.kernel addr pc := h.works i _ hi
  cases pc with
  | start =>
      simp only [MiniMem.turn, lookupTurn] at hstep
      split at hstep
      · obtain rfl := Option.some.inj hstep
        exact h.returned hi (.refl _) rfl
      next entry hlookup =>
        obtain rfl := Option.some.inj hstep
        refine h.counts hi (.refl _) (fun w hwork => ?_) rfl
        obtain rfl := Option.some.inj hwork
        exact ⟨rfl, hw, hlookup⟩
  | looked entry =>
      obtain ⟨hnone, hlookup⟩ := hw
      obtain rfl := Option.some.inj hstep
      refine h.takeOut hi rfl hnone fun w hwork => ?_
      have hfound : (mapRemove s.kernel.map addr).1 = true := by
        rw [mapRemove_of_lookup hlookup]
      simp only [hfound, if_true] at hwork
      obtain rfl := Option.some.inj hwork
      exact ⟨rfl, hnone, .removed h.storage hlookup, rfl⟩
  | removed entry page =>
      obtain ⟨hnone, hkept, rfl⟩ := hw
      obtain rfl := Option.some.inj hstep
      exact h.removeFree hi rfl hkept
  | decompressed | freed | draining | fetched | done => exact hw.elim

/-- Nor is one of `minimem_zswap_zap_cb`. -/
theorem ThreadsInv.zapCbTurn (h : ThreadsInv codec s m) {pc : TaskPc}
    (hi : s.works i = some (.task (.zapCb addr) pc))
    (hstep : MiniMem.turn codec none i s.kernel (.zapCb addr) pc = some u) :
    ThreadsInv codec ⟨u.kernel, Function.update s.works i (u.pc.work (.zapCb addr))⟩ m := by
  have hw : RemoveWork s.kernel addr pc := h.works i _ hi
  cases pc with
  | start =>
      simp only [MiniMem.turn, lookupTurn] at hstep
      split at hstep
      · obtain rfl := Option.some.inj hstep
        exact h.returned hi (counts_stats _ _) rfl
      next entry hlookup =>
        obtain rfl := Option.some.inj hstep
        refine h.counts hi (counts_stats _ _) (fun w hwork => ?_) ?_
        · obtain rfl := Option.some.inj hwork
          rw [mapLookup_pageMask] at hlookup
          exact ⟨rfl, hw, hlookup⟩
        · rfl
  | looked entry =>
      obtain ⟨hnone, hlookup⟩ := hw
      obtain rfl := Option.some.inj hstep
      have hmask : NoMarker s.kernel (pageMask addr) := fun mm hm =>
        hnone mm (hm.congr (vaddrToIndex_pageMask addr).symm)
      refine h.takeOut hi rfl hmask fun w hwork => ?_
      obtain rfl := Option.some.inj hwork
      rw [← mapLookup_pageMask] at hlookup
      exact ⟨rfl, hnone, .removed h.storage hlookup, rfl⟩
  | removed entry page =>
      obtain ⟨hnone, hkept, rfl⟩ := hw
      obtain rfl := Option.some.inj hstep
      exact h.removeFree hi rfl hkept
  | decompressed | freed | draining | fetched | done => exact hw.elim

end Remove

/-- A step of a thread is not seen. -/
theorem ThreadsInv.next (h : ThreadsInv codec s m) {work : Work} (hi : s.works i = some work)
    (hread : ∀ env mm addr oldPte pfn, work = .replace env mm addr (.snapshotted oldPte pfn) →
      codec.ReadsBack (s.kernel.frames.data pfn)) {work' : Option Work}
    (hstep : work.next codec i s.kernel = some (k', work')) :
    ThreadsInv codec ⟨k', Function.update s.works i work'⟩ m := by
  cases work with
  | replace env mm addr pc =>
      obtain ⟨r, hr, heq⟩ := Option.map_eq_some_iff.1 hstep
      obtain ⟨rfl, rfl⟩ := Prod.mk.inj heq
      exact h.replaceNext hi (fun oldPte pfn hpc => hread env mm addr oldPte pfn (by rw [hpc])) hr
  | task t pc =>
      obtain ⟨u, hu, heq⟩ := Option.map_eq_some_iff.1 hstep
      obtain ⟨rfl, rfl⟩ := Prod.mk.inj heq
      cases t with
      | fault stock env vmf => exact h.faultTurn hi hu
      | remove vaddr => exact h.removeTurn hi hu
      | zapCb addr => exact h.zapCbTurn hi hu
      | restore | shrink => exact (h.works i _ hi).elim

end MiniMem
