import MiniMem.Kernel.InterleavingSteps

/-!
# MiniMem.Kernel.ConcurrentTransparency

The processes do not notice the module when its threads run at the same
time.  Their own accesses change the memory as plain memory changes, whatever
the thread at that page is in the middle of (`ThreadsInv.pteSet`), and the
steps of the threads do not change it; so the events of every interleaving
are a run of plain memory.
-/

namespace MiniMem

variable {codec : Codec} {k k' : Kernel} {s : Interleaving} {m : Memory} {mm vaddr i : Nat}

/-! ## A thread enters -/

/-- A thread starts on a page that no other works on. -/
theorem ThreadsInv.enter (h : ThreadsInv codec s m) {work : Work} (hi : s.works i = none)
    (halone : Alone s work.vpn) (hnone : work.carried = none)
    (hinv : WorkInv codec s.kernel work) :
    ThreadsInv codec ⟨s.kernel, Function.update s.works i (some work)⟩ m := by
  have hk := Counts.refl s.kernel
  have honly {j : Nat} {w : Work} (hj : Function.update s.works i (some work) j = some w)
      (hv : w.vpn = work.vpn) : j = i := by
    by_contra hji
    rw [Function.update_of_ne hji] at hj
    exact halone j w hj hv
  refine h.move work.vpn hk.onward (fun vaddr _ => hk.sameView vaddr) ?_ h.storage h.frames ?_ ?_ ?_
    (fun _ _ _ => rfl) ?_
  · intro j w hv
    by_cases hji : j = i
    · subst hji
      rw [Function.update_self, hi]
      refine iff_of_false ?_ (by simp)
      intro heq
      exact hv (congrArg Work.vpn (Option.some.inj heq)).symm
    · rw [Function.update_of_ne hji]
  · intro mm₁ mm₂ vaddr _ hm hm'
    exact h.exclusive mm₁ mm₂ vaddr hm hm'
  · intro j j' w w' hj hj' hv hv'
    rw [honly hj hv, honly hj' hv']
  · intro j w hj hv
    rw [honly hj hv, Function.update_self] at hj
    rw [← Option.some.inj hj]
    exact hinv
  · intro mm vaddr hv
    obtain ⟨carried, hcarried, hshown⟩ := h.shows mm vaddr
    rw [hv] at hcarried hshown
    refine ⟨carried, .inl ⟨i, work, Function.update_self .., rfl, ?_⟩, hshown⟩
    rcases hcarried with ⟨j, w, hj, hw, -⟩ | ⟨-, hcarried⟩
    · exact absurd hw (halone j w hj)
    · rw [hcarried, hnone]

/-! ## The processes -/

/-- A process sets a PTE to one that is no marker, and may change the frame behind it. -/
structure PteSet (k k' : Kernel) (mm vaddr : Nat) (pte : Pte) : Prop extends SameStorage k k' where
  nextFrame : k.frames.next ≤ k'.frames.next
  noMarker : pte.isMinimem = false
  pteAt : ∀ mm' vaddr', k'.pteAt mm' vaddr' =
    if mm' = mm ∧ vaddrToIndex vaddr' = vaddrToIndex vaddr then some pte else k.pteAt mm' vaddr'
  data : ∀ mm' vaddr' pfn write young dirty,
    ¬(mm' = mm ∧ vaddrToIndex vaddr' = vaddrToIndex vaddr) →
    k.pteAt mm' vaddr' = some (.present pfn write young dirty) →
    k'.frames.data pfn = k.frames.data pfn

section PteSet

variable {pte : Pte} {addr : Nat}

/-- Frames and handles are not handed out again. -/
theorem PteSet.onward (h : PteSet k k' mm vaddr pte) : Onward k k' where
  frames := h.nextFrame
  handles := h.next
  kept _ _ hnone := by
    rw [h.map]
    exact hnone

/-- At another page nothing has changed. -/
theorem PteSet.sameView (h : PteSet k k' mm vaddr pte)
    (hne : vaddrToIndex addr ≠ vaddrToIndex vaddr) : SameView k k' addr where
  pte mm' := by rw [h.pteAt, if_neg fun hat => hne hat.2]
  lookup := by rw [h.map]
  objs _ _ := by rw [h.objs]
  data mm' _ _ _ _ hp := h.data mm' addr _ _ _ _ (fun hat => hne hat.2) hp

/-- There are no more markers than before. -/
theorem PteSet.markerAt (h : PteSet k k' mm vaddr pte) {mm' : Nat} (hm : MarkerAt k' mm' addr) :
    MarkerAt k mm' addr ∧ k'.pteAt mm' addr = k.pteAt mm' addr := by
  have hpte := h.pteAt mm' addr
  by_cases hat : mm' = mm ∧ vaddrToIndex addr = vaddrToIndex vaddr
  · rw [if_pos hat] at hpte
    obtain ⟨index, hindex⟩ := hm
    rw [hpte] at hindex
    have hno := h.noMarker
    rw [Option.some.inj hindex] at hno
    cases hno
  · rw [if_neg hat] at hpte
    rw [MarkerAt, hpte] at hm
    exact ⟨hm, hpte⟩

/-- No marker comes in. -/
theorem PteSet.noMarker_mono (h : PteSet k k' mm vaddr pte) (hnone : NoMarker k addr) :
    NoMarker k' addr := fun mm' hm => hnone mm' (h.markerAt hm).1

/-- What is stored for a page is as before. -/
theorem PteSet.lookup (h : PteSet k k' mm vaddr pte) (addr : Nat) :
    mapLookup k'.map addr = mapLookup k.map addr := by rw [h.map]

/-- So is what it decodes to. -/
theorem PteSet.decode (h : PteSet k k' mm vaddr pte) (codec : Codec) (entry : MapEntry) :
    k'.decode codec entry = k.decode codec entry := decode_congr (by rw [h.objs])

/-- A fault still finds its own marker and no other. -/
theorem PteSet.faulting (h : PteSet k k' mm vaddr pte) {vmf : FaultInfo} (hf : Faulting k vmf) :
    Faulting k' vmf where
  marker := hf.marker
  only mm' hm := hf.only mm' (h.markerAt hm).1
  orig hm := (h.markerAt hm).2.trans (hf.orig (h.markerAt hm).1)

/-- A fault only asks about the marker that it is on. -/
theorem FaultWork.pteSet (h : PteSet k k' mm vaddr pte) {vmf : FaultInfo} {pc : TaskPc}
    (hw : FaultWork codec k vmf pc) : FaultWork codec k' vmf pc := by
  cases pc with
  | start => exact fun hmarker => h.faulting (hw hmarker)
  | looked entry => exact ⟨h.faulting hw.1, (h.lookup _).trans hw.2⟩
  | decompressed entry page =>
      obtain ⟨hf, hlookup, hdecode⟩ := hw
      exact ⟨h.faulting hf, (h.lookup _).trans hlookup, (h.decode _ _).trans hdecode⟩
  | removed entry page =>
      obtain ⟨hf, hlookup, hkept, hpage⟩ := hw
      exact ⟨h.faulting hf, (h.lookup _).trans hlookup, hkept.onward h.onward, hpage⟩
  | freed page => exact ⟨h.faulting hw.1, (h.lookup _).trans hw.2⟩
  | draining | fetched | done => exact hw

/-- A removal goes on where no marker comes in. -/
theorem RemoveWork.pteSet (h : PteSet k k' mm vaddr pte) {pc : TaskPc}
    (hw : RemoveWork k addr pc) : RemoveWork k' addr pc := by
  cases pc with
  | start => exact h.noMarker_mono hw
  | looked entry => exact ⟨h.noMarker_mono hw.1, (h.lookup _).trans hw.2⟩
  | removed entry page => exact ⟨h.noMarker_mono hw.1, hw.2.1.onward h.onward, hw.2.2⟩
  | decompressed | freed | draining | fetched | done => exact hw

/-- A replacement asks about the PTE of its page and, while that is the one of the snapshot, about
the contents of the frame. -/
theorem ReplaceWork.pteSet (h : PteSet k k' mm vaddr pte) {mm' : Nat} {pc : ReplacePc}
    (hsince : ∀ oldPte pfn, PteSince k mm' addr pfn oldPte → PteSince k' mm' addr pfn oldPte)
    (hdata : ∀ oldPte pfn, PteSince k mm' addr pfn oldPte →
      (∃ algo bytes, pc = .compressed oldPte pfn algo bytes) ∨
        (∃ handle, pc = .stored oldPte pfn handle) →
      k'.pteAt mm' addr = some oldPte →
      k.pteAt mm' addr = some oldPte ∧ k'.frames.data pfn = k.frames.data pfn)
    (hw : ReplaceWork codec k mm' addr pc) : ReplaceWork codec k' mm' addr pc := by
  cases pc with
  | start => exact fun mm₁ hm => hw mm₁ (h.markerAt hm).1
  | snapshotted oldPte pfn => exact ⟨h.noMarker_mono hw.1, hsince _ _ hw.2⟩
  | compressed oldPte pfn algo bytes =>
      obtain ⟨hnone, hold, hdecoded⟩ := hw
      refine ⟨h.noMarker_mono hnone, hsince _ _ hold, fun hpte => ?_⟩
      obtain ⟨hpte, hsame⟩ := hdata _ _ hold (.inl ⟨algo, bytes, rfl⟩) hpte
      rw [hsame, hdecoded hpte]
  | stored oldPte pfn handle =>
      obtain ⟨hnone, hold, entry, hlookup, hhandle, hdecoded⟩ := hw
      refine ⟨h.noMarker_mono hnone, hsince _ _ hold, entry, (h.lookup _).trans hlookup, hhandle,
        fun hpte => ?_⟩
      obtain ⟨hpte, hsame⟩ := hdata _ _ hold (.inr ⟨handle, rfl⟩) hpte
      rw [h.decode, hsame, hdecoded hpte]
  | installed contents => exact hw
  | failed ret => exact hw

/-- What shows depends on the page of the address only. -/
theorem ShowsBy.congr {carried page : Option Page} {vaddr' : Nat}
    (hv : vaddrToIndex vaddr' = vaddrToIndex vaddr) (h : ShowsBy codec k carried mm vaddr page) :
    ShowsBy codec k carried mm vaddr' page := by
  unfold ShowsBy at h ⊢
  rw [pteAt_congr hv, mapLookup_congr hv]
  exact h

/-- What a process does to a page: the threads at other pages and in other address spaces go on
as before, and so does one at this page, if it is no replacement that minds. -/
theorem ThreadsInv.pteSet (h : ThreadsInv codec s m) (hset : PteSet s.kernel k' mm vaddr pte)
    (hframes : FramesOk k') {m' : Memory}
    (hreplace : ∀ i env addr pc, s.works i = some (.replace env mm addr pc) →
      vaddrToIndex addr = vaddrToIndex vaddr → ReplaceWork codec s.kernel mm addr pc →
      ReplaceWork codec k' mm addr pc)
    (hmem : ∀ mm' vpn, ¬(mm' = mm ∧ vpn = vaddrToIndex vaddr) → m' mm' vpn = m mm' vpn)
    (hshown : ∀ carried, ShowsBy codec k' carried mm vaddr (m' mm (vaddrToIndex vaddr))) :
    ThreadsInv codec ⟨k', s.works⟩ m' := by
  refine h.move (vaddrToIndex vaddr) hset.onward (fun vaddr' hne => hset.sameView hne)
    (fun _ _ _ => Iff.rfl) (h.storage.same hset.toSameStorage) hframes ?_ ?_ ?_ ?_ ?_
  · intro mm₁ mm₂ vaddr' _ hm hm'
    exact h.exclusive mm₁ mm₂ vaddr' (hset.markerAt hm).1 (hset.markerAt hm').1
  · intro i j work work' hi hj hv hv'
    exact h.apart i j work work' hi hj (hv.trans hv'.symm)
  · intro i work hi hv
    have hw := h.works i work hi
    cases work with
    | replace env mm' addr pc =>
        refine ⟨hw.1, ?_⟩
        by_cases hmm : mm' = mm
        · subst hmm
          exact hreplace i env addr pc hi hv hw.2
        · have hat : ¬(mm' = mm ∧ vaddrToIndex addr = vaddrToIndex vaddr) := fun hat => hmm hat.1
          have hpte : k'.pteAt mm' addr = s.kernel.pteAt mm' addr := by
            rw [hset.pteAt, if_neg hat]
          refine hw.2.pteSet hset ?_ ?_
          · rintro oldPte pfn ⟨write, young, dirty, hold, hlt, hgrown⟩
            refine ⟨write, young, dirty, hold, Nat.lt_of_lt_of_le hlt hset.nextFrame, ?_⟩
            rw [hpte]
            exact hgrown
          · rintro oldPte pfn ⟨write, young, dirty, rfl, -, -⟩ - hsame
            rw [hpte] at hsame
            exact ⟨hsame, hset.data mm' addr _ _ _ _ hat hsame⟩
    | task t pc =>
        cases t with
        | fault stock env vmf => exact ⟨hw.1, FaultWork.pteSet hset hw.2⟩
        | remove addr => exact RemoveWork.pteSet hset hw
        | zapCb addr => exact RemoveWork.pteSet hset hw
        | restore | shrink => exact hw
  · intro mm' vpn hne
    exact hmem mm' vpn fun hat => hne hat.2
  · intro mm' vaddr' hv
    obtain ⟨carried, hcarried, hshows⟩ := h.shows mm' vaddr'
    rw [hv] at hcarried hshows
    refine ⟨carried, hcarried, ?_⟩
    by_cases hmm : mm' = mm
    · subst hmm
      exact (hshown carried).congr hv
    · have hat : ¬(mm' = mm ∧ vaddrToIndex vaddr' = vaddrToIndex vaddr) := fun hat => hmm hat.1
      rw [hmem mm' _ fun hat => hmm hat.1]
      refine hshows.of_behind ?_ (fun _ _ _ _ hp => hset.data mm' vaddr' _ _ _ _ hat hp) ?_
      · rw [hset.pteAt, if_neg hat]
      · rintro - p (hc | ⟨entry, hlookup, hdecode⟩)
        · exact .inl hc
        · exact .inr ⟨entry, (hset.lookup _).trans hlookup, (hset.decode _ _).trans hdecode⟩

end PteSet

/-! ## Loads and stores -/

/-- What a present page holds is what shows. -/
theorem ThreadsInv.shown_present (h : ThreadsInv codec s m) {pfn : Nat} {write young dirty : Bool}
    (hp : s.kernel.pteAt mm vaddr = some (.present pfn write young dirty)) :
    m mm (vaddrToIndex vaddr) = some (s.kernel.frames.data pfn) := by
  obtain ⟨carried, -, hshows⟩ := h.shows mm vaddr
  rwa [ShowsBy, hp] at hshows

/-- Setting bits of a PTE leaves what has been seen of it since a snapshot. -/
theorem PteSince.setBits {addr pfn₀ pfn : Nat} {oldPte : Pte}
    {write young dirty young' dirty' : Bool}
    (hnext : k.frames.next ≤ k'.frames.next)
    (hp : k.pteAt mm addr = some (.present pfn write young dirty))
    (hp' : k'.pteAt mm addr = some (.present pfn write young' dirty'))
    (hyoung : young = true → young' = true) (hdirty : dirty = true → dirty' = true)
    (h : PteSince k mm addr pfn₀ oldPte) :
    PteSince k' mm addr pfn₀ oldPte ∧
      (k'.pteAt mm addr = some oldPte → k.pteAt mm addr = some oldPte ∧ pfn₀ = pfn) := by
  obtain ⟨write₀, young₀, dirty₀, rfl, hlt, hgrown⟩ := h
  refine ⟨⟨write₀, young₀, dirty₀, rfl, Nat.lt_of_lt_of_le hlt hnext, ?_⟩, ?_⟩
  · intro write₁ young₁ dirty₁ hp₁
    rw [hp'] at hp₁
    cases hp₁
    obtain ⟨hw, hy, hd⟩ := hgrown _ _ _ hp
    exact ⟨hw, fun h => hyoung (hy h), fun h => hdirty (hd h)⟩
  · intro hsame
    rw [hp'] at hsame
    cases hsame
    obtain ⟨-, hy, hd⟩ := hgrown _ _ _ hp
    have hyoung' : young = young' := Bool.eq_iff_iff.2 ⟨hyoung, hy⟩
    have hdirty' : dirty = dirty' := Bool.eq_iff_iff.2 ⟨hdirty, hd⟩
    rw [hp, hyoung', hdirty']
    exact ⟨rfl, rfl⟩

/-- A PTE that maps another frame or none is not the one of the snapshot any more. -/
theorem PteSince.gone {addr pfn₀ : Nat} {oldPte pte : Pte} (hnext : k.frames.next ≤ k'.frames.next)
    (hp' : k'.pteAt mm addr = some pte)
    (hne : ∀ pfn write young dirty, pfn < k.frames.next → pte ≠ .present pfn write young dirty)
    (h : PteSince k mm addr pfn₀ oldPte) :
    PteSince k' mm addr pfn₀ oldPte ∧ k'.pteAt mm addr ≠ some oldPte := by
  obtain ⟨write₀, young₀, dirty₀, rfl, hlt, -⟩ := h
  refine ⟨⟨write₀, young₀, dirty₀, rfl, Nat.lt_of_lt_of_le hlt hnext, ?_⟩, ?_⟩
  · intro write₁ young₁ dirty₁ hp₁
    rw [hp'] at hp₁
    exact absurd (Option.some.inj hp₁) (hne _ _ _ _ hlt)
  · intro hsame
    rw [hp'] at hsame
    exact hne _ _ _ _ hlt (Option.some.inj hsame)

/-- A load sets the accessed bit. -/
theorem ThreadsInv.load (h : ThreadsInv codec s m) {e : Option MemEvent}
    (hload : loadPresent s.kernel mm vaddr = some (k', e)) :
    ∃ m', Simulates Memory.step m m' e ∧ ThreadsInv codec ⟨k', s.works⟩ m' := by
  unfold loadPresent at hload
  split at hload
  next pfn write young dirty hp =>
    obtain ⟨rfl, rfl⟩ := Prod.mk.inj (Option.some.inj hload)
    have hslot := pteAt_setPteAt s.kernel mm
    have hset : PteSet s.kernel (s.kernel.setPteAt mm vaddr (.present pfn write true dirty))
        mm vaddr (.present pfn write true dirty) :=
      ⟨⟨rfl, rfl, Nat.le_refl _⟩, Nat.le_refl _, rfl, fun mm' vaddr' => hslot mm' vaddr vaddr' _,
        fun _ _ _ _ _ _ _ _ => rfl⟩
    refine ⟨m, ?_, h.pteSet hset (h.frames.setBits hp true dirty) ?_ (fun _ _ _ => rfl) ?_⟩
    · rw [Simulates, Memory.step, if_pos (h.shown_present hp)]
    · intro i env addr pc _ hv hw
      have hold : s.kernel.pteAt mm addr = some (.present pfn write young dirty) := by
        rw [pteAt_congr hv, hp]
      have hnew := (hset.pteAt mm addr).trans (if_pos ⟨rfl, hv⟩)
      have hbits {oldPte : Pte} {pfn₀ : Nat} (hsince : PteSince s.kernel mm addr pfn₀ oldPte) :=
        hsince.setBits hset.nextFrame hold hnew (fun _ => rfl) id
      refine hw.pteSet hset (fun oldPte pfn₀ hsince => (hbits hsince).1) ?_
      intro oldPte pfn₀ hsince _ hsame
      exact ⟨((hbits hsince).2 hsame).1, rfl⟩
    · intro carried
      rw [ShowsBy, hset.pteAt, if_pos ⟨rfl, rfl⟩]
      exact h.shown_present hp
  · cases hload

/-- A store to a page that may be written. -/
theorem ThreadsInv.storeWritable (h : ThreadsInv codec s m) {pfn : Nat} {young dirty : Bool}
    (hp : s.kernel.pteAt mm vaddr = some (.present pfn true young dirty)) {page : Page}
    (hseen : ∀ i env addr pc, s.works i = some (.replace env mm addr pc) →
      vaddrToIndex addr = vaddrToIndex vaddr → WriteSeen mm vaddr ⟨s.kernel, pc⟩ (.write page)) :
    ThreadsInv codec ⟨userWrite s.kernel mm vaddr page, s.works⟩
      (m.set mm (vaddrToIndex vaddr) (some page)) := by
  have hwrite : userWrite s.kernel mm vaddr page
      = (s.kernel.writeFrame pfn page).setPteAt mm vaddr (.present pfn true true true) := by
    rw [userWrite, hp]
  have hset : PteSet s.kernel (userWrite s.kernel mm vaddr page) mm vaddr
      (.present pfn true true true) := by
    rw [hwrite]
    refine ⟨⟨rfl, rfl, Nat.le_refl _⟩, Nat.le_refl _, rfl,
      fun mm' vaddr' => pteAt_setPteAt _ mm mm' vaddr vaddr' _, ?_⟩
    intro mm' vaddr' pfn' write' young' dirty' hslot hq
    have hother : pfn' ≠ pfn := by
      rintro rfl
      exact hslot (h.frames.own _ _ _ _ _ _ _ _ _ _ hp hq)
    simp [Kernel.writeFrame, hother]
  have hdata : (userWrite s.kernel mm vaddr page).frames.data pfn = page := by
    rw [hwrite]
    simp [Kernel.writeFrame]
  have hframes : FramesOk (userWrite s.kernel mm vaddr page) := by
    have hsame : FramesOk (s.kernel.writeFrame pfn page) :=
      h.frames.mono (Nat.le_refl _) fun _ _ _ _ _ _ hp => ⟨_, _, hp⟩
    rw [hwrite]
    exact hsame.setBits (k := s.kernel.writeFrame pfn page) hp true true
  refine h.pteSet hset hframes ?_ ?_ ?_
  · intro i env addr pc hi hv hw
    have hold : s.kernel.pteAt mm addr = some (.present pfn true young dirty) := by
      rw [pteAt_congr hv, hp]
    have hnew := (hset.pteAt mm addr).trans (if_pos ⟨rfl, hv⟩)
    have hbits {oldPte : Pte} {pfn₀ : Nat} (hsince : PteSince s.kernel mm addr pfn₀ oldPte) :=
      hsince.setBits hset.nextFrame hold hnew (fun _ => rfl) (fun _ => rfl)
    refine hw.pteSet hset (fun oldPte pfn₀ hsince => (hbits hsince).1) ?_
    intro oldPte pfn₀ hsince hpc hsame
    obtain ⟨hbefore, rfl⟩ := (hbits hsince).2 hsame
    refine ⟨hbefore, ?_⟩
    -- the PTE shows nothing, so the page already held what is stored
    have hbits : oldPte = .present pfn₀ true true true :=
      (Option.some.inj (hnew.symm.trans hsame)).symm
    have hat : s.kernel.pteAt mm vaddr = some oldPte := by rw [← pteAt_congr hv, hbefore]
    have hwritten : page = s.kernel.frames.data pfn₀ := by
      have hseen' := hseen i env addr pc hi hv
      rcases hpc with ⟨algo, bytes, rfl⟩ | ⟨handle, rfl⟩
      · exact hseen' true hbits hat
      · exact hseen' true hbits hat
    rw [hdata, hwritten]
  · intro mm' vpn hne
    rw [Memory.set_apply, if_neg hne]
  · intro carried
    rw [ShowsBy, hset.pteAt, if_pos ⟨rfl, rfl⟩, Memory.set_apply, if_pos ⟨rfl, rfl⟩]
    exact congrArg some hdata.symm

/-- A store to a page that is shared gets a frame of its own. -/
theorem ThreadsInv.storeCopied (h : ThreadsInv codec s m) (mm vaddr pfn : Nat) (page : Page) :
    ThreadsInv codec ⟨s.kernel.copyOnWrite mm vaddr pfn page, s.works⟩
      (m.set mm (vaddrToIndex vaddr) (some page)) := by
  have hset : PteSet s.kernel (s.kernel.copyOnWrite mm vaddr pfn page) mm vaddr
      (.present s.kernel.frames.next true true true) :=
    ⟨⟨rfl, rfl, Nat.le_refl _⟩, Nat.le_succ _, rfl,
      fun mm' vaddr' => pteAt_setPteAt _ mm mm' vaddr vaddr' _,
      fun _ _ _ _ _ _ _ hq => h.frames.data_allocPage hq page⟩
  have hdata : (s.kernel.copyOnWrite mm vaddr pfn page).frames.data s.kernel.frames.next = page :=
    data_allocPage_self (s.kernel.putPage pfn) page
  refine h.pteSet hset (h.frames.newFrame rfl hset.pteAt) ?_ ?_ ?_
  · intro i env addr pc _ hv hw
    have hnew := (hset.pteAt mm addr).trans (if_pos ⟨rfl, hv⟩)
    have hgone {oldPte : Pte} {pfn₀ : Nat} (hsince : PteSince s.kernel mm addr pfn₀ oldPte) :=
      hsince.gone hset.nextFrame hnew fun pfn' _ _ _ hlt heq => by
        cases heq
        exact Nat.lt_irrefl _ hlt
    refine hw.pteSet hset (fun oldPte pfn₀ hsince => (hgone hsince).1) ?_
    intro oldPte pfn₀ hsince _ hsame
    exact absurd hsame (hgone hsince).2
  · intro mm' vpn hne
    rw [Memory.set_apply, if_neg hne]
  · intro carried
    rw [ShowsBy, hset.pteAt, if_pos ⟨rfl, rfl⟩, Memory.set_apply, if_pos ⟨rfl, rfl⟩]
    exact congrArg some hdata.symm

/-- A store is a store to the plain memory, in place or to a copy. -/
theorem ThreadsInv.store (h : ThreadsInv codec s m) {write : Bool} {page : Page}
    {e : Option MemEvent}
    (hseen : ∀ i env addr pc pfn young dirty, s.works i = some (.replace env mm addr pc) →
      vaddrToIndex addr = vaddrToIndex vaddr →
      s.kernel.pteAt mm vaddr = some (.present pfn true young dirty) →
      WriteSeen mm vaddr ⟨s.kernel, pc⟩ (.write page))
    (hstore : storePresent s.kernel mm vaddr write page = some (k', e)) :
    ∃ m', Simulates Memory.step m m' e ∧ ThreadsInv codec ⟨k', s.works⟩ m' := by
  have hsim {pfn : Nat} {write young dirty : Bool}
      (hp : s.kernel.pteAt mm vaddr = some (.present pfn write young dirty)) :
      Simulates Memory.step m (m.set mm (vaddrToIndex vaddr) (some page))
        (some (.stored mm (vaddrToIndex vaddr) page)) := by
    rw [Simulates, Memory.step, h.shown_present hp]
    rfl
  unfold storePresent at hstore
  split at hstore
  next pfn young dirty hp =>
    obtain ⟨rfl, rfl⟩ := Prod.mk.inj (Option.some.inj hstore)
    exact ⟨_, hsim hp, h.storeWritable hp fun i env addr pc hi hv =>
      hseen i env addr pc pfn young dirty hi hv hp⟩
  next pfn young dirty hp =>
    split at hstore
    · obtain ⟨rfl, rfl⟩ := Prod.mk.inj (Option.some.inj hstore)
      exact ⟨_, hsim hp, h.storeCopied mm vaddr pfn page⟩
    · cases hstore
  · cases hstore

/-- A page is unmapped; a thread that works on it finds the PTE changed. -/
theorem ThreadsInv.unmap (h : ThreadsInv codec s m) (mm vaddr : Nat) :
    ThreadsInv codec ⟨userUnmap false s.kernel mm vaddr, s.works⟩
      (m.set mm (vaddrToIndex vaddr) none) := by
  unfold userUnmap
  cases hp : s.kernel.pteAt mm vaddr with
  | none =>
      have hsame : m.set mm (vaddrToIndex vaddr) none = m := by
        funext mm' vpn
        rw [Memory.set_apply]
        split
        next hat =>
          obtain ⟨carried, -, hshows⟩ := h.shows mm vaddr
          rw [ShowsBy, hp] at hshows
          rw [hat.1, hat.2, hshows]
        · rfl
      rw [hsame]
      exact h
  | some pte =>
      simp only [Bool.and_false, Bool.false_eq_true, if_false]
      have hset : PteSet s.kernel (s.kernel.setPteAt mm vaddr .empty) mm vaddr .empty :=
        ⟨⟨rfl, rfl, Nat.le_refl _⟩, Nat.le_refl _, rfl,
          fun mm' vaddr' => pteAt_setPteAt _ mm mm' vaddr vaddr' _, fun _ _ _ _ _ _ _ _ => rfl⟩
      refine h.pteSet hset (h.frames.mono (Nat.le_refl _) ?_) ?_ ?_ ?_
      · intro mm' vaddr' pfn write young dirty hq
        rw [hset.pteAt] at hq
        split at hq
        · cases hq
        · exact ⟨_, _, hq⟩
      · intro i env addr pc _ hv hw
        have hnew := (hset.pteAt mm addr).trans (if_pos ⟨rfl, hv⟩)
        have hgone {oldPte : Pte} {pfn₀ : Nat} (hsince : PteSince s.kernel mm addr pfn₀ oldPte) :=
          hsince.gone hset.nextFrame hnew (by simp)
        refine hw.pteSet hset (fun oldPte pfn₀ hsince => (hgone hsince).1) ?_
        intro oldPte pfn₀ hsince _ hsame
        exact absurd hsame (hgone hsince).2
      · intro mm' vpn hne
        rw [Memory.set_apply, if_neg hne]
      · intro carried
        rw [ShowsBy, hset.pteAt, if_pos ⟨rfl, rfl⟩, Memory.set_apply, if_pos ⟨rfl, rfl⟩]

/-! ## The refinement -/

/-- One step in order keeps the invariant and does to the memory what its event says. -/
theorem ThreadsInv.step (h : ThreadsInv codec s m) {label : ThreadLabel} {t : Interleaving}
    {e : Option MemEvent} (horder : InOrder codec s label)
    (hstep : threadsStep codec s label = some (t, e)) :
    ∃ m', Simulates Memory.step m m' e ∧ ThreadsInv codec t m' := by
  have hidle {i : Nat} (hi : ¬(s.works i).isSome = true) : s.works i = none := by simpa using hi
  cases label with
  | replace i env mm addr =>
      simp only [threadsStep] at hstep
      split at hstep
      · cases hstep
      next hi =>
        obtain ⟨rfl, rfl⟩ := Prod.mk.inj (Option.some.inj hstep)
        obtain ⟨henv, halone, honly⟩ := horder
        exact ⟨m, rfl, h.enter (hidle hi) halone rfl ⟨henv, honly⟩⟩
  | call i task =>
      simp only [threadsStep] at hstep
      split at hstep
      · cases hstep
      next hi =>
        obtain ⟨rfl, rfl⟩ := Prod.mk.inj (Option.some.inj hstep)
        obtain ⟨halone, hcalled⟩ := horder
        refine ⟨m, rfl, h.enter (hidle hi) halone ?_ ?_⟩
        · cases task <;> rfl
        · cases task with
          | fault stock env vmf =>
              obtain ⟨henv, hpte⟩ := hcalled
              refine ⟨henv, fun hmarker => ⟨hmarker, fun mm' hm => ?_, fun _ => hpte⟩⟩
              exact h.exclusive mm' vmf.mm vmf.address hm (markerAt_of_isMinimem hpte hmarker)
          | remove vaddr => exact hcalled
          | zapCb addr => exact hcalled
          | restore | shrink => exact hcalled.elim
  | next i =>
      simp only [threadsStep] at hstep
      split at hstep
      · cases hstep
      next work hi =>
        split at hstep
        · cases hstep
        next k' work' hnext =>
          obtain ⟨rfl, rfl⟩ := Prod.mk.inj (Option.some.inj hstep)
          refine ⟨m, rfl, h.next hi ?_ hnext⟩
          rintro env mm addr oldPte pfn rfl
          exact horder env mm addr oldPte pfn hi
  | load mm vaddr =>
      obtain ⟨r, hr, heq⟩ := Option.map_eq_some_iff.1 hstep
      obtain ⟨rfl, rfl⟩ := Prod.mk.inj heq
      exact h.load hr
  | store mm vaddr write page =>
      obtain ⟨r, hr, heq⟩ := Option.map_eq_some_iff.1 hstep
      obtain ⟨rfl, rfl⟩ := Prod.mk.inj heq
      exact h.store horder hr
  | unmap mm vaddr =>
      obtain ⟨rfl, rfl⟩ := Prod.mk.inj (Option.some.inj hstep)
      exact ⟨_, rfl, h.unmap mm vaddr⟩

/-- Behind a marker on which no thread works is an entry that decodes. -/
theorem ThreadsInv.backed (h : ThreadsInv codec s m) (hm : MarkerAt s.kernel mm vaddr)
    (halone : Alone s (vaddrToIndex vaddr)) :
    ∃ entry page, mapLookup s.kernel.map vaddr = some entry ∧
      s.kernel.decode codec entry = some page := by
  obtain ⟨carried, hcarried, hshows⟩ := h.shows mm vaddr
  obtain ⟨index, hindex⟩ := hm
  rw [ShowsBy, hindex] at hshows
  obtain ⟨p, -, hc | ⟨entry, hlookup, hdecode⟩⟩ := hshows
  · rcases hcarried with ⟨i, work, hi, hvpn, -⟩ | ⟨-, hnone⟩
    · exact absurd hvpn (halone i work hi)
    · rw [hnone] at hc
      cases hc
  · exact ⟨entry, p, hlookup, hdecode⟩

end MiniMem
