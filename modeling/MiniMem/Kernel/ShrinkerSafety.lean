import MiniMem.Kernel.Shrinker

/-!
# MiniMem.Kernel.ShrinkerSafety

What the shrinker does to compressed pages.  It takes the entries with the
lowest indices out of the map and frees their objects; it restores nothing,
so a marker survives exactly when its handle is not among those.
-/

namespace MiniMem

/-- Every marker is backed by an entry with a live handle. -/
def MarkersBacked (k : Kernel) : Prop :=
  ∀ mm vaddr index, k.pteAt mm vaddr = some (.marker index) →
    ∃ entry, mapLookup k.map vaddr = some entry ∧ k.pool.Live entry.zsHandle

/-- A marker of `k` is still backed in `k'`, or its page has been restored there. -/
def MarkerKept (codec : Codec) (k k' : Kernel) (mm vaddr : Nat) : Prop :=
  (∃ index entry, k'.pteAt mm vaddr = some (.marker index) ∧
      mapLookup k'.map vaddr = some entry ∧ k'.pool.Live entry.zsHandle) ∨
    ∃ entry page, mapLookup k.map vaddr = some entry ∧ k.decode codec entry = some page ∧
      k'.pageAt mm vaddr = some page

/-- Every marker of `k` is kept in `k'`. -/
def MarkersKept (codec : Codec) (k k' : Kernel) : Prop :=
  ∀ mm vaddr index, k.pteAt mm vaddr = some (.marker index) → MarkerKept codec k k' mm vaddr

/-- No handle of a marker is among the handles of a list of entries. -/
def MarkersOutside (k : Kernel) (drained : List (Nat × MapEntry)) : Prop :=
  ∀ mm vaddr index entry, k.pteAt mm vaddr = some (.marker index) →
    mapLookup k.map vaddr = some entry → ∀ p ∈ drained, p.2.zsHandle ≠ entry.zsHandle

/-! ## What a drain leaves -/

/-- From `k` to `k'` the given entries were taken out and their objects freed. -/
structure Drained (k k' : Kernel) (drained : List (Nat × MapEntry)) : Prop where
  mms : k'.mms = k.mms
  frames : k'.frames = k.frames
  load : ∀ i, k'.map.entries.load i =
    if i ∈ drained.map Prod.fst then none else k.map.entries.load i
  objs : ∀ h, k'.pool.objs h =
    if h ∈ drained.map (fun p => p.2.zsHandle) then none else k.pool.objs h

/-- The loop of the drain takes out the first entries from its cursor on. -/
theorem mapDrainLoop_drained (n cursor : Nat) (k : Kernel) :
    Drained k (mapDrainLoop shrinkDrainCallback n cursor k).2
      ((k.map.entries.entriesFrom cursor).take n) := by
  induction n generalizing cursor k with
  | zero => exact ⟨rfl, rfl, by simp [mapDrainLoop], by simp [mapDrainLoop]⟩
  | succ n ih =>
      unfold mapDrainLoop
      rw [XArray.findFrom_eq_head?]
      cases hfrom : k.map.entries.entriesFrom cursor with
      | nil => exact ⟨rfl, rfl, by simp, by simp⟩
      | cons p rest =>
          obtain ⟨index, entry⟩ := p
          have hnext := ih (index + 1) (shrinkDrainCallback
            { k with map := ⟨k.map.entries.erase index, k.map.count - 1⟩ }
            (indexToVaddr index) entry)
          have hrest := XArray.entriesFrom_erase hfrom
          simp only [shrinkDrainCallback, hrest] at hnext
          refine ⟨hnext.mms, hnext.frames, ?_, ?_⟩
          · intro i
            refine (hnext.load i).trans ?_
            rw [XArray.load_erase]
            simp only [List.take_succ_cons, List.map_cons, List.mem_cons]
            by_cases hi : i = index
            · simp [hi]
            · simp [hi]
          · intro h
            refine (hnext.objs h).trans ?_
            rw [objs_free]
            simp only [List.take_succ_cons, List.map_cons, List.mem_cons]
            by_cases hh : h = entry.zsHandle
            · simp [hh]
            · simp [hh]

/-- A scan takes out the first entries of the map. -/
theorem shrinkScan_drained (k : Kernel) (nrToScan : Nat) :
    Drained k (shrinkScan k nrToScan).2 (k.map.entries.toList.take nrToScan) := by
  have h := mapDrainLoop_drained nrToScan 0 k
  rw [XArray.entriesFrom_zero] at h
  unfold shrinkScan
  by_cases hzero : nrToScan = 0
  · subst hzero
    exact ⟨rfl, rfl, by simp, by simp⟩
  · rw [if_neg hzero]
    exact h

/-! ## Which markers survive -/

/-- A drain keeps every marker exactly when it frees no marker's handle. -/
theorem markersKept_iff_of_drained {codec : Codec} {k k' : Kernel}
    {drained : List (Nat × MapEntry)} (hbacked : MarkersBacked k) (h : Drained k k' drained)
    (hmapped : ∀ p ∈ drained, k.map.entries.load p.1 = some p.2) :
    MarkersKept codec k k' ↔ MarkersOutside k drained := by
  have hpte : ∀ mm vaddr, k'.pteAt mm vaddr = k.pteAt mm vaddr := by
    intro mm vaddr
    rw [Kernel.pteAt, h.mms, ← Kernel.pteAt]
  constructor
  · intro hkept mm vaddr index entry hmarker hlookup p hp hhandle
    rcases hkept mm vaddr index hmarker with ⟨index', entry', -, hlookup', hlive⟩ |
      ⟨_, _, -, -, hpresent⟩
    · rw [mapLookup, h.load] at hlookup'
      split at hlookup'
      · cases hlookup'
      · rw [← mapLookup, hlookup] at hlookup'
        injection hlookup' with hentry
        have hmem : entry'.zsHandle ∈ drained.map (fun p => p.2.zsHandle) := by
          rw [← hentry, ← hhandle]
          exact List.mem_map_of_mem hp
        rw [Pool.Live, h.objs, if_pos hmem] at hlive
        cases hlive
    · rw [Kernel.pageAt, hpte, hmarker] at hpresent
      cases hpresent
  · intro houtside mm vaddr index hmarker
    obtain ⟨entry, hlookup, hlive⟩ := hbacked mm vaddr index hmarker
    have hfree := houtside mm vaddr index entry hmarker hlookup
    refine .inl ⟨index, entry, by rw [hpte, hmarker], ?_, ?_⟩
    · rw [mapLookup, h.load, if_neg, ← mapLookup, hlookup]
      intro hmem
      obtain ⟨p, hp, hindex⟩ := List.mem_map.mp hmem
      have hload := hmapped p hp
      rw [hindex, ← mapLookup, hlookup] at hload
      injection hload with hentry
      exact hfree p hp (by rw [hentry])
    · rw [Pool.Live, h.objs, if_neg]
      · exact hlive
      · intro hmem
        obtain ⟨p, hp, hhandle⟩ := List.mem_map.mp hmem
        exact hfree p hp hhandle

theorem load_of_mem_take {x : XArray MapEntry} {n : Nat} {p : Nat × MapEntry}
    (hp : p ∈ x.toList.take n) : x.load p.1 = some p.2 :=
  XArray.mem_toList_iff_load.1 (List.mem_of_mem_take hp)

/-- **The shrinker and data**: a scan keeps every compressed page exactly when no marker's
handle is among those of the first `nrToScan` entries of the map. -/
theorem shrinkScan_markersKept_iff (codec : Codec) {k : Kernel} (hbacked : MarkersBacked k)
    (nrToScan : Nat) :
    MarkersKept codec k (shrinkScan k nrToScan).2 ↔
      MarkersOutside k (k.map.entries.toList.take nrToScan) :=
  markersKept_iff_of_drained hbacked (shrinkScan_drained k nrToScan) fun _ => load_of_mem_take

/-! ## One page under pressure -/

theorem markersBacked_oneMarker : MarkersBacked .oneMarker := by
  intro mm vaddr index hmarker
  simp only [Kernel.pteAt, Kernel.oneMarker] at hmarker
  split at hmarker
  next hat =>
    refine ⟨⟨.samePage, 1, 1⟩, ?_, rfl⟩
    rw [mapLookup, hat.2]
    decide
  · cases hmarker

theorem markersBacked_twoEntries : MarkersBacked (.twoEntries false) := by
  intro mm vaddr index hmarker
  have hidx : vaddrToIndex vaddr = 2 := by
    simp only [Kernel.pteAt, Kernel.twoEntries] at hmarker
    grind
  refine ⟨⟨.samePage, 1, 2⟩, ?_, rfl⟩
  rw [mapLookup, hidx]
  decide

/-- The entry of a page that is gone lies in front of the entry of a marker; scanning one
entry keeps the marker. -/
theorem shrinkScan_markersKept_iff_front :
    MarkersBacked (.twoEntries false) ∧
      MarkersKept samePageCodec (.twoEntries false) (shrinkScan (.twoEntries false) 1).2 := by
  refine ⟨markersBacked_twoEntries, ?_⟩
  rw [shrinkScan_markersKept_iff samePageCodec markersBacked_twoEntries 1]
  have hfirst : (Kernel.twoEntries false).map.entries.toList.take 1
      = [(1, ⟨.samePage, 1, 1⟩)] := by decide
  intro mm vaddr index entry hmarker hlookup p hp
  have hidx : vaddrToIndex vaddr = 2 := by
    simp only [Kernel.pteAt, Kernel.twoEntries] at hmarker
    grind
  have hentry : mapLookup (Kernel.twoEntries false).map vaddr = some ⟨.samePage, 1, 2⟩ := by
    rw [mapLookup, hidx]
    decide
  rw [hentry] at hlookup
  injection hlookup with hlookup
  rw [hfirst, List.mem_singleton] at hp
  rw [hp, ← hlookup]
  decide

/-- Scanning one entry loses the only compressed page. -/
theorem not_markersKept_scan_one :
    MarkersBacked .oneMarker ∧
      ¬ MarkersKept samePageCodec .oneMarker (shrinkScan .oneMarker 1).2 := by
  refine ⟨markersBacked_oneMarker, ?_⟩
  rw [markersKept_iff_of_drained markersBacked_oneMarker (shrinkScan_drained .oneMarker 1)
    fun _ => load_of_mem_take]
  intro houtside
  have hfirst : Kernel.oneMarker.map.entries.toList.take 1 = [(1, ⟨.samePage, 1, 1⟩)] := by decide
  rw [hfirst] at houtside
  exact houtside 0 0x1000 1 ⟨.samePage, 1, 1⟩ rfl (by decide) _ List.mem_cons_self rfl

end MiniMem
