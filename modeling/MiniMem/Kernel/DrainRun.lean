import MiniMem.Kernel.Map
import MiniMem.Kernel.Shrinker
import MiniMem.Machine

/-!
# MiniMem.Kernel.DrainRun

`minimem_map_drain` against the threads that store meanwhile.  The drain holds
the map's semaphore for writing all along, so nobody removes an entry, but it
drops the spinlock around each callback, and `minimem_map_store` takes the
spinlock alone.  A run interleaves the sections of the drain under the lock
with any stores that fall into its callbacks.
-/

namespace MiniMem

/-! ## The interleaving -/

/-- Where the drain is: under the lock, about to look for the next entry from `cursor` on, in
the callback for the entry that was at `index`, or finished. -/
inductive DrainPos where
  | fetch (cursor : Nat)
  | callback (index : Nat)
  | done
  deriving DecidableEq, Repr

/-- The next thing to happen: the drain fetches, another thread calls `minimem_map_store`, or
the callback returns. -/
inductive DrainLabel where
  | fetch
  | store (vaddr : Nat) (entry : MapEntry) (entryAlloc xaStore : Bool)
  | ret

/-- The map and the drain, with the addresses and entries that the callbacks got and those that
were stored since the drain began. -/
structure DrainState where
  map : CompressionMap
  pos : DrainPos
  drained : Nat
  calls : List (Nat × MapEntry)
  stored : List (Nat × MapEntry)

/-- The drain with the lock taken and nothing fetched. -/
def DrainState.init (map : CompressionMap) : DrainState := ⟨map, .fetch 0, 0, [], []⟩

/-- One step of the drain or of a thread that stores.  The drain takes an entry out and enters
its callback in one section under the lock. -/
def drainStep (maxEntries : Nat) (s : DrainState) : DrainLabel → Option DrainState
  | .fetch =>
      match s.pos with
      | .fetch cursor =>
          match s.map.entries.findFrom cursor with
          | none => some { s with pos := .done }
          | some (index, entry) =>
              if maxEntries ≤ s.drained then some { s with pos := .done }
              else some { s with
                map := ⟨s.map.entries.erase index, s.map.count - 1⟩
                pos := .callback index
                calls := s.calls ++ [(indexToVaddr index, entry)] }
      | _ => none
  | .store vaddr entry entryAlloc xaStore =>
      match s.pos with
      | .callback _ =>
          match mapStore s.map vaddr entry entryAlloc xaStore with
          | .error _ => some s
          | .ok map => some { s with map := map, stored := s.stored ++ [(pageMask vaddr, entry)] }
      | _ => none
  | .ret =>
      match s.pos with
      | .callback index => some { s with pos := .fetch (index + 1), drained := s.drained + 1 }
      | _ => none

/-- The stores are at indices that are not in use. -/
def StoresUnused (s : DrainState) : DrainLabel → Prop
  | .store vaddr _ _ _ => s.map.entries.load (vaddrToIndex vaddr) = none
  | _ => True

/-! ## What a step can do -/

section Steps

variable {maxEntries : Nat} {s s' : DrainState}

theorem drainStep_fetch (h : drainStep maxEntries s .fetch = some s') :
    ∃ cursor, s.pos = .fetch cursor ∧
      (s' = { s with pos := .done } ∨
        ∃ index entry, s.map.entries.load index = some entry ∧ cursor ≤ index ∧
          s.drained < maxEntries ∧ s' = { s with
            map := ⟨s.map.entries.erase index, s.map.count - 1⟩
            pos := .callback index
            calls := s.calls ++ [(indexToVaddr index, entry)] }) := by
  unfold drainStep at h
  cases hpos : s.pos with
  | callback index => simp [hpos] at h
  | done => simp [hpos] at h
  | fetch cursor =>
      refine ⟨cursor, rfl, ?_⟩
      simp only [hpos] at h
      cases hfind : s.map.entries.findFrom cursor with
      | none =>
          simp only [hfind, Option.some.injEq] at h
          exact .inl h.symm
      | some found =>
          obtain ⟨index, entry⟩ := found
          simp only [hfind] at h
          obtain ⟨hload, hcursor, -⟩ := XArray.findFrom_eq_some hfind
          -- the stop test comes after the fetch and before the erase
          by_cases hstop : maxEntries ≤ s.drained
          · rw [if_pos hstop] at h
            injection h with h
            exact .inl h.symm
          · rw [if_neg hstop] at h
            injection h with h
            exact .inr ⟨index, entry, hload, hcursor, Nat.lt_of_not_le hstop, h.symm⟩

theorem drainStep_store {vaddr : Nat} {entry : MapEntry} {entryAlloc xaStore : Bool}
    (h : drainStep maxEntries s (.store vaddr entry entryAlloc xaStore) = some s') :
    ∃ index, s.pos = .callback index ∧
      (s' = s ∨ s' = { s with
        map := ⟨s.map.entries.store (vaddrToIndex vaddr) entry, s.map.count + 1⟩
        stored := s.stored ++ [(pageMask vaddr, entry)] }) := by
  unfold drainStep at h
  cases hpos : s.pos with
  | fetch cursor => simp [hpos] at h
  | done => simp [hpos] at h
  | callback index =>
      refine ⟨index, rfl, ?_⟩
      simp only [hpos] at h
      cases hstore : mapStore s.map vaddr entry entryAlloc xaStore with
      | error code =>
          simp only [hstore, Option.some.injEq] at h
          exact .inl h.symm
      | ok map =>
          simp only [hstore, Option.some.injEq] at h
          rw [mapStore_ok hstore] at h
          exact .inr h.symm

theorem drainStep_ret (h : drainStep maxEntries s .ret = some s') :
    ∃ index, s.pos = .callback index ∧
      s' = { s with pos := .fetch (index + 1), drained := s.drained + 1 } := by
  unfold drainStep at h
  cases hpos : s.pos with
  | fetch cursor => simp [hpos] at h
  | done => simp [hpos] at h
  | callback index =>
      simp only [hpos, Option.some.injEq] at h
      exact ⟨index, rfl, h.symm⟩

end Steps

/-! ## Conservation -/

/-- The entries of a map, each with the address of its page. -/
def CompressionMap.pages (map : CompressionMap) : List (Nat × MapEntry) :=
  map.entries.toList.map fun p => (indexToVaddr p.1, p.2)

theorem indexToVaddr_vaddrToIndex (vaddr : Nat) :
    indexToVaddr (vaddrToIndex vaddr) = pageMask vaddr := by
  simp [indexToVaddr, vaddrToIndex, pageMask, pageShift, pageSize, Nat.shiftLeft_eq,
    Nat.shiftRight_eq_div_pow]

theorem indexToVaddr_lt {i j : Nat} (h : i < j) : indexToVaddr i < indexToVaddr j := by
  simp only [indexToVaddr, Nat.shiftLeft_eq]
  exact Nat.mul_lt_mul_of_pos_right h (by decide)

/-- Erasing an entry takes its page out. -/
theorem pages_perm_erase {map : CompressionMap} {index : Nat} {entry : MapEntry} (count : Int)
    (h : map.entries.load index = some entry) :
    map.pages.Perm
      ((indexToVaddr index, entry) :: CompressionMap.pages ⟨map.entries.erase index, count⟩) :=
  (XArray.toList_perm_erase h).map _

/-- Storing at an unused index adds a page. -/
theorem pages_perm_store {map : CompressionMap} {vaddr : Nat} {entry : MapEntry} (count : Int)
    (h : map.entries.load (vaddrToIndex vaddr) = none) :
    (CompressionMap.pages ⟨map.entries.store (vaddrToIndex vaddr) entry, count⟩).Perm
      ((pageMask vaddr, entry) :: map.pages) := by
  have hperm := (XArray.toList_perm_store (e := entry) h).map
    fun p : Nat × MapEntry => (indexToVaddr p.1, p.2)
  rwa [List.map_cons, indexToVaddr_vaddrToIndex] at hperm

/-- The callbacks that have returned, and the bound on the addresses that they got. -/
def DrainPos.Counts (calls : List (Nat × MapEntry)) (drained : Nat) : DrainPos → Prop
  | .fetch cursor => drained = calls.length ∧ ∀ p ∈ calls, p.1 < indexToVaddr cursor
  | .callback index => drained + 1 = calls.length ∧ ∀ p ∈ calls, p.1 ≤ indexToVaddr index
  | .done => drained = calls.length

/-- What holds throughout a drain that began with `map`. -/
structure DrainInv (map : CompressionMap) (maxEntries : Nat) (s : DrainState) : Prop where
  conserved : (map.pages ++ s.stored).Perm (s.calls ++ s.map.pages)
  ascending : s.calls.Pairwise fun p q => p.1 < q.1
  bounded : s.calls.length ≤ maxEntries
  counted : s.map.count = map.count + s.stored.length - s.calls.length
  position : s.pos.Counts s.calls s.drained

section Invariant

variable {map : CompressionMap} {maxEntries : Nat} {s s' : DrainState}

theorem DrainInv.init (map : CompressionMap) (maxEntries : Nat) :
    DrainInv map maxEntries (.init map) where
  conserved := by simp [DrainState.init]
  ascending := .nil
  bounded := Nat.zero_le _
  counted := by simp [DrainState.init]
  position := by simp [DrainState.init, DrainPos.Counts]

theorem DrainInv.fetch (hs : DrainInv map maxEntries s)
    (h : drainStep maxEntries s .fetch = some s') : DrainInv map maxEntries s' := by
  obtain ⟨hconserved, hascending, hbounded, hcounted, hposition⟩ := hs
  obtain ⟨cursor, hpos, rfl | ⟨index, entry, hload, hcursor, hmax, rfl⟩⟩ := drainStep_fetch h
  all_goals rw [hpos] at hposition; obtain ⟨hdrained, hbelow⟩ := hposition
  · exact ⟨hconserved, hascending, hbounded, hcounted, hdrained⟩
  · have hlast : ∀ p ∈ s.calls, p.1 < indexToVaddr index := by
      intro p hp
      have hlt := hbelow p hp
      rcases Nat.eq_or_lt_of_le hcursor with rfl | hlt'
      · exact hlt
      · exact hlt.trans (indexToVaddr_lt hlt')
    constructor
    · -- the entry goes from the map to the calls
      refine hconserved.trans ?_
      rw [List.append_assoc]
      exact (pages_perm_erase _ hload).append_left s.calls
    · rw [List.pairwise_append]
      refine ⟨hascending, List.pairwise_singleton _ _, ?_⟩
      intro p hp q hq
      rw [List.mem_singleton.1 hq]
      exact hlast p hp
    · rw [List.length_append, List.length_singleton]
      omega
    · simp only [List.length_append, List.length_singleton]
      omega
    · refine ⟨by rw [List.length_append, List.length_singleton, hdrained], ?_⟩
      intro p hp
      rcases List.mem_append.1 hp with hp | hp
      · exact (hlast p hp).le
      · rw [List.mem_singleton.1 hp]

theorem DrainInv.store {vaddr : Nat} {entry : MapEntry} {entryAlloc xaStore : Bool}
    (hs : DrainInv map maxEntries s) (hvacant : s.map.entries.load (vaddrToIndex vaddr) = none)
    (h : drainStep maxEntries s (.store vaddr entry entryAlloc xaStore) = some s') :
    DrainInv map maxEntries s' := by
  obtain ⟨index, hpos, rfl | rfl⟩ := drainStep_store h
  · exact hs
  · obtain ⟨hconserved, hascending, hbounded, hcounted, hposition⟩ := hs
    refine ⟨?_, hascending, hbounded, ?_, hposition⟩
    · calc map.pages ++ (s.stored ++ [(pageMask vaddr, entry)])
          = (map.pages ++ s.stored) ++ [(pageMask vaddr, entry)] := by rw [List.append_assoc]
        List.Perm _ ((s.calls ++ s.map.pages) ++ [(pageMask vaddr, entry)]) :=
          hconserved.append_right _
        _ = s.calls ++ (s.map.pages ++ [(pageMask vaddr, entry)]) := by rw [List.append_assoc]
        List.Perm _ (s.calls ++ ((pageMask vaddr, entry) :: s.map.pages)) :=
          (List.perm_append_singleton _ _).append_left _
        List.Perm _ _ := (pages_perm_store _ hvacant).symm.append_left _
    · simp only [List.length_append, List.length_singleton]
      omega

theorem DrainInv.ret (hs : DrainInv map maxEntries s)
    (h : drainStep maxEntries s .ret = some s') : DrainInv map maxEntries s' := by
  obtain ⟨index, hpos, rfl⟩ := drainStep_ret h
  obtain ⟨hconserved, hascending, hbounded, hcounted, hposition⟩ := hs
  rw [hpos] at hposition
  obtain ⟨hdrained, hbelow⟩ := hposition
  refine ⟨hconserved, hascending, hbounded, hcounted, hdrained, ?_⟩
  intro p hp
  exact (hbelow p hp).trans_lt (indexToVaddr_lt (Nat.lt_succ_self index))

/-- A step of the drain keeps the invariant, and so does a store at an unused index. -/
theorem DrainInv.step {label : DrainLabel} (hs : DrainInv map maxEntries s)
    (hvacant : StoresUnused s label) (h : drainStep maxEntries s label = some s') :
    DrainInv map maxEntries s' := by
  cases label with
  | fetch => exact hs.fetch h
  | store vaddr entry entryAlloc xaStore => exact hs.store hvacant h
  | ret => exact hs.ret h

/-- The invariant holds at every moment of a drain. -/
theorem drainInv_of_run {labels : List DrainLabel}
    (hrun : Run (drainStep maxEntries) StoresUnused (.init map) labels s) :
    DrainInv map maxEntries s :=
  hrun.invariant (fun _ _ _ hs hvacant hstep => hs.step hvacant hstep) (.init map maxEntries)

end Invariant

/-! ## The drain returns -/

/-- The steps that the drain makes, and not another thread. -/
def DrainLabel.own : DrainLabel → Bool
  | .store _ _ _ _ => false
  | _ => true

/-- How many steps the drain has made: one for each callback that it has entered, one for each
that has returned, and the one that stopped it. -/
def DrainState.ownSteps (s : DrainState) : Nat :=
  s.calls.length + s.drained + if s.pos = .done then 1 else 0

theorem ownSteps_step {maxEntries : Nat} {s s' : DrainState} {label : DrainLabel}
    (h : drainStep maxEntries s label = some s') :
    s'.ownSteps = s.ownSteps + if label.own then 1 else 0 := by
  cases label with
  | fetch =>
      obtain ⟨cursor, hpos, rfl | ⟨index, entry, -, -, -, rfl⟩⟩ := drainStep_fetch h
      · simp [DrainState.ownSteps, DrainLabel.own, hpos]
      · simp [DrainState.ownSteps, DrainLabel.own, hpos]
        omega
  | store vaddr entry entryAlloc xaStore =>
      obtain ⟨index, -, rfl | rfl⟩ := drainStep_store h
      · simp [DrainLabel.own]
      · simp [DrainState.ownSteps, DrainLabel.own]
  | ret =>
      obtain ⟨index, hpos, rfl⟩ := drainStep_ret h
      simp [DrainState.ownSteps, DrainLabel.own, hpos]
      omega

theorem ownSteps_run {maxEntries : Nat} {s t : DrainState} {labels : List DrainLabel}
    {G : DrainState → DrainLabel → Prop} (hrun : Run (drainStep maxEntries) G s labels t) :
    t.ownSteps = s.ownSteps + labels.countP DrainLabel.own := by
  induction hrun with
  | nil s => simp
  | cons hstep _ _ ih =>
      rw [ih, ownSteps_step hstep, List.countP_cons]
      omega

/-- Until it has stopped, the drain can go on. -/
theorem drain_enabled {maxEntries : Nat} {s : DrainState} (h : s.pos ≠ .done) :
    ∃ label : DrainLabel, label.own = true ∧ (drainStep maxEntries s label).isSome = true := by
  cases hpos : s.pos with
  | fetch cursor =>
      refine ⟨.fetch, rfl, ?_⟩
      cases hfind : s.map.entries.findFrom cursor with
      | none => simp [drainStep, hpos, hfind]
      | some found =>
          by_cases hstop : maxEntries ≤ s.drained <;> simp [drainStep, hpos, hfind, hstop]
  | callback index => exact ⟨.ret, rfl, by simp [drainStep, hpos]⟩
  | done => exact absurd hpos h

/-- However many stores fall into its callbacks, the drain has an end: it makes at most one step
for each callback, one for each return and one to stop, and until then it can go on. -/
theorem mapDrain_returns {map : CompressionMap} {maxEntries : Nat} {labels : List DrainLabel}
    {s : DrainState}
    (hrun : Run (drainStep maxEntries) StoresUnused (.init map) labels s) :
    labels.countP DrainLabel.own ≤ 2 * maxEntries + 1 ∧
      (s.pos ≠ .done →
        ∃ label : DrainLabel, label.own = true ∧ (drainStep maxEntries s label).isSome = true) := by
  refine ⟨?_, drain_enabled⟩
  have hinv := drainInv_of_run hrun
  have hsteps : s.ownSteps = labels.countP DrainLabel.own :=
    (ownSteps_run hrun).trans (Nat.zero_add _)
  have hbounded := hinv.bounded
  have hle : s.drained ≤ s.calls.length := by
    have hposition := hinv.position
    cases hpos : s.pos <;> rw [hpos] at hposition <;> simp only [DrainPos.Counts] at hposition <;>
      omega
  rw [← hsteps, DrainState.ownSteps]
  split <;> omega

/-! ## What every drain keeps -/

/-- **A drain conserves entries.**  At every moment of every interleaving with stores at unused
indices, the entries there were and those stored since are the ones that the callbacks got, each
with its own address, and those in the map; the callbacks get ascending addresses, so none gets
one twice, they are at most `maxEntries`, the counter follows, and what the drain returns at its
end is their number. -/
theorem mapDrain_conserves {map : CompressionMap} {maxEntries : Nat} {labels : List DrainLabel}
    {s : DrainState}
    (hrun : Run (drainStep maxEntries) StoresUnused (.init map) labels s) :
    (map.pages ++ s.stored).Perm (s.calls ++ s.map.pages) ∧
      s.calls.Pairwise (fun p q => p.1 < q.1) ∧
      s.calls.length ≤ maxEntries ∧
      s.map.count = map.count + s.stored.length - s.calls.length ∧
      (s.pos = .done → s.drained = s.calls.length) := by
  have hinv := drainInv_of_run hrun
  refine ⟨hinv.conserved, hinv.ascending, hinv.bounded, hinv.counted, ?_⟩
  intro hdone
  have hposition := hinv.position
  rwa [hdone] at hposition

/-- A map with the pages at `0x5000` and `0x9000`. -/
def twoPageMap : CompressionMap :=
  ⟨((∅ : XArray MapEntry).store 5 ⟨.bdi, 40, 1⟩).store 9 ⟨.bdi, 41, 2⟩, 2⟩

/-- While the first of two callbacks runs, a thread stores a page before the cursor, which the
drain leaves alone, and one behind it, which the second callback gets. -/
theorem mapDrain_conserves_twoPageMap :
    ∃ s : DrainState, s.pos = .done ∧ s.drained = 2 ∧
      s.stored = [(0x3000, ⟨.bdi, 42, 3⟩), (0x7000, ⟨.bdi, 43, 4⟩)] ∧
      s.calls = [(0x5000, ⟨.bdi, 40, 1⟩), (0x7000, ⟨.bdi, 43, 4⟩)] ∧
      (twoPageMap.pages ++ s.stored).Perm (s.calls ++ s.map.pages) ∧ s.map.count = 2 := by
  have hrun : ∃ s : DrainState, Run (drainStep 2) StoresUnused (.init twoPageMap)
      [.fetch, .store 0x3010 ⟨.bdi, 42, 3⟩ true true, .store 0x7000 ⟨.bdi, 43, 4⟩ true true, .ret,
        .fetch, .ret, .fetch] s ∧ s.pos = .done ∧ s.drained = 2 ∧
      s.stored = [(0x3000, ⟨.bdi, 42, 3⟩), (0x7000, ⟨.bdi, 43, 4⟩)] ∧
      s.calls = [(0x5000, ⟨.bdi, 40, 1⟩), (0x7000, ⟨.bdi, 43, 4⟩)] :=
    ⟨_, .cons rfl trivial (.cons rfl rfl (.cons rfl rfl (.cons rfl trivial
      (.cons rfl trivial (.cons rfl trivial (.cons rfl trivial (.nil _))))))), rfl, rfl, rfl, rfl⟩
  obtain ⟨s, hrun, hdone, hdrained, hstored, hcalls⟩ := hrun
  obtain ⟨hperm, -, -, hcount, -⟩ := mapDrain_conserves hrun
  refine ⟨s, hdone, hdrained, hstored, hcalls, hperm, ?_⟩
  rw [hcount, hstored, hcalls]
  rfl

/-! ## The drain as one function -/

/-- What stores at unused indices, one after the other, make of a map, with the addresses and
entries that they stored. -/
inductive StoresTo : CompressionMap → List (Nat × MapEntry) → CompressionMap → Prop
  | nil (map : CompressionMap) : StoresTo map [] map
  | cons {map map' : CompressionMap} {vaddr : Nat} {entry : MapEntry}
      {stored : List (Nat × MapEntry)} (hvacant : map.entries.load (vaddrToIndex vaddr) = none)
      (hrest : StoresTo ⟨map.entries.store (vaddrToIndex vaddr) entry, map.count + 1⟩ stored map') :
      StoresTo map ((pageMask vaddr, entry) :: stored) map'

section Refinement

variable {maxEntries : Nat} {map map' : CompressionMap}

/-- The stores are steps of the run while the callback lasts. -/
theorem run_of_storesTo (maxEntries : Nat) {stored : List (Nat × MapEntry)}
    (h : StoresTo map stored map') (index drained : Nat) (calls before : List (Nat × MapEntry)) :
    ∃ labels, Run (drainStep maxEntries) StoresUnused
      ⟨map, .callback index, drained, calls, before⟩ labels
      ⟨map', .callback index, drained, calls, before ++ stored⟩ := by
  induction h generalizing before with
  | nil map => exact ⟨[], by simpa using .nil _⟩
  | @cons map map' vaddr entry stored hvacant hrest ih =>
      obtain ⟨labels, hrun⟩ := ih (before ++ [(pageMask vaddr, entry)])
      rw [List.append_assoc, List.singleton_append] at hrun
      exact ⟨.store vaddr entry true true :: labels, .cons rfl hvacant hrun⟩

variable {callback : Kernel → Nat → MapEntry → Kernel}

/-- The loop is a run of the drain, with what its callbacks store as the other threads' steps. -/
theorem mapDrainLoop_run
    (hcallback : ∀ k vaddr entry, ∃ stored, StoresTo k.map stored (callback k vaddr entry).map)
    (n : Nat) :
    ∀ (cursor : Nat) (k : Kernel) (drained : Nat) (calls stored : List (Nat × MapEntry)),
      maxEntries = drained + n →
      ∃ labels t, Run (drainStep maxEntries) StoresUnused
          ⟨k.map, .fetch cursor, drained, calls, stored⟩ labels t ∧ t.pos = .done ∧
        t.drained = drained + (mapDrainLoop callback n cursor k).1 ∧
        t.map = (mapDrainLoop callback n cursor k).2.map := by
  induction n with
  | zero =>
      intro cursor k drained calls stored hmax
      -- whether or not an entry is left, the drain stops here
      refine ⟨[.fetch], ⟨k.map, .done, drained, calls, stored⟩, .cons ?_ trivial (.nil _), rfl, rfl,
        rfl⟩
      cases hfind : k.map.entries.findFrom cursor with
      | none => simp [drainStep, hfind]
      | some found => simp [drainStep, hfind, hmax]
  | succ n ih =>
      intro cursor k drained calls stored hmax
      unfold mapDrainLoop
      cases hfind : k.map.entries.findFrom cursor with
      | none =>
          refine ⟨[.fetch], ⟨k.map, .done, drained, calls, stored⟩, .cons ?_ trivial (.nil _), rfl,
            rfl, rfl⟩
          simp [drainStep, hfind]
      | some found =>
          obtain ⟨index, entry⟩ := found
          obtain ⟨stored', hstores⟩ :=
            hcallback { k with map := ⟨k.map.entries.erase index, k.map.count - 1⟩ }
              (indexToVaddr index) entry
          obtain ⟨labels, hlabels⟩ := run_of_storesTo maxEntries hstores index drained
            (calls ++ [(indexToVaddr index, entry)]) stored
          obtain ⟨labels', t, hrest, hdone, hdrained, hmap⟩ := ih (index + 1) _ (drained + 1)
            (calls ++ [(indexToVaddr index, entry)]) (stored ++ stored') (by omega)
          have hfetch : drainStep maxEntries ⟨k.map, .fetch cursor, drained, calls, stored⟩ .fetch =
              some ⟨⟨k.map.entries.erase index, k.map.count - 1⟩, .callback index, drained,
                calls ++ [(indexToVaddr index, entry)], stored⟩ := by
            simp [drainStep, hfind, hmax]
          refine ⟨.fetch :: (labels ++ .ret :: labels'), t,
            .cons hfetch trivial (hlabels.append (.cons rfl trivial hrest)), hdone, ?_, hmap⟩
          rw [hdrained]
          exact Nat.add_right_comm _ _ _

/-- `mapDrain` with callbacks that do nothing to the map but store at unused indices is one of
the runs. -/
theorem mapDrain_run
    (hcallback : ∀ k vaddr entry, ∃ stored, StoresTo k.map stored (callback k vaddr entry).map)
    (k : Kernel) (maxEntries : Nat) :
    ∃ labels t, Run (drainStep maxEntries) StoresUnused (.init k.map) labels t ∧ t.pos = .done ∧
      t.drained = (mapDrain k maxEntries callback).1 ∧
      t.map = (mapDrain k maxEntries callback).2.map := by
  obtain ⟨labels, t, hrun, hdone, hdrained, hmap⟩ :=
    mapDrainLoop_run hcallback maxEntries 0 k 0 [] [] (Nat.zero_add _).symm
  rw [Nat.zero_add] at hdrained
  exact ⟨labels, t, hrun, hdone, hdrained, hmap⟩

/-- What such a drain returns is the number of entries that it took out of those there were and
those that its callbacks let in. -/
theorem mapDrain_pages
    (hcallback : ∀ k vaddr entry, ∃ stored, StoresTo k.map stored (callback k vaddr entry).map)
    (k : Kernel) (maxEntries : Nat) :
    ∃ calls stored : List (Nat × MapEntry),
      (k.map.pages ++ stored).Perm (calls ++ (mapDrain k maxEntries callback).2.map.pages) ∧
        (mapDrain k maxEntries callback).1 = calls.length ∧ calls.length ≤ maxEntries := by
  obtain ⟨labels, t, hrun, hdone, hdrained, hmap⟩ := mapDrain_run hcallback k maxEntries
  have hinv := drainInv_of_run hrun
  have hposition := hinv.position
  rw [hdone] at hposition
  refine ⟨t.calls, t.stored, ?_, ?_, hinv.bounded⟩
  · rw [← hmap]
    exact hinv.conserved
  · rw [← hdrained]
    exact hposition

/-- The shrinker's callback is of this kind: it leaves the map alone. -/
theorem shrinkDrainCallback_storesTo (k : Kernel) (vaddr : Nat) (entry : MapEntry) :
    ∃ stored, StoresTo k.map stored (shrinkDrainCallback k vaddr entry).map :=
  ⟨[], .nil k.map⟩

end Refinement

end MiniMem
