import MiniMem.Kernel.Zswap

/-!
# MiniMem.Kernel.Shrinker

The memory-pressure shrinker: it drains entries from the map and frees
their objects.
-/

namespace MiniMem

/-- `shrink_drain_callback`; the byte count that it sums up is never read. -/
def shrinkDrainCallback (k : Kernel) (_vaddr : Nat) (entry : MapEntry) : Kernel :=
  { k with pool := k.pool.free entry.zsHandle }

theorem mapLookup_of_findFrom {map : CompressionMap} {cursor index : Nat} {entry : MapEntry}
    (h : map.entries.findFrom cursor = some (index, entry)) :
    mapLookup map (indexToVaddr index) = some entry := by
  obtain ⟨hload, -, -⟩ := XArray.findFrom_eq_some h
  rw [mapLookup, vaddrToIndex_indexToVaddr, hload]

/-- One round of the drain drops the entry that it finds. -/
theorem shrinkDrainCallback_eq {k : Kernel} {cursor index : Nat} {entry : MapEntry}
    (h : k.map.entries.findFrom cursor = some (index, entry)) :
    shrinkDrainCallback { k with map := ⟨k.map.entries.erase index, k.map.count - 1⟩ }
      (indexToVaddr index) entry = k.dropEntry (indexToVaddr index) entry.zsHandle := by
  rw [Kernel.dropEntry, mapRemove_of_lookup (mapLookup_of_findFrom h), vaddrToIndex_indexToVaddr]
  rfl

/-- `minimem_shrink_count`. -/
def shrinkCount (k : Kernel) : Int := k.stats.storedPages

/-- `minimem_shrink_scan`; `none` is `SHRINK_STOP`. -/
def shrinkScan (k : Kernel) (nrToScan : Nat) : Option Nat × Kernel :=
  if nrToScan = 0 then (some 0, k)
  else
    match mapDrain k nrToScan shrinkDrainCallback with
    | (drained, k) => (if drained = 0 then none else some drained, k)

end MiniMem
