import MiniMem.Kernel.State

/-!
# MiniMem.Kernel.Map

The compression map: one entry per virtual page number, with the handle of
the compressed bytes.  The address space that a page belongs to is not part
of the key.
-/

namespace MiniMem

/-! ## Operations -/

/-- `minimem_map_store`; `entryAlloc` and `xaStore` are whether `kmem_cache_alloc`
and `xa_store` succeed. -/
def mapStore (map : CompressionMap) (vaddr : Nat) (entry : MapEntry) (entryAlloc xaStore : Bool) :
    Except Int CompressionMap :=
  if entryAlloc = false then .error enomem
  else if xaStore = false then .error enomem
  else .ok ⟨map.entries.store (vaddrToIndex vaddr) entry, map.count + 1⟩

/-- `minimem_map_lookup`. -/
def mapLookup (map : CompressionMap) (vaddr : Nat) : Option MapEntry :=
  map.entries.load (vaddrToIndex vaddr)

/-- `minimem_map_remove`: whether there was an entry, and the map without it. -/
def mapRemove (map : CompressionMap) (vaddr : Nat) : Bool × CompressionMap :=
  match map.entries.load (vaddrToIndex vaddr) with
  | none => (false, map)
  | some _ => (true, ⟨map.entries.erase (vaddrToIndex vaddr), map.count - 1⟩)

/-- `minimem_map_remove_all`. -/
def mapRemoveAll (_ : CompressionMap) : CompressionMap := ⟨∅, 0⟩

/-- The loop of `minimem_map_drain`: at most `n` more entries, from `cursor` on.
The callback runs with the spinlock dropped and gets the virtual address. -/
def mapDrainLoop (callback : Kernel → Nat → MapEntry → Kernel) :
    Nat → Nat → Kernel → Nat × Kernel
  | 0, _, k => (0, k)
  | n + 1, cursor, k =>
      match k.map.entries.findFrom cursor with
      | none => (0, k)
      | some (index, entry) =>
          let k := { k with map := ⟨k.map.entries.erase index, k.map.count - 1⟩ }
          let (drained, k) := mapDrainLoop callback n (index + 1)
            (callback k (indexToVaddr index) entry)
          (drained + 1, k)

/-- `minimem_map_drain`. -/
def mapDrain (k : Kernel) (maxEntries : Nat) (callback : Kernel → Nat → MapEntry → Kernel) :
    Nat × Kernel :=
  mapDrainLoop callback maxEntries 0 k

/-! ## What each operation does to the entries -/

/-- A store that succeeds puts the entry at its index and counts it. -/
theorem mapStore_ok {map map' : CompressionMap} {vaddr : Nat} {entry : MapEntry}
    {entryAlloc xaStore : Bool} (h : mapStore map vaddr entry entryAlloc xaStore = .ok map') :
    map' = ⟨map.entries.store (vaddrToIndex vaddr) entry, map.count + 1⟩ := by
  unfold mapStore at h
  split at h
  · cases h
  split at h
  · cases h
  · injection h with h
    exact h.symm

/-- A lookup depends on the page of the address only. -/
@[simp] theorem mapLookup_pageMask (map : CompressionMap) (addr : Nat) :
    mapLookup map (pageMask addr) = mapLookup map addr := by
  simp [mapLookup]

/-- A removal takes the entry of its page and no other. -/
theorem load_mapRemove (map : CompressionMap) (vaddr j : Nat) :
    (mapRemove map vaddr).2.entries.load j =
      if j = vaddrToIndex vaddr then none else map.entries.load j := by
  unfold mapRemove
  cases hload : map.entries.load (vaddrToIndex vaddr) with
  | some entry => exact XArray.load_erase _ _ _
  | none =>
      by_cases hj : j = vaddrToIndex vaddr
      · simp [hj, hload]
      · simp [hj]

/-- Removing a mapped entry keeps the counter in step. -/
theorem mapRemove_of_lookup {map : CompressionMap} {vaddr : Nat} {entry : MapEntry}
    (h : mapLookup map vaddr = some entry) :
    mapRemove map vaddr = (true, ⟨map.entries.erase (vaddrToIndex vaddr), map.count - 1⟩) := by
  unfold mapLookup at h
  unfold mapRemove
  rw [h]

/-! ## Dropping a page: entry and object together -/

/-- `minimem_map_remove` of an address and `zs_free` of a handle. -/
def Kernel.dropEntry (k : Kernel) (vaddr handle : Nat) : Kernel :=
  { k with map := (mapRemove k.map vaddr).2, pool := k.pool.free handle }

section DropEntry

variable (k : Kernel) (mm vaddr vaddr' handle : Nat) (codec : Codec)

/-- Dropping an entry leaves the page tables alone. -/
@[simp] theorem pteAt_dropEntry :
    (k.dropEntry vaddr handle).pteAt mm vaddr' = k.pteAt mm vaddr' := rfl
@[simp] theorem frames_dropEntry : (k.dropEntry vaddr handle).frames = k.frames := rfl
@[simp] theorem mms_dropEntry : (k.dropEntry vaddr handle).mms = k.mms := rfl
/-- Dropping an entry frees the handle that is given. -/
@[simp] theorem pool_dropEntry : (k.dropEntry vaddr handle).pool = k.pool.free handle := rfl

/-- It removes what is stored for its page and nothing else. -/
theorem load_dropEntry (j : Nat) : (k.dropEntry vaddr handle).map.entries.load j =
    if j = vaddrToIndex vaddr then none else k.map.entries.load j :=
  load_mapRemove _ _ _

/-- Nothing is stored for the page then. -/
@[simp] theorem mapLookup_dropEntry_self :
    mapLookup (k.dropEntry vaddr handle).map vaddr = none := by
  rw [mapLookup, load_dropEntry, if_pos rfl]

/-- The object of the handle is gone. -/
@[simp] theorem objs_dropEntry_self : (k.dropEntry vaddr handle).pool.objs handle = none := by
  rw [pool_dropEntry, objs_free, if_pos rfl]

end DropEntry

end MiniMem
