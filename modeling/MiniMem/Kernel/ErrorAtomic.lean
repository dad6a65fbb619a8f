import MiniMem.Kernel.Ops

/-!
# MiniMem.Kernel.ErrorAtomic

What is left behind by a store or a restore that fails.

The entry points check their arguments and then run the bodies of
`MiniMem.Kernel.Zswap`.  A store may fail after it has allocated an object,
which it frees again; every other failure comes before anything is written.
-/

namespace MiniMem

/-! ## The entry points -/

/-- `minimem_compress_and_store`; `pool` is whether `minimem_pool` is there, `page` the frame
of the page, `none` for a null pointer. -/
def minimemCompressAndStore (codec : Codec) (env : StoreEnv) (pool : Bool) (k : Kernel)
    (vaddr : Nat) (page : Option Nat) : Int × Kernel :=
  match page with
  | none => (einval, k)
  | some pfn => if pool = false then (einval, k) else compressAndStore codec env k vaddr pfn

/-- `minimem_decompress_and_restore`. -/
def minimemDecompressAndRestore (codec : Codec) (env : RestoreEnv) (pool : Bool) (k : Kernel)
    (vaddr : Nat) (page : Option Nat) : Int × Kernel :=
  if pool = false then (einval, k) else decompressAndRestore codec env k vaddr page

/-! ## The records -/

/-- The map, the live objects and the three storage counters are as before. -/
structure SameRecords (k k' : Kernel) : Prop where
  map : k'.map = k.map
  objs : k'.pool.objs = k.pool.objs
  storedPages : k'.stats.storedPages = k.stats.storedPages
  totalBytes : k'.stats.totalBytes = k.stats.totalBytes
  bytesSaved : k'.stats.bytesSaved = k.stats.bytesSaved

theorem SameRecords.refl (k : Kernel) : SameRecords k k := ⟨rfl, rfl, rfl, rfl, rfl⟩

/-- What comes back from a failed `storeCompressed` differs in freed objects only. -/
theorem sameRecords_storeCompressed {k k' : Kernel} (hfresh : k.pool.objs k.pool.next = none)
    {env : StoreEnv} {vaddr : Nat} {algo : AlgoId} {bytes : List UInt8} {ret : Int}
    (h : storeCompressed k env vaddr algo bytes = (.error ret, k')) : SameRecords k k' := by
  unfold storeCompressed at h
  split at h
  · injection h with _ hk
    rw [← hk]
    exact .refl k
  dsimp only at h
  split at h
  -- the map refused the entry: the object is freed again
  · injection h with _ hk
    rw [← hk]
    exact ⟨rfl, objs_free_malloc_of_fresh hfresh bytes, rfl, rfl, rfl⟩
  · injection h with hret
    cases hret

/-- A store that does not return `MINIMEM_OK` leaves the records alone. -/
theorem sameRecords_compressAndStore (codec : Codec) (env : StoreEnv) {k : Kernel}
    (hfresh : k.pool.objs k.pool.next = none) (vaddr pfn : Nat)
    (h : (compressAndStore codec env k vaddr pfn).1 ≠ 0) :
    SameRecords k (compressAndStore codec env k vaddr pfn).2 := by
  unfold compressAndStore at h ⊢
  split
  · exact .refl k
  next hlimit =>
    rw [if_neg hlimit] at h
    cases hbuf : compressBuf codec env k.minSavingsPct (k.frames.data pfn) with
    | error ret => exact .refl k
    | ok stored =>
        obtain ⟨algo, bytes⟩ := stored
        simp only [hbuf] at h ⊢
        cases hstore : storeCompressed k env vaddr algo bytes with
        | mk ret k' =>
            cases ret with
            | error ret => exact sameRecords_storeCompressed hfresh hstore
            | ok handle =>
                rw [hstore] at h
                exact absurd rfl h

/-- A restore that does not return `MINIMEM_OK` changes nothing at all. -/
theorem decompressAndRestore_eq_of_ne (codec : Codec) (env : RestoreEnv) (k : Kernel)
    (vaddr : Nat) (pfn : Option Nat) (h : (decompressAndRestore codec env k vaddr pfn).1 ≠ 0) :
    (decompressAndRestore codec env k vaddr pfn).2 = k := by
  unfold decompressAndRestore at h ⊢
  cases hlookup : mapLookup k.map vaddr with
  | none => rfl
  | some entry =>
      simp only [hlookup] at h ⊢
      by_cases hbuf : env.localBuf = false
      · rw [if_pos hbuf]
      by_cases hread : env.zsRead = false
      · rw [if_neg hbuf, if_pos hread]
      by_cases hkmap : pfn.isSome ∧ env.kmap = false
      · rw [if_neg hbuf, if_neg hread, if_pos hkmap]
      by_cases hcpu : pfn.isNone ∧ env.cpuBuf = false
      · rw [if_neg hbuf, if_neg hread, if_neg hkmap, if_pos hcpu]
      rw [if_neg hbuf, if_neg hread, if_neg hkmap, if_neg hcpu] at h ⊢
      cases hdecode : k.decode codec entry with
      | none => rfl
      | some page =>
          rw [hdecode] at h
          exact absurd rfl h

/-! ## All or nothing -/

/-- Whatever fails in a store or a restore, a return value other than `MINIMEM_OK` means that
the map, the live objects and the counters are as before.  `zs_malloc` hands out handles that
are not live. -/
theorem error_sameRecords (codec : Codec) (pool : Bool) (k : Kernel)
    (hfresh : k.pool.objs k.pool.next = none) (vaddr : Nat) (page : Option Nat) :
    (∀ env, (minimemCompressAndStore codec env pool k vaddr page).1 ≠ 0 →
      SameRecords k (minimemCompressAndStore codec env pool k vaddr page).2) ∧
    (∀ env, (minimemDecompressAndRestore codec env pool k vaddr page).1 ≠ 0 →
      SameRecords k (minimemDecompressAndRestore codec env pool k vaddr page).2) := by
  constructor
  · intro env h
    cases page with
    | none => exact .refl k
    | some pfn =>
        cases pool with
        | false => exact .refl k
        | true => exact sameRecords_compressAndStore codec env hfresh vaddr pfn h
  · intro env h
    cases pool with
    | false => exact .refl k
    | true =>
        have heq : (minimemDecompressAndRestore codec env true k vaddr page).2 = k :=
          decompressAndRestore_eq_of_ne codec env k vaddr page h
        rw [heq]
        exact .refl k

/-- Only `xa_store` fails. -/
def StoreEnv.mapFull : StoreEnv := { StoreEnv.ok with xaStore := false }

/-- With two pages stored, a page of zeros is stored over the first of them and `xa_store` fails:
the new object is given back and the old entry stays.  Restoring the second fails in `zs_obj_read`. -/
theorem error_sameRecords_twoEntries :
    (Kernel.twoEntries true).pool.objs (Kernel.twoEntries true).pool.next = none ∧
      (minimemCompressAndStore samePageCodec .mapFull true (.twoEntries true) 0x1000 (some 0)).1
        = enomem ∧
      SameRecords (.twoEntries true)
        (minimemCompressAndStore samePageCodec .mapFull true (.twoEntries true) 0x1000 (some 0)).2 ∧
      (minimemDecompressAndRestore samePageCodec ⟨true, false, true, true⟩ true (.twoEntries true)
        0x2000 (some 1)).1 = eio ∧
      SameRecords (.twoEntries true)
        (minimemDecompressAndRestore samePageCodec ⟨true, false, true, true⟩ true (.twoEntries true)
          0x2000 (some 1)).2 := by
  have hbuf : compressBuf samePageCodec .mapFull (Kernel.twoEntries true).minSavingsPct
      ((Kernel.twoEntries true).frames.data 0) = .ok (.samePage, [0]) := by
    change compressBuf samePageCodec .mapFull 0 (Page.fill 0) = .ok (.samePage, [0])
    rw [compressBuf, samePageCodec_compress_fill]
    simp [StoreEnv.mapFull, StoreEnv.ok, pageSize]
  have hstore : (minimemCompressAndStore samePageCodec .mapFull true (.twoEntries true) 0x1000
      (some 0)).1 = enomem := by
    simp only [minimemCompressAndStore, compressAndStore, hbuf]
    simp [storeCompressed, mapStore, StoreEnv.mapFull, StoreEnv.ok, Kernel.twoEntries]
  have hrestore : (minimemDecompressAndRestore samePageCodec ⟨true, false, true, true⟩ true
      (.twoEntries true) 0x2000 (some 1)).1 = eio := rfl
  obtain ⟨hkept, -⟩ :=
    error_sameRecords samePageCodec true (.twoEntries true) rfl 0x1000 (some 0)
  obtain ⟨-, hkept'⟩ :=
    error_sameRecords samePageCodec true (.twoEntries true) rfl 0x2000 (some 1)
  refine ⟨rfl, hstore, hkept _ ?_, hrestore, hkept' _ ?_⟩
  · rw [hstore]
    decide
  · rw [hrestore]
    decide

end MiniMem
