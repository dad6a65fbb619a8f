import MiniMem.Kernel.Ops

/-!
# MiniMem.Kernel.Replace

How `minimem_compress_and_replace_pte` ends.  It is refused before anything
is stored, or it stores the page and takes it back out because the PTE is no
longer the one it saw, or it goes through; `ReplaceCases` says what the
kernel is in each case, and what the call leaves behind is read off from it.

A failed call leaves no trace unless it stored over an entry, which it then
removes.  The page itself never loses the reference of the PTE that mapped
it.
-/

namespace MiniMem

/-! ## The page and its entry -/

/-- What a replacement hands to `minimem_map_store` when all its steps up to there and that
call succeed: the frame it saw, and what the page was compressed to. -/
def replaceStores (codec : Codec) (env : ReplaceEnv) (k : Kernel) (mm addr : Nat) :
    Option (Nat × AlgoId × List UInt8) :=
  if k.symbolsResolved = false then none
  else
    match replaceSnapshot env k mm (pageMask addr) with
    | .error _ => none
    | .ok (_, pfn, _) =>
        match compressBuf codec env.toStoreEnv k.minSavingsPct (k.frames.data pfn) with
        | .error _ => none
        | .ok (algo, bytes) => if env.toStoreEnv.stores then some (pfn, algo, bytes) else none

/-- The PTE found under the second lock is the one seen under the first. -/
def ReplaceInstalls (env : ReplaceEnv) (k : Kernel) (mm addr : Nat) : Prop :=
  (k.relock mm (pageMask addr) env.relock).2 = k.pteAt mm (pageMask addr)

instance (env : ReplaceEnv) (k : Kernel) (mm addr : Nat) :
    Decidable (ReplaceInstalls env k mm addr) :=
  inferInstanceAs (Decidable (_ = _))

theorem storesAt_replace (codec : Codec) (env : ReplaceEnv) (k : Kernel) (mm addr : Nat) :
    storesAt codec k (.replace env mm addr) =
      (replaceStores codec env k mm addr).map fun _ => pageMask addr := by
  unfold storesAt replaceStores
  dsimp only
  split
  · rfl
  cases hsnap : replaceSnapshot env k mm (pageMask addr) with
  | error ret => rfl
  | ok snap =>
      obtain ⟨oldPte, pfn, k'⟩ := snap
      dsimp only
      cases hbuf : compressBuf codec env.toStoreEnv k.minSavingsPct (k.frames.data pfn) with
      | error ret =>
          rw [reachesStore_of_error hbuf]
          rfl
      | ok stored =>
          rw [reachesStore_of_ok hbuf]
          dsimp only
          split <;> rfl

theorem replaceStores_of_ok {codec : Codec} {env : ReplaceEnv} {k k' : Kernel}
    {mm addr pfn : Nat} {oldPte : Pte} {algo : AlgoId} {bytes : List UInt8}
    (hsym : k.symbolsResolved = true)
    (hsnap : replaceSnapshot env k mm (pageMask addr) = .ok (oldPte, pfn, k'))
    (hbuf : compressBuf codec env.toStoreEnv k.minSavingsPct (k.frames.data pfn)
      = .ok (algo, bytes))
    (henv : env.toStoreEnv.stores = true) :
    replaceStores codec env k mm addr = some (pfn, algo, bytes) := by
  simp [replaceStores, hsym, hsnap, hbuf, henv]

/-- A replacement that stores has found the page present and compressed it. -/
theorem replaceStores_eq_some {codec : Codec} {env : ReplaceEnv} {k : Kernel} {mm addr pfn : Nat}
    {algo : AlgoId} {bytes : List UInt8}
    (h : replaceStores codec env k mm addr = some (pfn, algo, bytes)) :
    k.symbolsResolved = true ∧ env.toStoreEnv.stores = true ∧
      compressBuf codec env.toStoreEnv k.minSavingsPct (k.frames.data pfn) = .ok (algo, bytes) ∧
      ∃ write young dirty,
        k.pteAt mm (pageMask addr) = some (.present pfn write young dirty) ∧
        replaceSnapshot env k mm (pageMask addr) =
          .ok (.present pfn write young dirty, pfn, k.getPage pfn) := by
  unfold replaceStores at h
  split at h
  · cases h
  next hsym =>
    rw [Bool.not_eq_false] at hsym
    split at h
    · cases h
    next oldPte pfn' k' hsnap =>
      split at h
      · cases h
      next algo' bytes' hbuf =>
        split at h
        next hstores =>
          simp only [Option.some.injEq, Prod.mk.injEq] at h
          obtain ⟨rfl, rfl, rfl⟩ := h
          obtain ⟨rfl, hpte, write, young, dirty, rfl⟩ := replaceSnapshot_ok hsnap
          exact ⟨hsym, hstores, hbuf, write, young, dirty, hpte, hsnap⟩
        · cases h

/-! ## References and relocking -/

@[simp] theorem putPage_getPage (k : Kernel) (pfn : Nat) : (k.getPage pfn).putPage pfn = k := by
  simp [Kernel.getPage, Kernel.putPage]

/-- Setting the entry that is there changes nothing. -/
theorem setPteAt_self {k : Kernel} {mm vaddr : Nat} {pte : Pte}
    (h : k.pteAt mm vaddr = some pte) : k.setPteAt mm vaddr pte = k := by
  have hptes : Function.update (k.mms mm).ptes (vaddrToIndex vaddr) (some pte) =
      (k.mms mm).ptes := by
    rw [Function.update_eq_self_iff]
    exact h.symm
  rw [Kernel.setPteAt, hptes, Function.update_eq_self]

/-- Whoever finds the PTE unchanged finds the kernel unchanged. -/
theorem relock_of_installs {env : ReplaceEnv} {k : Kernel} {mm addr : Nat} {pte : Pte}
    (hpte : k.pteAt mm (pageMask addr) = some pte) (h : ReplaceInstalls env k mm addr) :
    k.relock mm (pageMask addr) env.relock = (k, some pte) := by
  unfold ReplaceInstalls at h
  cases hrelock : env.relock with
  | same => rw [Kernel.relock, hpte]
  | noLock =>
      rw [hrelock, hpte] at h
      cases h
  | changed pte' =>
      rw [hrelock, hpte] at h
      injection h with h
      rw [Kernel.relock, h, setPteAt_self hpte]

/-! ## How a replacement ends -/

/-- The kernel after a replacement that went through. -/
def Kernel.replaced (k : Kernel) (mm vaddr pfn : Nat) (algo : AlgoId) (bytes : List UInt8) :
    Kernel :=
  ((((k.getPage pfn).addEntry vaddr algo bytes).setPteAt mm vaddr
    (minimemPte (vaddrToIndex vaddr))).addAnonPages mm (-1)).putPage pfn |>.faultHandled

/-- The reference taken and given up again does not show. -/
theorem replaced_eq (k : Kernel) (mm vaddr pfn : Nat) (algo : AlgoId) (bytes : List UInt8) :
    k.replaced mm vaddr pfn algo bytes =
      (((k.addEntry vaddr algo bytes).setPteAt mm vaddr
        (minimemPte (vaddrToIndex vaddr))).addAnonPages mm (-1)).faultHandled := by
  have h : k.replaced mm vaddr pfn algo bytes =
      (((((k.getPage pfn).putPage pfn).addEntry vaddr algo bytes).setPteAt mm vaddr
        (minimemPte (vaddrToIndex vaddr))).addAnonPages mm (-1)).faultHandled := rfl
  rw [h, putPage_getPage]

/-- The kernel after a replacement whose page was stored and taken back out; `relocked` is
the kernel as the second lock found it. -/
def Kernel.unreplaced (k relocked : Kernel) (vaddr : Nat) (algo : AlgoId) (bytes : List UInt8) :
    Kernel :=
  (relocked.addEntry vaddr algo bytes).dropEntry vaddr k.pool.next

/-- The ends of a replacement: what the call returns, and the kernel that it leaves. -/
inductive ReplaceCases (codec : Codec) (env : ReplaceEnv) (k : Kernel) (mm addr : Nat) :
    Int × Kernel → Prop
  | refused {ret : Int} {pool : Pool} (hret : ret ≠ 0)
      (hstores : replaceStores codec env k mm addr = none)
      (hsame : SameStorage k { k with pool := pool }) :
      ReplaceCases codec env k mm addr (ret, { k with pool := pool })
  | undone {ret : Int} {pfn : Nat} {algo : AlgoId} {bytes : List UInt8} (hret : ret ≠ 0)
      (hstores : replaceStores codec env k mm addr = some (pfn, algo, bytes))
      (hinstalls : ¬ReplaceInstalls env k mm addr) :
      ReplaceCases codec env k mm addr
        (ret, k.unreplaced (k.relock mm (pageMask addr) env.relock).1 (pageMask addr) algo bytes)
  | done {pfn : Nat} {algo : AlgoId} {bytes : List UInt8}
      (hstores : replaceStores codec env k mm addr = some (pfn, algo, bytes))
      (hinstalls : ReplaceInstalls env k mm addr) :
      ReplaceCases codec env k mm addr (0, k.replaced mm (pageMask addr) pfn algo bytes)

/-- A snapshot fails with `-ENOENT` only. -/
theorem replaceSnapshot_error {env : ReplaceEnv} {k : Kernel} {mm vaddr : Nat} {ret : Int}
    (h : replaceSnapshot env k mm vaddr = .error ret) : ret ≠ 0 := by
  unfold replaceSnapshot at h
  split at h
  · cases h
  · injection h with h
    rw [← h]
    decide

/-- The last section goes through if the PTE is the one seen before, otherwise it drops
the entry and gives the reference up. -/
theorem replaceInstall_of_not {env : ReplaceEnv} {k : Kernel} {mm vaddr pfn handle : Nat}
    {oldPte : Pte} (h : (k.relock mm vaddr env.relock).2 ≠ some oldPte) :
    ∃ ret ≠ 0, replaceInstall env k mm vaddr pfn handle oldPte =
      (ret, ((k.relock mm vaddr env.relock).1.dropEntry vaddr handle).putPage pfn) := by
  unfold replaceInstall
  cases hrelock : k.relock mm vaddr env.relock with
  | mk k' found =>
      rw [hrelock] at h
      cases found with
      | none => exact ⟨enoent, by decide, rfl⟩
      | some pte =>
          dsimp only
          rw [if_pos (fun heq => h (by rw [heq]))]
          exact ⟨eagain, by decide, rfl⟩

/-- Entering a page and relocking a PTE do not touch each other. -/
theorem relock_addEntry (k : Kernel) (mm vaddr pfn v : Nat) (algo : AlgoId) (bytes : List UInt8)
    (relock : Relock) :
    ((k.getPage pfn).addEntry v algo bytes).relock mm vaddr relock =
      ((((k.relock mm vaddr relock).1.getPage pfn).addEntry v algo bytes),
        (k.relock mm vaddr relock).2) := by
  cases relock <;> rfl

/-- **Every replacement ends in one of the three ways.** -/
theorem replace_cases (codec : Codec) (env : ReplaceEnv) {k : Kernel} (hwf : k.pool.Wf)
    (mm addr : Nat) :
    ReplaceCases codec env k mm addr (compressAndReplacePte codec env k mm addr) := by
  by_cases hsym : k.symbolsResolved = false
  · have hstores : replaceStores codec env k mm addr = none := by rw [replaceStores, if_pos hsym]
    rw [compressAndReplacePte, if_pos hsym]
    exact .refused (by decide) hstores (.refl k)
  cases hsnap : replaceSnapshot env k mm (pageMask addr) with
  | error ret =>
      have hstores : replaceStores codec env k mm addr = none := by
        rw [replaceStores, if_neg hsym, hsnap]
      rw [compressAndReplacePte, if_neg hsym, hsnap]
      exact .refused (replaceSnapshot_error hsnap) hstores (.refl k)
  | ok snap =>
      obtain ⟨oldPte, pfn, k₁⟩ := snap
      obtain ⟨rfl, hpte, -⟩ := replaceSnapshot_ok hsnap
      have hpage : compressBuf codec env.toStoreEnv (k.getPage pfn).minSavingsPct
          ((k.getPage pfn).frames.data pfn) =
          compressBuf codec env.toStoreEnv k.minSavingsPct (k.frames.data pfn) := rfl
      cases hbuf : compressBuf codec env.toStoreEnv k.minSavingsPct (k.frames.data pfn) with
      | error ret =>
          have hstores : replaceStores codec env k mm addr = none := by
            simp only [replaceStores, if_neg hsym, hsnap, hbuf]
          simp only [compressAndReplacePte, if_neg hsym, hsnap, hpage, hbuf, putPage_getPage]
          exact .refused (compressBuf_error_ne hbuf) hstores (.refl k)
      | ok stored =>
          obtain ⟨algo, bytes⟩ := stored
          simp only [compressAndReplacePte, if_neg hsym, hsnap, hpage, hbuf]
          by_cases henv : env.toStoreEnv.stores = true
          · have hstores := replaceStores_of_ok (by simpa using hsym) hsnap hbuf henv
            simp only [storeCompressed_of_stores henv]
            by_cases hinstalls : ReplaceInstalls env k mm addr
            · rw [replaceInstall, relock_addEntry, relock_of_installs hpte hinstalls]
              dsimp only
              rw [if_neg (by simp)]
              exact .done hstores hinstalls
            · have hne : (((k.getPage pfn).addEntry (pageMask addr) algo bytes).relock mm
                  (pageMask addr) env.relock).2 ≠ some oldPte := by
                rw [relock_addEntry, ← hpte]
                exact hinstalls
              obtain ⟨ret, hret, hinstall⟩ :=
                @replaceInstall_of_not env _ mm (pageMask addr) pfn k.pool.next oldPte hne
              have hundone : ((((k.relock mm (pageMask addr) env.relock).1.getPage pfn).addEntry
                  (pageMask addr) algo bytes).dropEntry (pageMask addr) k.pool.next).putPage pfn =
                  k.unreplaced ((k.relock mm (pageMask addr) env.relock).1.getPage pfn |>.putPage
                    pfn) (pageMask addr) algo bytes := rfl
              rw [relock_addEntry, hundone, putPage_getPage] at hinstall
              rw [pool_getPage, hinstall]
              exact .undone hret hstores hinstalls
          · have hstores : replaceStores codec env k mm addr = none := by
              simp only [replaceStores, if_neg hsym, hsnap, hbuf, if_neg henv]
            rw [Bool.not_eq_true] at henv
            obtain ⟨pool, hfail, hsame⟩ := storeCompressed_of_not_stores henv (k.getPage pfn) hwf
              (pageMask addr) algo bytes
            have hput : Kernel.putPage { k.getPage pfn with pool := pool } pfn =
                { (k.getPage pfn).putPage pfn with pool := pool } := rfl
            simp only [hfail]
            rw [hput, putPage_getPage]
            exact .refused (by decide) hstores ⟨rfl, hsame.objs, hsame.next⟩

/-! ## A failed replacement -/

/-- The kernel without the call: what another thread does to the PTE before the second
lock, where the call gets that far. -/
def Kernel.meanwhile (codec : Codec) (env : ReplaceEnv) (k : Kernel) (mm addr : Nat) : Kernel :=
  match replaceStores codec env k mm addr with
  | none => k
  | some _ => (k.relock mm (pageMask addr) env.relock).1

/-- The map, the pool contents that it reaches, the page tables and the RSS counters are
the same. -/
structure NoTrace (k k' : Kernel) : Prop where
  map : k'.map = k.map
  objs : ∀ i e, k.map.entries.load i = some e → k'.pool.objs e.zsHandle = k.pool.objs e.zsHandle
  mms : k'.mms = k.mms

theorem SameStorage.noTrace {k k' : Kernel} (h : SameStorage k k') (hmms : k'.mms = k.mms) :
    NoTrace k k' :=
  ⟨h.map, fun _ _ _ => by rw [h.objs], hmms⟩

/-- The undo leaves the map without an entry at that address. -/
theorem map_unreplaced (k relocked : Kernel) (vaddr : Nat) (algo : AlgoId) (bytes : List UInt8) :
    (k.unreplaced relocked vaddr algo bytes).map =
      ⟨relocked.map.entries.erase (vaddrToIndex vaddr), relocked.map.count⟩ := by
  have hentry := mapLookup_addEntry_self relocked vaddr algo bytes
  show (mapRemove (relocked.addEntry vaddr algo bytes).map vaddr).2 = _
  rw [mapRemove_of_lookup hentry]
  show CompressionMap.mk ((relocked.map.entries.store (vaddrToIndex vaddr) _).erase
    (vaddrToIndex vaddr)) (relocked.map.count + 1 - 1) = _
  rw [XArray.erase_store, Int.add_sub_cancel]

/-- Taking back out what was entered at a free address restores the map. -/
theorem map_unreplaced_of_vacant {relocked : Kernel} {vaddr : Nat}
    (h : mapLookup relocked.map vaddr = none) (k : Kernel) (algo : AlgoId) (bytes : List UInt8) :
    (k.unreplaced relocked vaddr algo bytes).map = relocked.map := by
  rw [map_unreplaced, XArray.erase_of_vacant h]

/-- At a free address the undo leaves no trace. -/
theorem noTrace_unreplaced {k : Kernel} (hwf : k.pool.Wf) {mm addr : Nat} {relock : Relock}
    (h : mapLookup k.map (pageMask addr) = none) (algo : AlgoId) (bytes : List UInt8) :
    NoTrace (k.relock mm (pageMask addr) relock).1
      (k.unreplaced (k.relock mm (pageMask addr) relock).1 (pageMask addr) algo bytes) where
  map := map_unreplaced_of_vacant (by rw [map_relock, h]) k algo bytes
  objs := by
    intro i e _
    show (((k.relock mm (pageMask addr) relock).1.pool.malloc bytes).free k.pool.next).objs _ = _
    rw [pool_relock, objs_free_malloc hwf]
  mms := rfl

/-- After the undo there is no entry any more. -/
theorem mapLookup_unreplaced (k relocked : Kernel) (vaddr : Nat) (algo : AlgoId)
    (bytes : List UInt8) : mapLookup (k.unreplaced relocked vaddr algo bytes).map vaddr = none :=
  mapLookup_dropEntry_self _ _ _

/-- A replacement that stores and does not install is undone. -/
theorem replace_of_not_installs {codec : Codec} {env : ReplaceEnv} {k : Kernel}
    (hwf : k.pool.Wf) {mm addr pfn : Nat} {algo : AlgoId} {bytes : List UInt8}
    (hstores : replaceStores codec env k mm addr = some (pfn, algo, bytes))
    (hinstalls : ¬ReplaceInstalls env k mm addr) :
    ∃ ret ≠ 0, compressAndReplacePte codec env k mm addr =
      (ret, k.unreplaced (k.relock mm (pageMask addr) env.relock).1 (pageMask addr) algo bytes) := by
  have hcases := replace_cases codec env hwf mm addr
  generalize compressAndReplacePte codec env k mm addr = result at hcases
  cases hcases with
  | refused hret hnone =>
      rw [hstores] at hnone
      cases hnone
  | undone hret hstores' =>
      rw [hstores] at hstores'
      cases hstores'
      exact ⟨_, hret, rfl⟩
  | done _ hinstalls' => exact absurd hinstalls' hinstalls

/-- A replacement that stores and installs goes through. -/
theorem replace_of_installs {codec : Codec} {env : ReplaceEnv} {k : Kernel}
    (hwf : k.pool.Wf) {mm addr pfn : Nat} {algo : AlgoId} {bytes : List UInt8}
    (hstores : replaceStores codec env k mm addr = some (pfn, algo, bytes))
    (hinstalls : ReplaceInstalls env k mm addr) :
    compressAndReplacePte codec env k mm addr =
      (0, k.replaced mm (pageMask addr) pfn algo bytes) := by
  have hcases := replace_cases codec env hwf mm addr
  generalize compressAndReplacePte codec env k mm addr = result at hcases
  cases hcases with
  | refused hret hnone =>
      rw [hstores] at hnone
      cases hnone
  | undone _ _ hnot => exact absurd hinstalls hnot
  | done hstores' =>
      rw [hstores] at hstores'
      cases hstores'
      rfl

/-- **A failed replacement leaves no trace** exactly when it is not one that stores over an
entry and then finds the PTE gone or changed. -/
theorem replace_noTrace_iff (codec : Codec) (env : ReplaceEnv) {k : Kernel} (hwf : k.pool.Wf)
    (mm addr : Nat) :
    ((compressAndReplacePte codec env k mm addr).1 ≠ 0 →
      NoTrace (k.meanwhile codec env mm addr) (compressAndReplacePte codec env k mm addr).2) ↔
    (replaceStores codec env k mm addr = none ∨ ReplaceInstalls env k mm addr ∨
      mapLookup k.map addr = none) := by
  have hcases := replace_cases codec env hwf mm addr
  generalize compressAndReplacePte codec env k mm addr = result at hcases
  cases hcases with
  | refused hret hstores hsame =>
      have hmeanwhile : k.meanwhile codec env mm addr = k := by rw [Kernel.meanwhile, hstores]
      rw [hmeanwhile]
      exact ⟨fun _ => .inl hstores, fun _ _ => hsame.noTrace rfl⟩
  | @undone ret pfn algo bytes hret hstores hinstalls =>
      have hmeanwhile : k.meanwhile codec env mm addr =
          (k.relock mm (pageMask addr) env.relock).1 := by rw [Kernel.meanwhile, hstores]
      rw [hmeanwhile]
      constructor
      · intro htrace
        have hmap := (htrace hret).map
        have hnone := mapLookup_unreplaced k (k.relock mm (pageMask addr) env.relock).1
          (pageMask addr) algo bytes
        rw [hmap, map_relock, mapLookup_pageMask] at hnone
        exact .inr (.inr hnone)
      · rintro (hnone | hinstalls' | hvacant) _
        · rw [hnone] at hstores
          cases hstores
        · exact absurd hinstalls' hinstalls
        · exact noTrace_unreplaced hwf (by rw [mapLookup_pageMask, hvacant]) _ _
  | done hstores hinstalls =>
      exact ⟨fun _ => .inr (.inl hinstalls), fun _ hret => absurd rfl hret⟩

/-- No step fails until the PTE is gone under the second lock. -/
def ReplaceEnv.gone : ReplaceEnv := { ReplaceEnv.ok with relock := .noLock }

/-- One mapped page of zeros, at `0x1000` in address space 0. -/
def onePage : Kernel :=
  Kernel.blank.setPteAt 0 0x1000 (.present 0 true true false)

/-- A compressed page of address space 0 and, at the same virtual address, a mapped page of
address space 1. -/
def markerBesidePage : Kernel :=
  Kernel.oneMarker.setPteAt 1 0x1000 (.present 0 true true false)

theorem wf_markerBesidePage : markerBesidePage.pool.Wf := by
  intro h hh
  have hne : h ≠ 1 := by
    have : (2 : Nat) ≤ h := hh
    omega
  exact if_neg hne

/-- A page of one byte is stored as that byte if no step fails. -/
theorem replaceStores_fill {env : ReplaceEnv} (henv : env.toStoreEnv = .ok)
    (hlock : env.lock = true) {k : Kernel} (hsym : k.symbolsResolved = true)
    (hpct : k.minSavingsPct = 0) {mm addr pfn : Nat} {write young dirty : Bool} {b : UInt8}
    (hpte : k.pteAt mm (pageMask addr) = some (.present pfn write young dirty))
    (hpage : k.frames.data pfn = Page.fill b) :
    replaceStores samePageCodec env k mm addr = some (pfn, .samePage, [b]) := by
  have hbuf : compressBuf samePageCodec env.toStoreEnv k.minSavingsPct (k.frames.data pfn)
      = .ok (.samePage, [b]) := by
    rw [henv, hpct, hpage]
    exact compressBuf_fill (samePageCodec_compress_fill b)
  have hsnap : replaceSnapshot env k mm (pageMask addr) =
      .ok (.present pfn write young dirty, pfn, k.getPage pfn) := by
    rw [replaceSnapshot, hlock, if_pos rfl, hpte]
  exact replaceStores_of_ok hsym hsnap hbuf (by rw [henv]; rfl)

/-- A page of one byte is replaced. -/
theorem compressAndReplacePte_fill {k : Kernel} (hwf : k.pool.Wf)
    (hsym : k.symbolsResolved = true) (hpct : k.minSavingsPct = 0) {mm addr pfn : Nat}
    {write young dirty : Bool} {b : UInt8}
    (hpte : k.pteAt mm (pageMask addr) = some (.present pfn write young dirty))
    (hpage : k.frames.data pfn = Page.fill b) :
    compressAndReplacePte samePageCodec .ok k mm addr
      = (0, k.replaced mm (pageMask addr) pfn .samePage [b]) :=
  replace_of_installs hwf (replaceStores_fill rfl rfl hsym hpct hpte hpage) rfl

/-- A replacement at a free address that finds the PTE gone fails and leaves no trace. -/
theorem replace_noTrace_onePage :
    NoTrace (onePage.meanwhile samePageCodec .gone 0 0x1000)
      (compressAndReplacePte samePageCodec .gone onePage 0 0x1000).2 := by
  have hwf : onePage.pool.Wf := fun _ _ => rfl
  have hstores := @replaceStores_fill .gone rfl rfl onePage rfl rfl 0 0x1000 0 true true
    false 0 (pteAt_setPteAt_self _ _ _ _) rfl
  obtain ⟨ret, hret, hundone⟩ := replace_of_not_installs hwf hstores (by decide)
  apply (replace_noTrace_iff samePageCodec .gone hwf 0 0x1000).2 (.inr (.inr XArray.load_empty))
  rw [hundone]
  exact hret

/-- The PTE of the second address space is gone under the second lock, and the undo takes
the entry of the first one away. -/
theorem replace_trace_markerBesidePage :
    (compressAndReplacePte samePageCodec .gone markerBesidePage 1 0x1000).1 ≠ 0 ∧
      ¬NoTrace (markerBesidePage.meanwhile samePageCodec .gone 1 0x1000)
        (compressAndReplacePte samePageCodec .gone markerBesidePage 1 0x1000).2 := by
  have hstores := @replaceStores_fill .gone rfl rfl markerBesidePage rfl rfl 1 0x1000 0
    true true false 0 (pteAt_setPteAt_self _ _ _ _) rfl
  have hinstalls : ¬ReplaceInstalls .gone markerBesidePage 1 0x1000 := by decide
  have hentry : mapLookup markerBesidePage.map 0x1000 ≠ none :=
    Option.isSome_iff_ne_none.1 (by decide)
  obtain ⟨ret, hret, hundone⟩ := replace_of_not_installs wf_markerBesidePage hstores hinstalls
  rw [hundone, Kernel.meanwhile, hstores]
  refine ⟨hret, fun htrace => hentry ?_⟩
  have hmask : pageMask 0x1000 = 0x1000 := by decide
  rw [hmask] at htrace
  have hmap : (markerBesidePage.unreplaced markerBesidePage 0x1000 .samePage [0]).map =
      markerBesidePage.map := htrace.map
  rw [← hmap]
  exact mapLookup_unreplaced markerBesidePage markerBesidePage 0x1000 .samePage [0]

/-! ## The reference of the mapped page -/

/-- No replacement changes a reference count in the end. -/
theorem frames_replace (codec : Codec) (env : ReplaceEnv) {k : Kernel} (hwf : k.pool.Wf)
    (mm addr : Nat) : (compressAndReplacePte codec env k mm addr).2.frames = k.frames := by
  have hcases := replace_cases codec env hwf mm addr
  generalize compressAndReplacePte codec env k mm addr = result at hcases
  cases hcases with
  | refused => rfl
  | undone => exact frames_relock _ _ _ _
  | done =>
      rw [replaced_eq]
      rfl

/-- A replacement succeeds exactly when it stores the page and finds the PTE unchanged. -/
theorem replace_eq_zero_iff (codec : Codec) (env : ReplaceEnv) {k : Kernel} (hwf : k.pool.Wf)
    (mm addr : Nat) :
    (compressAndReplacePte codec env k mm addr).1 = 0 ↔
      replaceStores codec env k mm addr ≠ none ∧ ReplaceInstalls env k mm addr := by
  have hcases := replace_cases codec env hwf mm addr
  generalize compressAndReplacePte codec env k mm addr = result at hcases
  cases hcases with
  | refused hret hstores => simp [hret, hstores]
  | undone hret hstores hinstalls => simp [hret, hinstalls]
  | done hstores hinstalls => simp [hstores, hinstalls]

/-- What a replacement ought to do to reference counts: nothing when it fails, and on
success give up the reference of the PTE that mapped the page. -/
def RefsBalanced (k : Kernel) (mm addr : Nat) (result : Int × Kernel) : Prop :=
  (result.1 ≠ 0 → result.2.frames.refs = k.frames.refs) ∧
    (result.1 = 0 → ∀ pfn write young dirty,
      k.pteAt mm addr = some (.present pfn write young dirty) →
      result.2.frames.refs = Function.update k.frames.refs pfn (k.frames.refs pfn - 1))

/-- **The page's reference** is balanced exactly when the replacement fails. -/
theorem replace_refsBalanced_iff (codec : Codec) (env : ReplaceEnv) {k : Kernel}
    (hwf : k.pool.Wf) (mm addr : Nat) :
    RefsBalanced k mm addr (compressAndReplacePte codec env k mm addr) ↔
      (replaceStores codec env k mm addr = none ∨ ¬ReplaceInstalls env k mm addr) := by
  have hzero := replace_eq_zero_iff codec env hwf mm addr
  rw [RefsBalanced, frames_replace codec env hwf]
  constructor
  · rintro ⟨-, hsuccess⟩
    by_contra hdone
    rw [not_or, not_not] at hdone
    obtain ⟨⟨pfn, algo, bytes⟩, hstores⟩ := Option.ne_none_iff_exists'.1 hdone.1
    obtain ⟨-, -, -, write, young, dirty, hpte, -⟩ := replaceStores_eq_some hstores
    have hrefs := congrFun (hsuccess (hzero.2 hdone) pfn write young dirty
      (by simpa [Kernel.pteAt] using hpte)) pfn
    rw [Function.update_self] at hrefs
    omega
  · intro hfails
    refine ⟨fun _ => rfl, fun hret => absurd (hzero.1 hret) ?_⟩
    rcases hfails with hnone | hnot
    · exact fun h => h.1 hnone
    · exact fun h => hnot h.2

/-- A refused replacement. -/
theorem replace_refsBalanced_refused :
    RefsBalanced onePage 0 0x1000 (compressAndReplacePte samePageCodec .gone onePage 0 0x1000) :=
  (replace_refsBalanced_iff samePageCodec .gone (fun _ _ => rfl) 0 0x1000).2 (.inr (by decide))

/-- The page is compressed and out of the page table, and its frame is still referenced. -/
theorem not_refsBalanced_onePage :
    ¬RefsBalanced onePage 0 0x1000 (compressAndReplacePte samePageCodec .ok onePage 0 0x1000) ∧
      (compressAndReplacePte samePageCodec .ok onePage 0 0x1000).2.frames.refs 0 = 1 := by
  have hwf : onePage.pool.Wf := fun _ _ => rfl
  have hstores := @replaceStores_fill .ok rfl rfl onePage rfl rfl 0 0x1000 0 true true
    false 0 (pteAt_setPteAt_self _ _ _ _) rfl
  refine ⟨?_, by rw [frames_replace samePageCodec .ok hwf]; rfl⟩
  intro hbalanced
  have hzero := (replace_eq_zero_iff samePageCodec .ok hwf 0 0x1000).2
    ⟨by rw [hstores]; simp, rfl⟩
  have hrefs := congrFun (hbalanced.2 hzero 0 true true false (pteAt_setPteAt_self _ _ _ _)) 0
  rw [frames_replace samePageCodec .ok hwf, Function.update_self] at hrefs
  cases hrefs

end MiniMem
