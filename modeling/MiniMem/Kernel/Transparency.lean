import MiniMem.Kernel.Memory
import MiniMem.Kernel.ShrinkerSafety
import MiniMem.Kernel.Rss

/-!
# MiniMem.Kernel.Transparency

What the module is for: its processes do not notice it.

Between the accesses of the processes the module compresses pages, drops
them, shrinks its storage, lets processes exit and, before it is unloaded,
restores all pages.  Accesses and operations run whole here, one after the
other.  Every run refines a run of plain memory, as long as nobody changes a
PTE in the middle of an operation, no marker loses its entry and no page is
compressed that its codec does not read back.
-/

namespace MiniMem

/-! ## Steps -/

/-- The steps of the system: an access of a process, an operation of the module, or the walk
over all processes that restores their pages before the module is unloaded. -/
inductive MemLabel where
  | load (access : Access)
  | store (access : Access) (page : Page)
  | unmap (mm vaddr : Nat)
  | run (op : Op)
  | drain (tasks : List DrainTask)

/-- One step, with what can be seen of it. -/
def memStep (codec : Codec) (patched : Bool) (k : Kernel) :
    MemLabel → Option (Kernel × Option MemEvent)
  | .load a => some (userLoad codec patched k a)
  | .store a page => some (userStore codec patched k a page)
  | .unmap mm vaddr =>
      some (userUnmap patched k mm vaddr, some (.unmapped mm (vaddrToIndex vaddr)))
  | .run op => some (exec codec k op,
      match op with
      | .exit _ mm => some (.exited mm)
      | _ => none)
  | .drain tasks => some ((drainAndRestore codec tasks k).2, none)

/-! ## What is asked of a step -/

/-- No address space maps a frame. -/
def Unmapped (k : Kernel) (pfn : Nat) : Prop :=
  ∀ mm vaddr write young dirty, k.pteAt mm vaddr ≠ some (.present pfn write young dirty)

/-- Nobody changes a PTE in the middle of an operation, a page that is compressed reads back,
and a page is restored only into a frame that no process maps.  Faults and user writes are
part of the accesses. -/
def Undisturbed (codec : Codec) (k : Kernel) : Op → Prop
  | .replace env mm addr =>
      env.relock = .same ∧ ∀ page, k.pageAt mm addr = some page → codec.ReadsBack page
  | .restore _ _ pfn => ∀ p, pfn = some p → Unmapped k p
  | .store _ _ _ | .remove _ | .zapCb _ | .shrink _ | .exit _ _ => True
  | .write _ _ _ | .vmFault _ _ | .stockFault _ _ => False

/-- An operation enters a page only where there is no marker, and no marker that is there
after it is without an entry. -/
def SparesMarkers (codec : Codec) (k : Kernel) (op : Op) : Prop :=
  (∀ vaddr, storesAt codec k op = some vaddr → ∀ mm, ¬MarkerAt k mm vaddr) ∧
    ∀ mm vaddr, MarkerAt (exec codec k op) mm vaddr →
      ∃ entry, mapLookup (exec codec k op).map vaddr = some entry

/-- The steps that the theorem is about. -/
def Permitted (codec : Codec) (k : Kernel) : MemLabel → Prop
  | .load a | .store a _ => a.env.relock = .same
  | .unmap _ _ => True
  | .run op => Undisturbed codec k op ∧ SparesMarkers codec k op
  | .drain tasks => ∀ task ∈ tasks, ∀ vaddr, (task.pages vaddr).relock = .same

variable {codec : Codec} {k k' : Kernel} {held : Nat → Nat → Page} {mm vaddr : Nat}

/-! ## Operations on the storage -/

/-- What an operation that only works on the storage leaves alone: page tables, and the frames
that somebody maps. -/
structure KeepsPages (k k' : Kernel) : Prop where
  mms : k'.mms = k.mms
  next : k'.frames.next = k.frames.next
  resolved : k'.symbolsResolved = k.symbolsResolved
  data : ∀ mm vaddr pfn write young dirty,
    k.pteAt mm vaddr = some (.present pfn write young dirty) →
    k'.frames.data pfn = k.frames.data pfn

theorem KeepsPages.pteAt (h : KeepsPages k k') (mm vaddr : Nat) :
    k'.pteAt mm vaddr = k.pteAt mm vaddr := by
  rw [Kernel.pteAt, Kernel.pteAt, h.mms]

theorem KeepsPages.of_frames (hmms : k'.mms = k.mms) (hframes : k'.frames = k.frames)
    (hsym : k'.symbolsResolved = k.symbolsResolved) : KeepsPages k k' where
  mms := hmms
  next := by rw [hframes]
  resolved := hsym
  data _ _ _ _ _ _ _ := by rw [hframes]

/-- An operation that keeps the pages and what is held for the markers is not seen. -/
theorem MemInv.keepsPages (h : MemInv codec k held) (hpages : KeepsPages k k')
    (hkept : HeldInv codec k' held) :
    MemInv codec k' held ∧ k'.memory codec = k.memory codec := by
  constructor
  · refine ⟨hkept, h.frames.mono (Nat.le_of_eq hpages.next.symm) ?_⟩
    intro mm vaddr pfn write young dirty hp
    exact ⟨_, _, (hpages.pteAt mm vaddr).symm.trans hp⟩
  · apply Memory.ext_vaddr
    intro mm vaddr
    exact memory_congr h.heldInv hkept rfl (hpages.pteAt mm vaddr) (hpages.data mm vaddr)

/-- The entries of `k'`, those at the pages of `except` apart, are entries of `k` with the objects
that they have there. -/
def EntriesFrom (k k' : Kernel) (except : Nat → Prop) : Prop :=
  ∀ i e, ¬except i → k'.map.entries.load i = some e →
    k.map.entries.load i = some e ∧ k'.pool.objs e.zsHandle = k.pool.objs e.zsHandle

theorem EntriesFrom.same {k₀ : Kernel} {except : Nat → Prop} (hsame : SameStorage k k')
    (h : EntriesFrom k₀ k except) : EntriesFrom k₀ k' except := by
  intro i e hi hload
  rw [hsame.map] at hload
  rw [hsame.objs]
  exact h i e hi hload

theorem EntriesFrom.drop {k₀ : Kernel} {except : Nat → Prop} {entry : MapEntry}
    (hok : StorageOk k) (hlookup : mapLookup k.map vaddr = some entry)
    (h : EntriesFrom k₀ k except) :
    EntriesFrom k₀ (k.dropEntry vaddr entry.zsHandle) except := by
  intro i e hi hload
  rw [load_dropEntry] at hload
  split at hload
  · cases hload
  next hne =>
    rw [hok.objs_dropEntry hlookup hload hne]
    exact h i e hi hload

/-- Dropping entries. -/
theorem dropClosed_entriesFrom (k₀ : Kernel) (except : Nat → Prop) :
    DropClosed fun k => StorageOk k ∧ EntriesFrom k₀ k except where
  same _ _ hsame h := ⟨h.1.same hsame, h.2.same hsame⟩
  drop _ _ _ hlookup h := ⟨h.1.drop hlookup, h.2.drop h.1 hlookup⟩

/-- Whatever an operation does to the storage, the entries that it leaves are old ones, apart
from the one that it enters. -/
theorem entriesFrom_exec (codec : Codec) (h : StorageOk k) (op : Op) :
    EntriesFrom k (exec codec k op)
      fun i => ∃ vaddr, storesAt codec k op = some vaddr ∧ i = vaddrToIndex vaddr := by
  cases hop : storesAt codec k op with
  | none =>
      have hself : EntriesFrom k k
          fun i => ∃ vaddr, (none : Option Nat) = some vaddr ∧ i = vaddrToIndex vaddr :=
        fun _ _ _ hload => ⟨hload, rfl⟩
      exact ((dropClosed_entriesFrom k _).exec h.wf hop ⟨h, hself⟩).2
  | some vaddr =>
      obtain ⟨algo, bytes, hsame⟩ := exec_of_storesAt h.wf hop
      have hadd : EntriesFrom k (k.addEntry vaddr algo bytes)
          fun i => ∃ v, some vaddr = some v ∧ i = vaddrToIndex v := by
        intro i e hi hload
        have hne : i ≠ vaddrToIndex vaddr := fun heq => hi ⟨vaddr, rfl, heq⟩
        rw [load_addEntry, if_neg hne] at hload
        rw [objs_addEntry, if_neg (h.ne_next hload)]
        exact ⟨hload, rfl⟩
      rcases hsame with hsame | hsame
      · exact hadd.same hsame
      · exact (hadd.drop (h.add vaddr algo bytes)
          (mapLookup_addEntry_self k vaddr algo bytes)).same hsame

/-- An operation that keeps the pages and spares the markers keeps what is held for them. -/
theorem HeldInv.of_spares (h : HeldInv codec k held) {op : Op}
    (hpages : KeepsPages k (exec codec k op)) (hspares : SparesMarkers codec k op) :
    HeldInv codec (exec codec k op) held := by
  have hmarker {mm vaddr : Nat} (hm : MarkerAt (exec codec k op) mm vaddr) :
      MarkerAt k mm vaddr := by
    rwa [MarkerAt, hpages.pteAt] at hm
  constructor
  case storage => exact storageOk_exec h.storage op
  case backed =>
    intro mm vaddr hm
    obtain ⟨entry, hlookup⟩ := hspares.2 mm vaddr hm
    have hnew : ¬∃ v, storesAt codec k op = some v ∧ vaddrToIndex vaddr = vaddrToIndex v := by
      rintro ⟨v, hstores, hidx⟩
      exact hspares.1 v hstores mm ((hmarker hm).congr hidx.symm)
    obtain ⟨hload, hobjs⟩ := entriesFrom_exec codec h.storage op _ entry hnew hlookup
    obtain ⟨entry', hlookup', hdecode⟩ := h.backed mm vaddr (hmarker hm)
    rw [mapLookup, hload] at hlookup'
    injection hlookup' with heq
    exact ⟨entry, hlookup, by rw [decode_congr hobjs, heq, hdecode]⟩
  case exclusive =>
    intro mm mm' vaddr hm hm'
    exact h.exclusive mm mm' vaddr (hmarker hm) (hmarker hm')
  case resolved =>
    intro mm vaddr hm
    rw [hpages.resolved]
    exact h.resolved mm vaddr (hmarker hm)

theorem keepsPages_mapDrainLoop (n cursor : Nat) (k : Kernel) :
    KeepsPages k (mapDrainLoop shrinkDrainCallback n cursor k).2 := by
  induction n generalizing cursor k with
  | zero => exact .of_frames rfl rfl rfl
  | succ n ih =>
      unfold mapDrainLoop
      split
      · exact .of_frames rfl rfl rfl
      next index entry _ =>
        have hrest := ih (index + 1) (shrinkDrainCallback
          { k with map := ⟨k.map.entries.erase index, k.map.count - 1⟩ } (indexToVaddr index) entry)
        exact ⟨hrest.mms, hrest.next, hrest.resolved, hrest.data⟩

theorem keepsPages_zswapRemove (k : Kernel) (vaddr : Nat) :
    KeepsPages k (zswapRemove k vaddr).2 := by
  unfold zswapRemove
  split
  · exact .of_frames rfl rfl rfl
  · split <;> exact .of_frames rfl rfl rfl

theorem keepsPages_zapCb (k : Kernel) (addr : Nat) : KeepsPages k (zapCb k addr) := by
  unfold zapCb
  dsimp only
  split <;> exact .of_frames rfl rfl rfl

theorem keepsPages_compressAndStore (codec : Codec) (env : StoreEnv) (k : Kernel)
    (vaddr pfn : Nat) : KeepsPages k (compressAndStore codec env k vaddr pfn).2 := by
  unfold compressAndStore
  split
  · exact .of_frames rfl rfl rfl
  split
  · exact .of_frames rfl rfl rfl
  next algo bytes _ =>
    have hstore : KeepsPages k (storeCompressed k env vaddr algo bytes).2 := by
      unfold storeCompressed
      split
      · exact .of_frames rfl rfl rfl
      · dsimp only
        split <;> exact .of_frames rfl rfl rfl
    split
    next hk =>
      rw [hk] at hstore
      exact hstore
    next hk =>
      rw [hk] at hstore
      exact ⟨hstore.mms, hstore.next, hstore.resolved, hstore.data⟩

theorem keepsPages_decompressAndRestore (codec : Codec) (env : RestoreEnv) (k : Kernel)
    (vaddr : Nat) {pfn : Option Nat} (hpfn : ∀ p, pfn = some p → Unmapped k p) :
    KeepsPages k (decompressAndRestore codec env k vaddr pfn).2 := by
  have hwrite (p : Nat) (page : Page) (hp : Unmapped k p) : KeepsPages k (k.writeFrame p page) := by
    refine ⟨rfl, rfl, rfl, ?_⟩
    intro mm vaddr q write young dirty hq
    have hne : q ≠ p := by
      rintro rfl
      exact hp _ _ _ _ _ hq
    simp [Kernel.writeFrame, hne]
  unfold decompressAndRestore
  split
  · exact .of_frames rfl rfl rfl
  split
  · exact .of_frames rfl rfl rfl
  split
  · exact .of_frames rfl rfl rfl
  split
  · exact .of_frames rfl rfl rfl
  split
  · exact .of_frames rfl rfl rfl
  split
  · exact .of_frames rfl rfl rfl
  next page _ =>
    cases pfn with
    | none => exact .of_frames rfl rfl rfl
    | some p =>
        have hkept := hwrite p page (hpfn p rfl)
        exact ⟨hkept.mms, hkept.next, hkept.resolved, hkept.data⟩

/-- What an operation of the module does to an invariant and to the memory: it may hold other
pages, and the memory stays. -/
theorem MemInv.storageOp (h : MemInv codec k held) (op : Op)
    (hpages : KeepsPages k (exec codec k op)) (hspares : SparesMarkers codec k op) :
    MemInv codec (exec codec k op) held ∧ (exec codec k op).memory codec = k.memory codec :=
  h.keepsPages hpages (h.heldInv.of_spares hpages hspares)

/-! ## Replacing a page -/

/-- The codec that stores one page only. -/
def Codec.only (codec : Codec) (page : Page) : Codec where
  compress p := if p.bytes = page.bytes then codec.compress p else .error .error
  decompress := codec.decompress

theorem Codec.ReadsBack.only {page : Page} (h : codec.ReadsBack page) :
    (codec.only page).RoundTrips := by
  intro p algo bytes hp
  simp only [Codec.only] at hp ⊢
  split at hp
  next heq =>
    obtain rfl : p = page := Page.ext heq
    exact h algo bytes hp
  · cases hp

/-- A replacement that goes through, of a page that reads back. -/
theorem HeldInv.replaced_of_readsBack (h : HeldInv codec k held) {addr pfn : Nat}
    {write young dirty : Bool} {algo : AlgoId} {bytes : List UInt8}
    (hread : codec.ReadsBack (k.frames.data pfn))
    (hpte : k.pteAt mm addr = some (.present pfn write young dirty))
    (hcompress : codec.compress (k.frames.data pfn) = .ok (algo, bytes))
    (hsym : k.symbolsResolved = true) (hexclusive : ∀ mm', ¬MarkerAt k mm' (pageMask addr)) :
    HeldInv codec (k.replaced mm (pageMask addr) pfn algo bytes) (recordPage k held mm addr) := by
  have honly : HeldInv (codec.only (k.frames.data pfn)) k held :=
    ⟨h.storage, h.backed, h.exclusive, h.resolved⟩
  have hcompress' : (codec.only (k.frames.data pfn)).compress (k.frames.data pfn)
      = .ok (algo, bytes) := by
    simp [Codec.only, hcompress]
  have hdone := honly.replaced hread.only hpte hcompress' hsym hexclusive
  exact ⟨hdone.storage, hdone.backed, hdone.exclusive, hdone.resolved⟩

/-- A page that is compressed shows as before. -/
theorem MemInv.replaced (h : MemInv codec k held) {env : ReplaceEnv} {addr : Nat}
    (henv : env.relock = .same)
    (hread : ∀ page, k.pageAt mm addr = some page → codec.ReadsBack page)
    (hspares : SparesMarkers codec k (.replace env mm addr)) :
    ∃ held', MemInv codec (compressAndReplacePte codec env k mm addr).2 held' ∧
      (compressAndReplacePte codec env k mm addr).2.memory codec = k.memory codec := by
  have hframes := frames_replace codec env h.heldInv.storage.wf mm addr
  rcases compressAndReplacePte_quiet codec henv h.heldInv.storage.wf mm addr with
    ⟨pfn, write, young, dirty, algo, bytes, hpte, hcompress, hsym, hat, hdone⟩ |
    ⟨-, -, hsame, hmms, hsym⟩
  · rw [hdone] at hframes ⊢
    have hkept := h.heldInv.replaced_of_readsBack (hread _ (pageAt_of_present hpte)) hpte hcompress
      hsym (hspares.1 _ hat)
    refine ⟨recordPage k held mm addr, ⟨hkept, ?_⟩, ?_⟩
    · refine h.frames.mono (Nat.le_of_eq (congrArg Frames.next hframes).symm) ?_
      intro mm' vaddr' pfn' write' young' dirty' hp
      rw [pteAt_replaced] at hp
      split at hp
      · cases hp
      · exact ⟨_, _, hp⟩
    · apply Memory.ext_vaddr
      intro mm' vaddr'
      have hpte' := pteAt_replaced k mm (pageMask addr) pfn mm' vaddr' algo bytes
      rw [vaddrToIndex_pageMask] at hpte'
      by_cases hslot : mm' = mm ∧ vaddrToIndex vaddr' = vaddrToIndex addr
      · rw [if_pos hslot] at hpte'
        have hold : k.pteAt mm' vaddr' = some (.present pfn write young dirty) := by
          rw [hslot.1, pteAt_congr hslot.2, hpte]
        rw [memory_marker hkept ⟨_, hpte'⟩, memory_present codec hold, recordPage,
          pageAt_of_present hpte, hslot.1, hslot.2]
        simp
      · rw [if_neg hslot] at hpte'
        have hrecord : recordPage k held mm addr mm' (vaddrToIndex vaddr')
            = held mm' (vaddrToIndex vaddr') := by
          rw [recordPage, pageAt_of_present hpte]
          by_cases hmm : mm' = mm
          · have hidx : vaddrToIndex vaddr' ≠ vaddrToIndex addr := fun hidx => hslot ⟨hmm, hidx⟩
            simp [hmm, hidx]
          · simp [hmm]
        refine memory_congr h.heldInv hkept hrecord hpte' fun _ _ _ _ _ => ?_
        exact congrFun (congrArg Frames.data hframes) _
  · have hpages : KeepsPages k (compressAndReplacePte codec env k mm addr).2 :=
      .of_frames hmms hframes hsym
    exact ⟨held, h.storageOp (.replace env mm addr) hpages hspares⟩

/-! ## Unmapping and exit -/

/-- Dropping a page that has no marker any more keeps the invariant. -/
theorem HeldInv.zapCb (h : HeldInv codec k held) {addr : Nat} (hnone : ∀ mm, ¬MarkerAt k mm addr) :
    HeldInv codec (zapCb k addr) held := by
  have hcount : HeldInv codec { k with stats := { k.stats with
      zapCbCount := k.stats.zapCbCount + 1 } } held :=
    h.mono ⟨rfl, rfl, Nat.le_refl _⟩ (fun _ _ hm => hm) rfl
  unfold MiniMem.zapCb
  dsimp only
  split
  · exact hcount.mono ⟨rfl, rfl, Nat.le_refl _⟩ (fun _ _ hm => hm) rfl
  next entry hlookup =>
    refine (hcount.drop hlookup ?_).mono ⟨rfl, rfl, Nat.le_refl _⟩ (fun _ _ hm => hm) rfl
    intro mm hm
    exact hnone mm (MarkerAt.congr (vaddrToIndex_pageMask addr).symm hm)

/-- A page that is unmapped is gone, and nothing else is. -/
theorem MemInv.serves_unmap (h : MemInv codec k held) (patched : Bool) (mm vaddr : Nat) :
    Serves codec k held
      (userUnmap patched k mm vaddr, some (.unmapped mm (vaddrToIndex vaddr))) := by
  have hgone (hkept : HeldInv codec (k.setPteAt mm vaddr .empty) held) :
      MemInv codec (k.setPteAt mm vaddr .empty) held ∧
        (k.setPteAt mm vaddr .empty).memory codec
          = (k.memory codec).set mm (vaddrToIndex vaddr) none := by
    refine ⟨⟨hkept, h.frames.mono (Nat.le_refl _) ?_⟩, memory_eq_set h.heldInv hkept none ?_ ?_⟩
    · intro mm' vaddr' pfn write young dirty hp
      rw [pteAt_setPteAt] at hp
      split at hp
      · cases hp
      · exact ⟨_, _, hp⟩
    · intro vaddr' hidx
      have hempty := pteAt_setPteAt k mm mm vaddr vaddr' .empty
      rw [if_pos ⟨rfl, hidx⟩, Kernel.pteAt] at hempty
      simp [Kernel.memory, hempty]
    · intro mm' vaddr' hslot
      rw [pteAt_setPteAt, if_neg hslot]
      exact ⟨rfl, fun _ _ _ _ _ => rfl⟩
  unfold userUnmap
  cases hp : k.pteAt mm vaddr with
  | none =>
      refine ⟨h, ?_⟩
      rw [Simulates, Memory.step, Option.some.injEq]
      apply Memory.ext_vaddr
      intro mm' vaddr'
      rw [Memory.set_apply]
      split
      next hslot =>
        have hnone : k.pteAt mm' vaddr' = none := by rw [hslot.1, pteAt_congr hslot.2, hp]
        rw [Kernel.pteAt] at hnone
        simp [Kernel.memory, hnone]
      · rfl
  | some pte =>
      dsimp only
      split
      next hmarker =>
        rw [Bool.and_eq_true] at hmarker
        obtain ⟨hcleared, hnone⟩ := h.heldInv.clear (markerAt_of_isMinimem hp hmarker.1)
        obtain ⟨hinv, hset⟩ := hgone hcleared
        obtain ⟨hinv', hkept⟩ := hinv.keepsPages (keepsPages_zapCb _ vaddr) (hcleared.zapCb hnone)
        refine ⟨hinv', ?_⟩
        rw [Simulates, Memory.step, hkept, hset]
      · obtain ⟨hinv, hset⟩ := hgone (heldInv_setPteAt h.heldInv rfl)
        refine ⟨hinv, ?_⟩
        rw [Simulates, Memory.step, hset]

/-- What `minimem_mmu_release` leaves alone: the frames and the other address spaces. -/
structure LeavesOthers (mm : Nat) (k k' : Kernel) : Prop where
  frames : k'.frames = k.frames
  others : ∀ mm', mm' ≠ mm → k'.mms mm' = k.mms mm'

theorem leavesOthers_zapRemove (mm : Nat) (vaddrs : List Nat) (freed : Nat) (k : Kernel) :
    LeavesOthers mm k (zapRemove vaddrs (freed, k)).2 := by
  induction vaddrs generalizing freed k with
  | nil => exact ⟨rfl, fun _ _ => rfl⟩
  | cons vaddr vaddrs ih =>
      have hframes : (zswapRemove k vaddr).2.frames = k.frames := by
        unfold zswapRemove
        split
        · rfl
        · split <;> rfl
      have hrest := ih (if (zswapRemove k vaddr).1 = 0 then freed + 1 else freed)
        (zswapRemove k vaddr).2
      exact ⟨hrest.frames.trans hframes, fun mm' hne =>
        (hrest.others mm' hne).trans (congrFun (mms_zswapRemove k vaddr) mm')⟩

theorem leavesOthers_mmuRelease (env : ZapEnv) (k : Kernel) (mm : Nat) :
    LeavesOthers mm k (mmuRelease env k mm).2 := by
  unfold mmuRelease zapRange
  split
  · exact ⟨rfl, fun _ _ => rfl⟩
  · dsimp only
    have hpage (s : ZapState) (addr : Nat) (hs : LeavesOthers mm k s.kernel) :
        LeavesOthers mm k (zapPage env mm s addr).kernel := by
      have hset : LeavesOthers mm k (s.kernel.setPteAt mm addr .empty) := by
        refine ⟨hs.frames, fun mm' hne => ?_⟩
        simp only [Kernel.setPteAt, Function.update_of_ne hne]
        exact hs.others mm' hne
      unfold zapPage
      split
      · exact hs
      split
      · exact hs
      split
      · exact hs
      dsimp only
      split
      · split <;> exact hset
      · exact hset
    have hwalk := zapVmas_keeps (P := fun s => LeavesOthers mm k s.kernel) hpage 0 ulongMax
      ((k.mms mm).vmas.filter fun vma => decide (0 < vma.stop))
      (s := ⟨k, ⟨[], 256, 0⟩, false⟩) ⟨rfl, fun _ _ => rfl⟩
    generalize zapVmas env mm 0 ulongMax _ _ = s at hwalk ⊢
    have hremove := leavesOthers_zapRemove mm s.buf.vaddrs 0 s.kernel
    exact ⟨hremove.frames.trans hwalk.frames, fun mm' hne =>
      (hremove.others mm' hne).trans (hwalk.others mm' hne)⟩

/-- The pages of a process go with it, whatever its release fails to do, and no others. -/
theorem MemInv.serves_exit (h : MemInv codec k held) (env : ZapEnv) (mm : Nat) :
    Serves codec k held ((mmuRelease env k mm).2.exitMmap mm, some (.exited mm)) := by
  have haside := leavesOthers_mmuRelease env k mm
  have hkept : HeldInv codec ((mmuRelease env k mm).2.exitMmap mm) held :=
    (h.heldInv.mmuRelease env mm).exitMmap mm
  have hself (vaddr : Nat) : ((mmuRelease env k mm).2.exitMmap mm).pteAt mm vaddr = none := by
    simp [Kernel.pteAt, Kernel.exitMmap]
  have hother {mm' : Nat} (hne : mm' ≠ mm) (vaddr : Nat) :
      ((mmuRelease env k mm).2.exitMmap mm).pteAt mm' vaddr = k.pteAt mm' vaddr := by
    simp [Kernel.pteAt, Kernel.exitMmap, hne, haside.others mm' hne]
  refine ⟨⟨hkept, h.frames.mono (Nat.le_of_eq (congrArg Frames.next haside.frames).symm) ?_⟩, ?_⟩
  · intro mm' vaddr pfn write young dirty hp
    by_cases hne : mm' = mm
    · rw [hne, hself] at hp
      cases hp
    · rw [hother hne] at hp
      exact ⟨_, _, hp⟩
  · rw [Simulates, Memory.step, Option.some.injEq]
    symm
    apply Memory.ext_vaddr
    intro mm' vaddr
    by_cases hne : mm' = mm
    · have hnone := hself vaddr
      rw [Kernel.pteAt] at hnone
      simp [Memory.exit, Kernel.memory, hne, hnone]
    · rw [Memory.exit, Function.update_of_ne hne]
      refine memory_congr h.heldInv hkept rfl (hother hne vaddr) fun pfn _ _ _ _ => ?_
      exact congrFun (congrArg Frames.data haside.frames) pfn

/-! ## Restoring all pages -/

/-- Restoring the page of a marker is what a fault on it does. -/
theorem MemInv.drained (h : MemInv codec k held) {v : Visit} {orig : Pte} {entry : MapEntry}
    (hrelock : v.env.relock = .same) (hpte : k.pteAt v.mm v.vaddr = some orig)
    (hmarker : orig.isMinimem = true) (hlookup : mapLookup k.map v.vaddr = some entry) :
    MemInv codec (k.drained v orig entry (held v.mm (vaddrToIndex v.vaddr))) held ∧
      (k.drained v orig entry (held v.mm (vaddrToIndex v.vaddr))).memory codec
        = k.memory codec := by
  obtain ⟨hinv, hmem⟩ := h.faulted ⟨v.mm, v.vma, v.vaddr, orig⟩ hpte hmarker hlookup
  have hdrained (page : Page) : ∃ stats, k.drained v orig entry page
      = { k.faulted ⟨v.mm, v.vma, v.vaddr, orig⟩ page entry with stats := stats } := by
    refine ⟨(k.drained v orig entry page).stats, ?_⟩
    simp [Kernel.drained, Kernel.faulted, installPage_eq, hrelock, Kernel.relock, hpte,
      Kernel.dropEntry, Kernel.uncount, Kernel.faultHandled, mapRemove]
  obtain ⟨stats, hdone⟩ := hdrained (held v.mm (vaddrToIndex v.vaddr))
  rw [hdone]
  refine ⟨⟨?_, ?_⟩, hmem⟩
  · exact hinv.heldInv.mono ⟨rfl, rfl, Nat.le_refl _⟩ (fun _ _ hm => hm) rfl
  · exact hinv.frames.mono (Nat.le_refl _) fun _ _ _ _ _ _ hp => ⟨_, _, hp⟩

/-- A visit of the walk is not seen. -/
theorem MemInv.kept_drainVisit (h : MemInv codec k held) (n : Nat) {v : Visit}
    (hrelock : v.env.relock = .same) :
    MemInv codec (drainVisit codec (n, k) v).2 held ∧
      (drainVisit codec (n, k) v).2.memory codec = k.memory codec := by
  rcases drainVisit_cases codec n k v with ⟨hdone, -⟩ |
    ⟨orig, entry, -, hpte, hmarker, hlookup, hrest⟩
  · rw [hdone]
    exact ⟨h, rfl⟩
  · obtain ⟨entry', hlookup', hdecode⟩ :=
      h.heldInv.backed v.mm v.vaddr (markerAt_of_isMinimem hpte hmarker)
    obtain rfl : entry' = entry := Option.some.inj (hlookup'.symm.trans hlookup)
    rcases hrest with ⟨hnone, -⟩ | ⟨page, hpage, hdone⟩
    · rw [hdecode] at hnone
      cases hnone
    · obtain rfl : held v.mm (vaddrToIndex v.vaddr) = page :=
        Option.some.inj (hdecode.symm.trans hpage)
      rw [hdone]
      exact h.drained hrelock hpte hmarker hlookup

/-- Nor is the walk. -/
theorem MemInv.kept_visits (h : MemInv codec k held) (n : Nat) {vs : List Visit}
    (hrelock : ∀ v ∈ vs, v.env.relock = .same) :
    MemInv codec (vs.foldl (drainVisit codec) (n, k)).2 held ∧
      (vs.foldl (drainVisit codec) (n, k)).2.memory codec = k.memory codec := by
  induction vs generalizing n k with
  | nil => exact ⟨h, rfl⟩
  | cons v vs ih =>
      rw [List.forall_mem_cons] at hrelock
      obtain ⟨hfirst, hmem⟩ := h.kept_drainVisit n hrelock.1
      obtain ⟨hrest, hmem'⟩ := ih hfirst (drainVisit codec (n, k) v).1 hrelock.2
      exact ⟨hrest, hmem'.trans hmem⟩

/-! ## The refinement -/

/-- One permitted step keeps the invariant and does to the memory what its event says. -/
theorem MemInv.step {patched : Bool} {label : MemLabel} {e : Option MemEvent}
    (h : MemInv codec k held) (hG : Permitted codec k label)
    (hstep : memStep codec patched k label = some (k', e)) :
    ∃ held', MemInv codec k' held' ∧
      Simulates Memory.step (k.memory codec) (k'.memory codec) e := by
  cases label with
  | load a =>
      injection hstep with hstep
      have hserves := h.serves_load patched hG
      rw [hstep] at hserves
      exact ⟨held, hserves⟩
  | store a page =>
      injection hstep with hstep
      have hserves := h.serves_store patched hG page
      rw [hstep] at hserves
      exact ⟨held, hserves⟩
  | unmap mm vaddr =>
      injection hstep with hstep
      have hserves := h.serves_unmap patched mm vaddr
      rw [hstep] at hserves
      exact ⟨held, hserves⟩
  | run op =>
      obtain ⟨hundisturbed, hspares⟩ := hG
      injection hstep with hstep
      cases op with
      | replace env mm addr =>
          obtain ⟨held', hinv, hmem⟩ := h.replaced hundisturbed.1 hundisturbed.2 hspares
          rw [Prod.mk.injEq] at hstep
          rw [← hstep.1, ← hstep.2]
          exact ⟨held', hinv, hmem⟩
      | exit env mm =>
          have hserves := h.serves_exit env mm
          rw [show (mmuRelease env k mm).2.exitMmap mm = exec codec k (.exit env mm) by rfl,
            hstep] at hserves
          exact ⟨held, hserves⟩
      | store env vaddr pfn =>
          obtain ⟨rfl, rfl⟩ := Prod.mk.inj hstep
          exact ⟨held, h.storageOp _ (keepsPages_compressAndStore codec env k vaddr pfn) hspares⟩
      | restore env vaddr pfn =>
          obtain ⟨rfl, rfl⟩ := Prod.mk.inj hstep
          exact ⟨held, h.storageOp _
            (keepsPages_decompressAndRestore codec env k vaddr hundisturbed) hspares⟩
      | remove vaddr =>
          obtain ⟨rfl, rfl⟩ := Prod.mk.inj hstep
          exact ⟨held, h.storageOp _ (keepsPages_zswapRemove k vaddr) hspares⟩
      | zapCb addr =>
          obtain ⟨rfl, rfl⟩ := Prod.mk.inj hstep
          exact ⟨held, h.storageOp _ (keepsPages_zapCb k addr) hspares⟩
      | shrink nrToScan =>
          obtain ⟨rfl, rfl⟩ := Prod.mk.inj hstep
          have hpages : KeepsPages k (shrinkScan k nrToScan).2 := by
            unfold shrinkScan
            split
            · exact .of_frames rfl rfl rfl
            · exact keepsPages_mapDrainLoop nrToScan 0 k
          exact ⟨held, h.storageOp _ hpages hspares⟩
      | write | vmFault | stockFault => cases hundisturbed
  | drain tasks =>
      obtain ⟨rfl, rfl⟩ := Prod.mk.inj (Option.some.inj hstep)
      rw [drainAndRestore_eq codec tasks h.heldInv.storage]
      refine ⟨held, h.kept_visits 0 fun v hv => ?_⟩
      obtain ⟨task, htask, vaddr, henv⟩ := env_of_mem_visits hv
      rw [henv]
      exact hG task htask vaddr

/-- The module refines plain memory. -/
theorem refines_memory (codec : Codec) (patched : Bool) :
    Refines (memStep codec patched) (Permitted codec) Memory.step (Kernel.memory codec)
      fun k => ∃ held, MemInv codec k held where
  keeps _ _ _ _ := fun ⟨_, h⟩ hG hstep =>
    let ⟨held', hinv, _⟩ := h.step hG hstep
    ⟨held', hinv⟩
  simulates _ _ _ _ := fun ⟨_, h⟩ hG hstep =>
    let ⟨_, _, hsim⟩ := h.step hG hstep
    hsim

/-- Where the memory holds a page, an access whose fault meets no failure goes through. -/
theorem MemInv.served (h : MemInv codec k held) (patched : Bool) {a : Access} (henv : a.env = .ok)
    {page : Page} (hpage : k.memory codec a.mm a.vpn = some page) :
    (userLoad codec patched k a).2 = some (.loaded a.mm a.vpn page) ∧
      (a.vma.write = true → ∀ new,
        (userStore codec patched k a new).2 = some (.stored a.mm a.vpn new)) := by
  have hpresent : ∃ pfn write young dirty, (faultIn codec patched k a).pteAt a.mm a.vaddr
      = some (.present pfn write young dirty) := by
    unfold faultIn
    split
    next index hpte =>
      obtain ⟨entry, -, hvm, hstock⟩ :=
        @HeldInv.fault codec k held h.heldInv ⟨a.mm, a.vma, a.vaddr, .marker index⟩ hpte rfl
      rw [henv, hvm, hstock, ite_self, pteAt_faulted, if_pos ⟨rfl, rfl⟩]
      exact ⟨_, _, _, _, rfl⟩
    next hnot =>
      cases hp : k.pteAt a.mm a.vaddr with
      | none =>
          rw [Kernel.pteAt] at hp
          simp [Kernel.memory, Access.vpn, hp] at hpage
      | some pte =>
          cases pte with
          | present pfn write young dirty => exact ⟨_, _, _, _, rfl⟩
          | marker index => exact absurd hp (hnot index)
          | empty | swap =>
              rw [Kernel.pteAt] at hp
              simp [Kernel.memory, Access.vpn, hp] at hpage
  obtain ⟨pfn, write, young, dirty, hp⟩ := hpresent
  have hmem := (h.kept_faultIn patched (a := a) (by rw [henv]; rfl)).2
  have hdata := memory_present codec hp
  rw [hmem] at hdata
  constructor
  · simp only [userLoad, hp, Option.some.injEq, MemEvent.loaded.injEq, true_and]
    rw [Access.vpn, hdata] at hpage
    exact Option.some.inj hpage
  · intro hwritable new
    cases write with
    | true => simp only [userStore, hp]
    | false => simp only [userStore, hp, hwritable, if_true]

/-- **Transparency**: in every run of whole accesses and operations, from a loaded module without
markers, in which nobody changes a PTE in the middle of an operation, no marker loses its entry
and no page is compressed that its codec does not read back, the loads and stores that go
through, the unmappings and the exits are those of plain memory, from the memory that was there
when the module was loaded to the memory that the state stands for; and an access to a page of
that memory whose fault meets no failure goes through. -/
theorem memory_transparent {codec : Codec} (patched : Bool) {mms : Nat → Mm} {frames : Frames}
    {maxPoolPages minSavingsPct : Int} {symbolsResolved : Bool}
    (hclean : ∀ mm vaddr,
      ¬MarkerAt (.loaded mms frames maxPoolPages minSavingsPct symbolsResolved) mm vaddr)
    (hframes : FramesOk (.loaded mms frames maxPoolPages minSavingsPct symbolsResolved))
    {labels : List MemLabel} {events : List MemEvent} {t : Kernel}
    (hrun : Emits (memStep codec patched) (Permitted codec)
      (.loaded mms frames maxPoolPages minSavingsPct symbolsResolved) labels events t) :
    events.foldlM Memory.step
        ((Kernel.loaded mms frames maxPoolPages minSavingsPct symbolsResolved).memory codec)
      = some (t.memory codec) ∧
      ∀ (a : Access) page, a.env = .ok → t.memory codec a.mm a.vpn = some page →
        (userLoad codec patched t a).2 = some (.loaded a.mm a.vpn page) ∧
        (a.vma.write = true → ∀ new,
          (userStore codec patched t a new).2 = some (.stored a.mm a.vpn new)) := by
  have hloaded : ∃ held, MemInv codec
      (.loaded mms frames maxPoolPages minSavingsPct symbolsResolved) held :=
    ⟨fun _ _ => Page.fill 0, heldInv_loaded codec hclean _, hframes⟩
  have hrefines := refines_memory codec patched
  refine ⟨hrefines.foldlM hrun hloaded, fun a page henv hpage => ?_⟩
  obtain ⟨held, hinv⟩ := hrefines.inv hrun hloaded
  exact hinv.served patched henv hpage

/-- A page of ones that was compressed is loaded. -/
theorem memory_transparent_first :
    (userLoad samePageCodec true firstReplaced.kernel ⟨0, firstFault.vma, 0x1000, .ok⟩).2
      = some (.loaded 0 1 (Page.fill 1)) := by
  have hframes : FramesOk twoSpaces.kernel := by
    have hpte (mm vaddr : Nat) : twoSpaces.kernel.pteAt mm vaddr =
        if mm < 2 ∧ vaddrToIndex vaddr = 1 then some (.present mm true true true) else none := rfl
    constructor
    · intro mm vaddr pfn write young dirty hp
      rw [hpte] at hp
      split at hp
      · simp only [Option.some.injEq, Pte.present.injEq] at hp
        show pfn < 2
        omega
      · cases hp
    · intro mm vaddr pfn young dirty mm' vaddr' write' young' dirty' hp hp'
      rw [hpte] at hp hp'
      split at hp <;> split at hp' <;> simp_all
  have hexec : exec samePageCodec twoSpaces.kernel (.replace .ok 0 0x1000) = firstReplaced.kernel :=
    congrArg Prod.snd (compressAndReplacePte_fill (wf_loaded _ _ _ _ _) rfl rfl rfl rfl :
      compressAndReplacePte samePageCodec .ok twoSpaces.kernel 0 0x1000
        = (0, firstReplaced.kernel))
  have hspares : SparesMarkers samePageCodec twoSpaces.kernel (.replace .ok 0 0x1000) := by
    refine ⟨fun _ _ mm => not_markerAt_twoSpaces mm _, ?_⟩
    rw [hexec]
    intro mm vaddr hm
    have hnew : MarkerAt (twoSpaces.kernel.replaced 0 (pageMask 0x1000) 0 .samePage [1]) mm vaddr :=
      hm
    rcases markerAt_replaced hnew with ⟨-, hidx⟩ | ⟨-, hm⟩
    · refine ⟨⟨.samePage, 1, 1⟩, ?_⟩
      rw [mapLookup, firstReplaced, map_replaced, load_addEntry, hidx]
      rfl
    · exact absurd hm (not_markerAt_twoSpaces mm vaddr)
  have hstep : memStep samePageCodec true twoSpaces.kernel (.run (.replace .ok 0 0x1000))
      = some (firstReplaced.kernel, none) := by
    rw [memStep, hexec]
    simp
  have hrun : Emits (memStep samePageCodec true) (Permitted samePageCodec) twoSpaces.kernel
      [.run (.replace .ok 0 0x1000)] [] firstReplaced.kernel :=
    .cons hstep ⟨⟨rfl, fun page _ => samePageCodec_roundTrips page⟩, hspares⟩ (.nil _)
  obtain ⟨hmem, hserved⟩ := memory_transparent true not_markerAt_twoSpaces hframes hrun
  have hsame : twoSpaces.kernel.memory samePageCodec
      = firstReplaced.kernel.memory samePageCodec := Option.some.inj hmem
  refine (hserved ⟨0, firstFault.vma, 0x1000, .ok⟩ (Page.fill 1) rfl ?_).1
  rw [← hsame]
  rfl

end MiniMem
