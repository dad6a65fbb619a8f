import MiniMem.XArray
import MiniMem.Kernel.Compress

/-!
# MiniMem.Kernel.State

The state that the kernel module works on: page tables, page frames, the
zsmalloc pool, the compression map and the counters.

Everything is a function or a map from plain numbers: an address space is
an `mm` number, a page-table slot a virtual page number, a frame a `pfn`, a
zsmalloc object a handle.  The updates below are the only ones the source
makes; each comes with the lemmas that say what it leaves alone.
-/

namespace MiniMem

/-! ## Return codes -/

/-- `-ENOENT`. -/
def enoent : Int := -2
/-- `-EIO`. -/
def eio : Int := -5
/-- `-EAGAIN`. -/
def eagain : Int := -11
/-- `-ENOMEM`. -/
def enomem : Int := -12
/-- `-EFAULT`. -/
def efault : Int := -14
/-- `-ENODEV`. -/
def enodev : Int := -19
/-- `-EINVAL`. -/
def einval : Int := -22
/-- `-ENOSPC`. -/
def enospc : Int := -28
/-- `-EOPNOTSUPP`. -/
def eopnotsupp : Int := -95

/-- The values of `MINIMEM_ERROR`, `MINIMEM_NOSPACE` and `MINIMEM_INCOMPRESSIBLE`. -/
def Status.code : Status → Int
  | .error => -1
  | .nospace => -2
  | .incompressible => -3

/-! ## Addresses -/

/-- `PAGE_SHIFT`. -/
def pageShift : Nat := 12

/-- `addr & PAGE_MASK`. -/
def pageMask (addr : Nat) : Nat := addr / pageSize * pageSize

/-- `minimem_vaddr_to_index`, the number of the virtual page of an address. -/
def vaddrToIndex (vaddr : Nat) : Nat := vaddr >>> pageShift

/-- `minimem_index_to_vaddr`. -/
def indexToVaddr (index : Nat) : Nat := index <<< pageShift

/-- An address and the start of its page have the same index. -/
@[simp] theorem vaddrToIndex_pageMask (addr : Nat) :
    vaddrToIndex (pageMask addr) = vaddrToIndex addr := by
  simp [vaddrToIndex, pageMask, pageShift, pageSize, Nat.shiftRight_eq_div_pow]

/-- The index of the address that an index stands for is that index. -/
@[simp] theorem vaddrToIndex_indexToVaddr (index : Nat) :
    vaddrToIndex (indexToVaddr index) = index := by
  simp [vaddrToIndex, indexToVaddr]

/-! ## Page tables -/

/-- A page-table entry. -/
inductive Pte where
  | empty
  | present (pfn : Nat) (write young dirty : Bool)
  | marker (index : Nat)
  | swap (val : Nat)
  deriving DecidableEq, Repr

/-- The entry of `make_minimem_entry`: 46 bits of the map index survive in it. -/
def minimemPte (index : Nat) : Pte := .marker (index % 2 ^ 46)

/-- `is_minimem_pte`. -/
def Pte.isMinimem : Pte → Bool
  | .marker _ => true
  | _ => false

/-- The marker of an index is recognised as one. -/
@[simp] theorem isMinimem_minimemPte (index : Nat) : (minimemPte index).isMinimem = true := rfl

/-- A marker maps no page. -/
@[simp] theorem minimemPte_ne_present (index pfn : Nat) (w y d : Bool) :
    minimemPte index ≠ .present pfn w y d := by
  simp [minimemPte]

/-- The fields of `struct vm_area_struct` that the module reads. -/
structure Vma where
  start : Nat
  stop : Nat
  anonymous : Bool
  write : Bool
  shared : Bool
  io : Bool
  pfnmap : Bool
  locked : Bool
  deriving DecidableEq, Repr

/-- The addresses from `start` to `stop`, a page apart. -/
def pagesFrom (start stop : Nat) : List Nat :=
  (List.range ((stop - start + (pageSize - 1)) / pageSize)).map fun i => start + i * pageSize

/-- The fields of `struct mm_struct` that the module touches.  `ptes` is the page
table by virtual page number; where it is `none` there is no page table. -/
structure Mm where
  ptes : Nat → Option Pte
  vmas : List Vma
  anonPages : Int

/-! ## Frames, pool and map -/

/-- The page frames: their contents, their reference counts, and the next one
the allocator hands out. -/
structure Frames where
  data : Nat → Page
  refs : Nat → Int
  next : Nat

/-- The zsmalloc pool: the live objects by handle, and the next handle. -/
structure Pool where
  objs : Nat → Option (List UInt8)
  next : Nat

/-- `zs_malloc` of an object, filled by `zs_obj_write`.  The handle is `pool.next`. -/
def Pool.malloc (pool : Pool) (bytes : List UInt8) : Pool where
  objs := Function.update pool.objs pool.next (some bytes)
  next := pool.next + 1

/-- `zs_free`. -/
def Pool.free (pool : Pool) (handle : Nat) : Pool :=
  { pool with objs := Function.update pool.objs handle none }

/-- A handle that is allocated and not freed. -/
def Pool.Live (pool : Pool) (handle : Nat) : Prop := (pool.objs handle).isSome = true

/-- Only handles that were handed out are live. -/
def Pool.Wf (pool : Pool) : Prop := ∀ handle, pool.next ≤ handle → pool.objs handle = none

/-- `struct minimem_map_entry`. -/
structure MapEntry where
  algoId : AlgoId
  compressedLen : Nat
  zsHandle : Nat
  deriving DecidableEq, Repr

/-- `struct minimem_map`. -/
structure CompressionMap where
  entries : XArray MapEntry
  count : Int

/-! ## The kernel -/

/-- The counters of the module. -/
structure Stats where
  storedPages : Int
  totalBytes : Int
  bytesSaved : Int
  faultsHandled : Int
  faultsMissed : Int
  zapCbCount : Int
  zapCbMissCount : Int
  deriving DecidableEq, Repr

/-- The kernel as the module sees it. -/
structure Kernel where
  mms : Nat → Mm
  frames : Frames
  pool : Pool
  map : CompressionMap
  stats : Stats
  maxPoolPages : Int
  minSavingsPct : Int
  symbolsResolved : Bool

/-- The kernel as the module finds it at load: any page tables and frames, an empty
map and an empty pool. -/
def Kernel.loaded (mms : Nat → Mm) (frames : Frames) (maxPoolPages minSavingsPct : Int)
    (symbolsResolved : Bool) : Kernel where
  mms := mms
  frames := frames
  pool := ⟨fun _ => none, 1⟩
  map := ⟨∅, 0⟩
  stats := ⟨0, 0, 0, 0, 0, 0, 0⟩
  maxPoolPages := maxPoolPages
  minSavingsPct := minSavingsPct
  symbolsResolved := symbolsResolved

/-- The entry at an address, `none` where there is no page table. -/
def Kernel.pteAt (k : Kernel) (mm vaddr : Nat) : Option Pte := (k.mms mm).ptes (vaddrToIndex vaddr)

/-- The contents of the page that an address is mapped to. -/
def Kernel.pageAt (k : Kernel) (mm vaddr : Nat) : Option Page :=
  match k.pteAt mm vaddr with
  | some (.present pfn _ _ _) => some (k.frames.data pfn)
  | _ => none

/-- `minimem_set_pte_at`. -/
def Kernel.setPteAt (k : Kernel) (mm vaddr : Nat) (pte : Pte) : Kernel :=
  { k with mms := Function.update k.mms mm { k.mms mm with
      ptes := Function.update (k.mms mm).ptes (vaddrToIndex vaddr) (some pte) } }

/-- `percpu_counter_add(&mm->rss_stat[MM_ANONPAGES], n)`. -/
def Kernel.addAnonPages (k : Kernel) (mm : Nat) (n : Int) : Kernel :=
  { k with mms := Function.update k.mms mm { k.mms mm with anonPages := (k.mms mm).anonPages + n } }

/-- `get_page`. -/
def Kernel.getPage (k : Kernel) (pfn : Nat) : Kernel :=
  { k with frames := { k.frames with
      refs := Function.update k.frames.refs pfn (k.frames.refs pfn + 1) } }

/-- `put_page`. -/
def Kernel.putPage (k : Kernel) (pfn : Nat) : Kernel :=
  { k with frames := { k.frames with
      refs := Function.update k.frames.refs pfn (k.frames.refs pfn - 1) } }

/-- `alloc_page_vma`, with the page then filled with `page`; the frame is `frames.next`.
A page that an error path allocates and frees again leaves no trace here. -/
def Kernel.allocPage (k : Kernel) (page : Page) : Kernel :=
  { k with frames := {
      data := Function.update k.frames.data k.frames.next page
      refs := Function.update k.frames.refs k.frames.next 1
      next := k.frames.next + 1 } }

/-- The user writes a page. -/
def Kernel.writeFrame (k : Kernel) (pfn : Nat) (page : Page) : Kernel :=
  { k with frames := { k.frames with data := Function.update k.frames.data pfn page } }

/-- What `zs_obj_read_begin` and the decompressor make of a map entry. -/
def Kernel.decode (k : Kernel) (codec : Codec) (entry : MapEntry) : Option Page :=
  match k.pool.objs entry.zsHandle with
  | none => none
  | some bytes => codec.decompress entry.algoId (bytes.take entry.compressedLen)

/-! ## What the updates leave alone -/

section Updates

variable (k : Kernel) (mm mm' vaddr vaddr' pfn : Nat) (pte : Pte) (page : Page) (n : Int)

/-- Through a present PTE a process reads the frame. -/
theorem pageAt_of_present {k : Kernel} {mm vaddr pfn : Nat} {write young dirty : Bool}
    (h : k.pteAt mm vaddr = some (.present pfn write young dirty)) :
    k.pageAt mm vaddr = some (k.frames.data pfn) := by
  rw [Kernel.pageAt, h]

/-- Setting a PTE changes that PTE, at every address of its page, and no other. -/
theorem pteAt_setPteAt : (k.setPteAt mm vaddr pte).pteAt mm' vaddr' =
    if mm' = mm ∧ vaddrToIndex vaddr' = vaddrToIndex vaddr then some pte
    else k.pteAt mm' vaddr' := by
  unfold Kernel.pteAt Kernel.setPteAt
  by_cases hmm : mm' = mm
  · subst hmm
    by_cases hidx : vaddrToIndex vaddr' = vaddrToIndex vaddr
    · simp [hidx]
    · simp [hidx]
  · simp [hmm]

/-- The PTE that was set is there. -/
@[simp] theorem pteAt_setPteAt_self : (k.setPteAt mm vaddr pte).pteAt mm vaddr = some pte := by
  simp [pteAt_setPteAt]

/-- Setting a PTE leaves the pool alone. -/
@[simp] theorem pool_setPteAt : (k.setPteAt mm vaddr pte).pool = k.pool := rfl
@[simp] theorem map_setPteAt : (k.setPteAt mm vaddr pte).map = k.map := rfl
@[simp] theorem frames_setPteAt : (k.setPteAt mm vaddr pte).frames = k.frames := rfl
@[simp] theorem stats_setPteAt : (k.setPteAt mm vaddr pte).stats = k.stats := rfl

/-- The RSS counter is not part of the page table. -/
@[simp] theorem pteAt_addAnonPages : (k.addAnonPages mm n).pteAt mm' vaddr = k.pteAt mm' vaddr := by
  unfold Kernel.pteAt Kernel.addAnonPages
  by_cases hmm : mm' = mm
  · subst hmm
    simp
  · simp [hmm]

/-- Setting a PTE leaves the VMAs of every address space alone. -/
@[simp] theorem vmas_setPteAt :
    ((k.setPteAt mm vaddr pte).mms mm').vmas = (k.mms mm').vmas := by
  unfold Kernel.setPteAt
  by_cases hmm : mm' = mm
  · subst hmm
    simp
  · simp [hmm]

@[simp] theorem vmas_addAnonPages :
    ((k.addAnonPages mm n).mms mm').vmas = (k.mms mm').vmas := by
  unfold Kernel.addAnonPages
  by_cases hmm : mm' = mm
  · subst hmm
    simp
  · simp [hmm]

/-- Counting anonymous pages leaves the pool alone. -/
@[simp] theorem pool_addAnonPages : (k.addAnonPages mm n).pool = k.pool := rfl
@[simp] theorem map_addAnonPages : (k.addAnonPages mm n).map = k.map := rfl
@[simp] theorem frames_addAnonPages : (k.addAnonPages mm n).frames = k.frames := rfl

/-- Taking a reference on a page leaves the page tables alone. -/
@[simp] theorem pteAt_getPage : (k.getPage pfn).pteAt mm vaddr = k.pteAt mm vaddr := rfl
@[simp] theorem pool_getPage : (k.getPage pfn).pool = k.pool := rfl
@[simp] theorem map_getPage : (k.getPage pfn).map = k.map := rfl
@[simp] theorem data_getPage : (k.getPage pfn).frames.data = k.frames.data := rfl

/-- So does dropping one. -/
@[simp] theorem pteAt_putPage : (k.putPage pfn).pteAt mm vaddr = k.pteAt mm vaddr := rfl
@[simp] theorem pool_putPage : (k.putPage pfn).pool = k.pool := rfl
@[simp] theorem map_putPage : (k.putPage pfn).map = k.map := rfl
@[simp] theorem data_putPage : (k.putPage pfn).frames.data = k.frames.data := rfl

/-- Allocating a page maps it nowhere. -/
@[simp] theorem pteAt_allocPage : (k.allocPage page).pteAt mm vaddr = k.pteAt mm vaddr := rfl
@[simp] theorem pool_allocPage : (k.allocPage page).pool = k.pool := rfl
@[simp] theorem map_allocPage : (k.allocPage page).map = k.map := rfl

/-- It holds what was written to it. -/
@[simp] theorem data_allocPage_self :
    (k.allocPage page).frames.data k.frames.next = page := by
  simp [Kernel.allocPage]

/-- Writing a frame leaves the page tables alone. -/
@[simp] theorem pteAt_writeFrame : (k.writeFrame pfn page).pteAt mm vaddr = k.pteAt mm vaddr := rfl
@[simp] theorem pool_writeFrame : (k.writeFrame pfn page).pool = k.pool := rfl
@[simp] theorem map_writeFrame : (k.writeFrame pfn page).map = k.map := rfl

end Updates

/-! ## Handles -/

section Handles

variable (pool : Pool) (bytes : List UInt8) (handle h : Nat)

/-- Allocating an object adds it under the next handle and leaves the others. -/
theorem objs_malloc : (pool.malloc bytes).objs h = if h = pool.next then some bytes
    else pool.objs h := by
  simp [Pool.malloc, Function.update_apply]

/-- Freeing a handle takes its object and no other. -/
theorem objs_free : (pool.free handle).objs h = if h = handle then none else pool.objs h := by
  simp [Pool.free, Function.update_apply]

/-- A handle is given out once. -/
@[simp] theorem next_malloc : (pool.malloc bytes).next = pool.next + 1 := rfl
/-- A handle that was freed does not come back. -/
@[simp] theorem next_free : (pool.free handle).next = pool.next := rfl

variable {pool}

/-- Allocating keeps the handles to come free. -/
theorem Pool.Wf.malloc (hwf : pool.Wf) : (pool.malloc bytes).Wf := by
  intro h hh
  rw [next_malloc] at hh
  rw [objs_malloc, if_neg (by omega)]
  exact hwf h (by omega)

/-- So does freeing. -/
theorem Pool.Wf.free (hwf : pool.Wf) : (pool.free handle).Wf := by
  intro h hh
  rw [objs_free]
  split
  · rfl
  · exact hwf h hh

/-- A live handle has been given out. -/
theorem Pool.Wf.lt_next (hwf : pool.Wf) (hlive : pool.Live h) : h < pool.next := by
  by_contra hge
  rw [Pool.Live, hwf h (by omega)] at hlive
  cases hlive

/-- At load the pool is empty. -/
theorem wf_loaded (mms : Nat → Mm) (frames : Frames) (maxPoolPages minSavingsPct : Int)
    (symbolsResolved : Bool) :
    (Kernel.loaded mms frames maxPoolPages minSavingsPct symbolsResolved).pool.Wf :=
  fun _ _ => rfl

end Handles

/-! ## Small kernels -/

/-- No address space maps anything, and every frame holds zeros. -/
def Kernel.blank : Kernel :=
  .loaded (fun _ => ⟨fun _ => none, [], 0⟩) ⟨fun _ => Page.fill 0, fun _ => 1, 1⟩ 0 0 true

/-- One compressed page of zeros, at `0x1000` in address space 0. -/
def Kernel.oneMarker : Kernel where
  mms mm := ⟨fun vpn => if mm = 0 ∧ vpn = 1 then some (.marker 1) else none, [], 0⟩
  frames := ⟨fun _ => Page.fill 0, fun _ => 1, 1⟩
  pool := ⟨fun h => if h = 1 then some [0] else none, 2⟩
  map := ⟨(∅ : XArray MapEntry).store 1 ⟨.samePage, 1, 1⟩, 1⟩
  stats := ⟨1, 1, 4095, 0, 0, 0, 0⟩
  maxPoolPages := 0
  minSavingsPct := 0
  symbolsResolved := true

/-- A page of ones at `0x1000` and a page of twos at `0x2000`, both compressed in address
space 0; the marker of the first may be gone. -/
def Kernel.twoEntries (first : Bool) : Kernel where
  mms mm := ⟨fun vpn =>
    if mm = 0 ∧ vpn = 1 ∧ first = true then some (.marker 1)
    else if mm = 0 ∧ vpn = 2 then some (.marker 2)
    else none, [], 0⟩
  frames := ⟨fun _ => Page.fill 0, fun _ => 1, 2⟩
  pool := ⟨fun h => if h = 1 then some [1] else if h = 2 then some [2] else none, 3⟩
  map := ⟨((∅ : XArray MapEntry).store 1 ⟨.samePage, 1, 1⟩).store 2 ⟨.samePage, 1, 2⟩, 2⟩
  stats := ⟨2, 2, 8190, 0, 0, 0, 0⟩
  maxPoolPages := 0
  minSavingsPct := 0
  symbolsResolved := true

end MiniMem
