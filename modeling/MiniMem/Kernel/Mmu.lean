import MiniMem.Kernel.Zswap

/-!
# MiniMem.Kernel.Mmu

Process exit: `minimem_zap_range` walks the page tables of a range, clears
every marker and afterwards removes the collected addresses from the map.
The collecting array starts with room for 256 addresses and doubles.
-/

namespace MiniMem

/-- The array of collected addresses: what it holds, its capacity, and how often
`krealloc` has been called. -/
structure ZapBuf where
  vaddrs : List Nat
  cap : Nat
  reallocs : Nat
  deriving DecidableEq, Repr

/-- Outcomes of the fallible steps of `minimem_zap_range`: the initial allocation, each
`krealloc`, and each `minimem_pte_offset_map_lock`. -/
structure ZapEnv where
  kmalloc : Bool
  krealloc : Nat → Bool
  lock : Nat → Bool

/-- No step fails. -/
def ZapEnv.ok : ZapEnv := ⟨true, fun _ => true, fun _ => true⟩

/-- The state of the walk; `full` is set by the `goto remove`. -/
structure ZapState where
  kernel : Kernel
  buf : ZapBuf
  full : Bool

/-- The body of the inner loop of `minimem_zap_range`. -/
def zapPage (env : ZapEnv) (mm : Nat) (s : ZapState) (addr : Nat) : ZapState :=
  if s.full then s
  else
    match (if env.lock addr then s.kernel.pteAt mm addr else none) with
    | none => s
    | some pte =>
        if pte.isMinimem = false then s
        else
          let s := { s with kernel := s.kernel.setPteAt mm addr .empty }
          if s.buf.vaddrs.length ≥ s.buf.cap then
            let buf := { s.buf with cap := s.buf.cap * 2, reallocs := s.buf.reallocs + 1 }
            if env.krealloc s.buf.reallocs then
              { s with buf := { buf with vaddrs := buf.vaddrs ++ [pageMask addr] } }
            else { s with buf := buf, full := true }
          else { s with buf := { s.buf with vaddrs := s.buf.vaddrs ++ [pageMask addr] } }

/-- The walk over the VMAs of the range, up to the first that starts behind it. -/
def zapVmas (env : ZapEnv) (mm start stop : Nat) : List Vma → ZapState → ZapState
  | [], s => s
  | vma :: vmas, s =>
      if vma.start ≥ stop then s
      else if vma.shared || vma.io || vma.pfnmap then zapVmas env mm start stop vmas s
      else
        zapVmas env mm start stop vmas
          ((pagesFrom (max vma.start start) (min vma.stop stop)).foldl (zapPage env mm) s)

/-- The loop behind `remove:`. -/
def zapRemove : List Nat → Nat × Kernel → Nat × Kernel
  | [], acc => acc
  | vaddr :: vaddrs, (freed, k) =>
      match zswapRemove k vaddr with
      | (ret, k) => zapRemove vaddrs (if ret = 0 then freed + 1 else freed, k)

/-- `minimem_zap_range`; the iterator starts at the first VMA that ends behind `start`. -/
def zapRange (env : ZapEnv) (k : Kernel) (mm start stop : Nat) : Nat × Kernel :=
  if env.kmalloc = false then (0, k)
  else
    let vmas := (k.mms mm).vmas.filter fun vma => decide (start < vma.stop)
    let s := zapVmas env mm start stop vmas ⟨k, ⟨[], 256, 0⟩, false⟩
    zapRemove s.buf.vaddrs (0, s.kernel)

/-- `ULONG_MAX`. -/
def ulongMax : Nat := 2 ^ 64 - 1

/-- What `minimem_mmu_release` does at process exit. -/
def mmuRelease (env : ZapEnv) (k : Kernel) (mm : Nat) : Nat × Kernel :=
  zapRange env k mm 0 ulongMax

/-- What the walk keeps at every page, it keeps. -/
theorem zapVmas_keeps {P : ZapState → Prop} {env : ZapEnv} {mm : Nat}
    (hP : ∀ s addr, P s → P (zapPage env mm s addr)) (start stop : Nat) (vmas : List Vma)
    {s : ZapState} (h : P s) : P (zapVmas env mm start stop vmas s) := by
  have hpages : ∀ (addrs : List Nat) (s : ZapState), P s → P (addrs.foldl (zapPage env mm) s) := by
    intro addrs
    induction addrs with
    | nil => exact fun s h => h
    | cons addr addrs ih => exact fun s h => ih _ (hP s addr h)
  induction vmas generalizing s with
  | nil => exact h
  | cons vma vmas ih =>
      unfold zapVmas
      split
      · exact h
      split
      · exact ih h
      · exact ih (hpages _ _ h)

end MiniMem
