import MiniMem.Kernel.Accounting
import MiniMem.Kernel.ScanRefs

/-!
# MiniMem.Kernel.EntryPoints

Where replacements come from: the sysfs file `compress_pid`, the debugfs file
`compress_vaddr`, and the sweep of the scanner.  What each of the three does
to the kernel is a run of replacements, so what is proved about runs of
single operations holds of the calls that users and the scanner make.
-/

namespace MiniMem

/-- `-ESRCH`. -/
def esrch : Int := -3
/-- `-EBUSY`. -/
def ebusy : Int := -16

/-! ## compress_vaddr -/

/-- `find_vma`. -/
def findVma (vmas : List Vma) (addr : Nat) : Option Vma :=
  vmas.find? fun vma => decide (addr < vma.stop)

/-- `compress_vaddr_write` behind the parsing of its buffer of `count` bytes; `mm` is the
address space of the caller. -/
def compressVaddrWrite (codec : Codec) (env : ReplaceEnv) (mm : Option Nat) (count : Nat)
    (k : Kernel) (addr : Nat) : Int × Kernel :=
  let vaddr := pageMask addr
  match mm with
  | none => (einval, k)
  | some mm =>
      match findVma (k.mms mm).vmas vaddr with
      | none => (enoent, k)
      | some vma =>
          if vaddr < vma.start then (enoent, k)
          else
            match compressAndReplacePte codec env k mm vaddr with
            | (ret, k) => (if ret < 0 ∧ ret ≠ eopnotsupp then ret else count, k)

/-! ## compress_pid -/

/-- What `compress_pid_store` finds: the process, its address space, whether
`mmap_read_trylock` succeeds, and the outcomes of the replacement at each address. -/
structure PidEnv where
  task : Bool
  mm : Option Nat
  trylock : Bool
  replace : Nat → ReplaceEnv

/-- The kernel and the counters of `compress_pid_store`. -/
structure PidState where
  kernel : Kernel
  compressed : Nat
  skipped : Nat

/-- One address. -/
def compressPidPage (codec : Codec) (replace : Nat → ReplaceEnv) (mm : Nat) (s : PidState)
    (vaddr : Nat) : PidState :=
  match compressAndReplacePte codec (replace vaddr) s.kernel mm vaddr with
  | (ret, k) =>
      if ret = 0 then ⟨k, s.compressed + 1, s.skipped⟩ else ⟨k, s.compressed, s.skipped + 1⟩

/-- One VMA, of which `compress_pid_store` asks what the scanner asks. -/
def compressPidVma (codec : Codec) (replace : Nat → ReplaceEnv) (mm : Nat) (s : PidState)
    (vma : Vma) : PidState :=
  if vma.scanned = false then s
  else (pagesFrom vma.start vma.stop).foldl (compressPidPage codec replace mm) s

/-- `compress_pid_store` behind the parsing of its buffer of `count` bytes. -/
def compressPidStore (codec : Codec) (env : PidEnv) (count : Nat) (s : Scanner) :
    Int × Scanner :=
  if env.task = false then (esrch, s)
  else
    match env.mm with
    | none => (esrch, s)
    | some mm =>
        let s := { s with users := mmGet s.users mm }
        if env.trylock = false then (ebusy, { s with users := mmPut s.users mm })
        else
          let st := (s.kernel.mms mm).vmas.foldl (compressPidVma codec env.replace mm)
            ⟨s.kernel, 0, 0⟩
          let s := { s with
            kernel := st.kernel
            deferred := if 0 < st.compressed then s.deferred ++ [mm] else s.deferred }
          (count, { s with users := mmPut s.users mm })

/-- `compress_pid` gives back the reference that it takes, on every path. -/
theorem users_compressPidStore (codec : Codec) (env : PidEnv) (count : Nat) (s : Scanner) :
    (compressPidStore codec env count s).2.users = s.users := by
  unfold compressPidStore
  split
  · rfl
  split
  · rfl
  next mm _ =>
    dsimp only
    split
    · exact mmPut_mmGet s.users mm
    · exact mmPut_mmGet s.users mm

/-! ## What replacements keep, all three keep -/

section Closed

variable {codec : Codec} {P : Kernel → Prop}
  (hP : ∀ (env : ReplaceEnv) (k : Kernel) (mm addr : Nat), P k →
    P (compressAndReplacePte codec env k mm addr).2)
include hP

theorem closed_compressVaddrWrite (env : ReplaceEnv) (mm : Option Nat) (count : Nat) {k : Kernel}
    (addr : Nat) (h : P k) : P (compressVaddrWrite codec env mm count k addr).2 := by
  unfold compressVaddrWrite
  dsimp only
  split
  · exact h
  split
  · exact h
  split
  · exact h
  · exact hP _ _ _ _ h

theorem closed_compressPidVma (replace : Nat → ReplaceEnv) (mm : Nat) {s : PidState} (vma : Vma)
    (h : P s.kernel) : P (compressPidVma codec replace mm s vma).kernel := by
  have hpages : ∀ (vaddrs : List Nat) (s : PidState), P s.kernel →
      P (vaddrs.foldl (compressPidPage codec replace mm) s).kernel := by
    intro vaddrs
    induction vaddrs with
    | nil => exact fun _ h => h
    | cons vaddr vaddrs ih =>
        intro s h
        refine ih _ ?_
        have hpage := hP (replace vaddr) s.kernel mm vaddr h
        unfold compressPidPage
        dsimp only
        split <;> exact hpage
  unfold compressPidVma
  split
  · exact h
  · exact hpages _ _ h

theorem closed_compressPidStore (env : PidEnv) (count : Nat) {s : Scanner} (h : P s.kernel) :
    P (compressPidStore codec env count s).2.kernel := by
  have hvmas : ∀ (mm : Nat) (vmas : List Vma) (s : PidState), P s.kernel →
      P (vmas.foldl (compressPidVma codec env.replace mm) s).kernel := by
    intro mm vmas
    induction vmas with
    | nil => exact fun _ h => h
    | cons vma vmas ih => exact fun s h => ih _ (closed_compressPidVma hP env.replace mm vma h)
  unfold compressPidStore
  split
  · exact h
  split
  · exact h
  dsimp only
  split
  · exact h
  · exact hvmas _ _ _ h

/-- A property of the kernel alone is one that a pass over an address space keeps. -/
theorem passClosed_kernel : PassClosed codec fun s => P s.kernel where
  same := by
    intro s s' h hkernel _
    rwa [hkernel]
  replace s env mm addr h := hP env s.kernel mm addr h

theorem closed_scanBatchVma (env : ScanEnv) (tasks : List ScanTask) {s : Scanner}
    (h : P s.kernel) : P (scanBatchVma codec env tasks s).scan.kernel :=
  (passClosed_kernel hP).scanClosed.scanBatchVma (fun _ _ h => h) env tasks h

end Closed

/-! ## All three are runs of replacements -/

/-- The operation is a replacement. -/
def PoolOp.isReplace : PoolOp → Bool
  | .replace _ _ _ => true
  | _ => false

/-- Replacements one after another. -/
def Replacements (codec : Codec) (k k' : Kernel) : Prop :=
  ∃ ops, Run (poolStep codec) (fun _ op => op.isReplace = true) k ops k'

theorem replacements_replace (codec : Codec) (k : Kernel) (env : ReplaceEnv) (k' : Kernel)
    (mm addr : Nat) (h : Replacements codec k k') :
    Replacements codec k (compressAndReplacePte codec env k' mm addr).2 := by
  obtain ⟨ops, hrun⟩ := h
  have hlast : Run (poolStep codec) (fun _ op => op.isReplace = true) k'
      [.replace env mm addr] (compressAndReplacePte codec env k' mm addr).2 :=
    .cons rfl rfl (.nil _)
  exact ⟨ops ++ [.replace env mm addr], hrun.append hlast⟩

/-- Replacements keep the pool in order. -/
theorem Replacements.poolOk {codec : Codec} {k k' : Kernel} (h : Replacements codec k k')
    (hok : PoolOk k) : PoolOk k' := by
  obtain ⟨ops, hrun⟩ := h
  refine hrun.invariant (fun k op k' hok _ hstep => ?_) hok
  cases hstep
  exact poolOk_exec codec hok op

/-- Users and the scanner compress pages of processes by nothing but replacements. -/
theorem entryPoints_replacements (codec : Codec) (k : Kernel) :
    (∀ env mm count addr, Replacements codec k (compressVaddrWrite codec env mm count k addr).2) ∧
    (∀ env count s, s.kernel = k →
      Replacements codec k (compressPidStore codec env count s).2.kernel) ∧
    (∀ env tasks s, s.kernel = k →
      Replacements codec k (scanBatchVma codec env tasks s).scan.kernel) := by
  have hstart : Replacements codec k k := ⟨[], .nil k⟩
  have hclosed := replacements_replace codec k
  refine ⟨fun env mm count addr => ?_, fun env count s hs => ?_, fun env tasks s hs => ?_⟩
  · exact closed_compressVaddrWrite hclosed env mm count addr hstart
  · exact closed_compressPidStore hclosed env count (by rwa [hs])
  · exact closed_scanBatchVma hclosed env tasks (by rwa [hs])

end MiniMem
