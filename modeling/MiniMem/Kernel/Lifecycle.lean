import MiniMem.Kernel.State
import MiniMem.Stages

/-!
# MiniMem.Kernel.Lifecycle

Loading and unloading of the module.  `minimem_init` brings up one part of
the module after the other,

```
compress  zswap  parallel  fault  shrinker  mmu  scanner  hook  kobject  sysfs  debugfs
```

and where a part fails it takes down those before it, each error path with
its own list of exits.  `minimem_exit` takes them down in an order of its own.
The model keeps the pointers of the module apart from what the kernel has
given out to it, so that both a part that nobody takes down and one that is
taken down twice can be seen.
-/

namespace MiniMem

/-! ## What the kernel gives out -/

/-- What the module gets from the kernel; `hook` stands for the time between `minimem_hook_init`
and `minimem_hook_exit`. -/
inductive Resource where
  | compressBuf (cpu : Nat)
  | decompressBuf (cpu : Nat)
  | pool
  | entryCache
  | parallelWq
  | shrinker
  | mmuWq
  | scanner
  | hook
  | faultHandler
  | zapCallback
  | kretprobe
  | kobject
  | sysfsGroup
  | procFile (i : Nat)
  | debugfsDir
  | procEntry (pid : Nat)
  deriving DecidableEq, Repr

/-- A pointer variable: null, an error pointer, or a pointer. -/
inductive PtrVal where
  | null
  | err
  | ptr
  deriving DecidableEq, Repr

/-- The variables of the module, what it holds, and whether it has ever taken something that it
held or given back something that it did not hold. -/
structure Module where
  ptr : Resource → PtrVal
  kernelPatchesDetected : Bool
  hookRegistered : Bool
  held : Resource → Bool
  misused : Bool

/-- The module before `minimem_init`. -/
def Module.fresh : Module := ⟨fun _ => .null, false, false, fun _ => false, false⟩

def Module.take (s : Module) (r : Resource) : Module :=
  { s with held := Function.update s.held r true, misused := s.misused || s.held r }

def Module.give (s : Module) (r : Resource) : Module :=
  { s with held := Function.update s.held r false, misused := s.misused || !s.held r }

/-- The removal of something that need not be there. -/
def Module.drop (s : Module) (r : Resource) : Module :=
  { s with held := Function.update s.held r false }

def Module.setPtr (s : Module) (r : Resource) (v : PtrVal) : Module :=
  { s with ptr := Function.update s.ptr r v }

/-- An allocation, with its outcome, whose result goes to a variable. -/
def Module.alloc (s : Module) (r : Resource) (ok : Bool) : Module :=
  if ok = true then (s.take r).setPtr r .ptr else s.setPtr r .null

/-- What a variable points to is freed, and the variable is null. -/
def Module.dealloc (s : Module) (r : Resource) : Module :=
  if s.ptr r = .ptr then (s.give r).setPtr r .null else s.setPtr r .null

/-! ## The parts -/

/-- The outcomes of all calls that can fail.  The cache is made with `SLAB_PANIC`: where
`entryCache` is false the kernel would have to return from that. -/
structure LoadEnv where
  compat : Int
  compressBuf : Nat → Bool
  decompressBuf : Nat → Bool
  pool : Bool
  entryCache : Bool
  parallelWq : Bool
  shrinker : Bool
  mmuWq : Bool
  kthread : Int
  symbols : Int
  patches : Bool
  registerFaultHandler : Int
  zapCbSymbol : Bool
  registerKretprobe : Int
  kobject : Bool
  sysfsGroup : Int
  procFile : Nat → Bool
  debugfsDir : Bool

/-- The part whose `init` makes one allocation. -/
def allocInit (r : Resource) (ok : Bool) (s : Module) : Int × Module :=
  (if ok = true then 0 else enomem, s.alloc r ok)

/-- The loop of `minimem_compress_init` from `cpu` on, with `n` of them to go. -/
def compressInitLoop (env : LoadEnv) : Nat → Nat → Module → Bool × Module
  | 0, _, s => (true, s)
  | n + 1, cpu, s =>
      let s := s.alloc (.compressBuf cpu) (env.compressBuf cpu)
      if env.compressBuf cpu = false then (false, s)
      else
        let s := s.alloc (.decompressBuf cpu) (env.decompressBuf cpu)
        if env.decompressBuf cpu = false then (false, s.dealloc (.compressBuf cpu))
        else compressInitLoop env n (cpu + 1) s

/-- The loop of `minimem_compress_exit`. -/
def freeCpuBufs : Nat → Nat → Module → Module
  | 0, _, s => s
  | n + 1, cpu, s =>
      freeCpuBufs n (cpu + 1) ((s.dealloc (.compressBuf cpu)).dealloc (.decompressBuf cpu))

/-- `minimem_compress_init`, for `n` CPUs. -/
def minimemCompressInit (env : LoadEnv) (n : Nat) (s : Module) : Int × Module :=
  match compressInitLoop env n 0 s with
  | (true, s) => (0, s)
  | (false, s) => (enomem, freeCpuBufs n 0 s)

/-- `minimem_compress_exit`. -/
def minimemCompressExit (n : Nat) (s : Module) : Module := freeCpuBufs n 0 s

/-- `minimem_zswap_init`, with `minimem_map_init`. -/
def minimemZswapInit (env : LoadEnv) (s : Module) : Int × Module :=
  let s := s.alloc .pool env.pool
  if env.pool = false then (enomem, s) else allocInit .entryCache env.entryCache s

/-- `minimem_zswap_exit`, with `minimem_map_destroy`. -/
def minimemZswapExit (s : Module) : Module := (s.dealloc .entryCache).dealloc .pool

/-- `minimem_parallel_exit`. -/
def minimemParallelExit (s : Module) : Module := s.dealloc .parallelWq

/-- `minimem_fault_init`. -/
def minimemFaultInit (s : Module) : Int × Module := (0, s)

/-- `minimem_fault_exit`. -/
def minimemFaultExit (s : Module) : Module := s

/-- `minimem_shrinker_exit`. -/
def minimemShrinkerExit (s : Module) : Module := s.dealloc .shrinker

/-- `minimem_mmu_exit`. -/
def minimemMmuExit (s : Module) : Module := s.dealloc .mmuWq

/-- `minimem_scanner_init`. -/
def minimemScannerInit (env : LoadEnv) (s : Module) : Int × Module :=
  if env.kthread ≠ 0 then (env.kthread, s.setPtr .scanner .err)
  else (0, (s.take .scanner).setPtr .scanner .ptr)

/-- `minimem_scanner_exit`. -/
def minimemScannerExit (s : Module) : Module :=
  match s.ptr .scanner with
  | .null => s
  | .err => s.setPtr .scanner .null
  | .ptr => (s.setPtr .scanner .null).give .scanner

/-- `minimem_hook_init` behind the registration of the fault handler. -/
def registerKretprobe (env : LoadEnv) (s : Module) : Int × Module :=
  if s.kernelPatchesDetected = true then (0, s)
  else if env.registerKretprobe ≠ 0 then (env.registerKretprobe, s)
  else (0, { s.take .kretprobe with hookRegistered := true })

/-- `minimem_hook_init`. -/
def minimemHookInit (env : LoadEnv) (s : Module) : Int × Module :=
  let s := { s.take .hook with kernelPatchesDetected := false }
  if env.symbols ≠ 0 then (env.symbols, s)
  else if env.patches = false then registerKretprobe env s
  else if env.registerFaultHandler ≠ 0 then registerKretprobe env s
  else
    let s := { s.take .faultHandler with kernelPatchesDetected := true }
    registerKretprobe env (if env.zapCbSymbol = true then s.take .zapCallback else s)

/-- `minimem_hook_exit`. -/
def minimemHookExit (env : LoadEnv) (s : Module) : Module :=
  let s := s.give .hook
  let s :=
    if s.kernelPatchesDetected = true then
      let s := s.give .faultHandler
      if env.zapCbSymbol = true then s.give .zapCallback else s
    else s
  if s.hookRegistered = true then { s.give .kretprobe with hookRegistered := false } else s

/-- `kobject_create_and_add` in `minimem_init`. -/
def kobjectInit (env : LoadEnv) (s : Module) : Int × Module :=
  if env.kobject = true then (0, s.take .kobject) else (enomem, s)

/-- `sysfs_create_group` in `minimem_init`. -/
def sysfsInit (env : LoadEnv) (s : Module) : Int × Module :=
  if env.sysfsGroup ≠ 0 then (env.sysfsGroup, s) else (0, s.take .sysfsGroup)

/-- The attributes of `minimem_proc_stats_get_sysfs_attrs`. -/
def procFiles : List Nat := [0, 1, 2]

/-- The creation of the files of the statistics, whose failures are only reported. -/
def procFilesInit (env : LoadEnv) (s : Module) : Int × Module :=
  (0, procFiles.foldl (fun s i => if env.procFile i = true then s.take (.procFile i) else s) s)

/-- Their removal. -/
def procFilesExit (s : Module) : Module := procFiles.foldl (fun s i => s.drop (.procFile i)) s

/-- The creation of the debugfs directory, whose failure is ignored. -/
def debugfsInit (env : LoadEnv) (s : Module) : Int × Module :=
  (0, if env.debugfsDir = true then s.take .debugfsDir else s)

/-- `minimem_exit`. -/
def minimemExit (env : LoadEnv) (n : Nat) (s : Module) : Module :=
  let s := (procFilesExit s).drop .debugfsDir
  let s := minimemScannerExit ((s.give .sysfsGroup).give .kobject)
  let s := minimemShrinkerExit (minimemMmuExit (minimemHookExit env s))
  minimemCompressExit n (minimemZswapExit (minimemParallelExit (minimemFaultExit s)))

end MiniMem
