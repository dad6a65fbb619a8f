import MiniMem.Kernel.Hook

/-!
# MiniMem.Kernel.Scanner

The idle-page scanner.  `minimem_mark_vma` sets the idle flag of the pages of
a VMA and clears their young flags, `minimem_sweep_vma` compresses the pages
whose flags are still as they were left, and `minimem_scan_batch_vma` makes
one of the two passes over all processes, in cycles that end when a budget is
used up and go on from a cursor.

What is not the scanner's doing is asked of `ScanEnv`, at a tick that goes up
with every question.
-/

namespace MiniMem

/-! ## What the scanner sees -/

/-- The flags of a page that the scanner reads and never writes. -/
structure PageBits where
  compound : Bool
  anon : Bool
  lru : Bool
  mlocked : Bool
  deriving DecidableEq, Repr

/-- The outcomes of `kthread_should_stop`, `ktime_get` (in nanoseconds), the locks on page
tables and the steps of a replacement, each at its tick; the flags of the frames; the
limits set in sysfs, and whether markers are handled. -/
structure ScanEnv where
  stop : Nat → Bool
  clock : Nat → Int
  lock : Nat → Bool
  replace : Nat → ReplaceEnv
  bits : Nat → PageBits
  cpuBudgetMs : Int
  markBudgetPages : Nat
  markerReady : Bool

/-- `ktime_ms_delta`. -/
def ktimeMsDelta (later earlier : Int) : Int := (later - earlier).tdiv 1000000

/-- `cpu_budget_expired`. -/
def cpuBudgetExpired (env : ScanEnv) (startTime : Int) (tick : Nat) : Bool :=
  decide (env.cpuBudgetMs ≤ ktimeMsDelta (env.clock tick) startTime)

/-- A process as `for_each_process` meets it: its pid, the address space that `get_task_mm`
finds, and whether `mmget_not_zero` and `mmap_read_trylock` succeed. -/
structure ScanTask where
  pid : Nat
  mm : Option Nat
  mmget : Bool
  trylock : Bool
  deriving DecidableEq, Repr

/-- Where a pass goes on. -/
structure Cursor where
  pid : Nat
  addr : Nat
  valid : Bool
  deriving DecidableEq, Repr

/-- The counters of the scanner. -/
structure ScanStats where
  pagesScanned : Nat
  pagesIdle : Nat
  pagesCompressed : Nat
  pagesSkipped : Nat
  markPages : Nat
  skipVmaLocked : Nat
  skipPageShared : Nat
  skipPageMlocked : Nat
  skipIncompressible : Nat
  markYielded : Nat
  sweepYielded : Nat
  deriving DecidableEq, Repr

/-- The kernel with what the scanner keeps: `PG_idle` and `PG_young` of every frame, the
skip list, the phase and a cursor for each phase, the counters, `mm_users` of every address
space, and the address spaces handed to `minimem_mmu_register_deferred` (whose own
reference `users` leaves out). -/
structure Scanner where
  kernel : Kernel
  idle : Nat → Bool
  young : Nat → Bool
  skipList : Nat → Bool
  sweeping : Bool
  markCursor : Cursor
  sweepCursor : Cursor
  stats : ScanStats
  users : Nat → Int
  deferred : List Nat
  tick : Nat

/-- One more question is asked. -/
def Scanner.ticked (s : Scanner) : Scanner := { s with tick := s.tick + 1 }

def Scanner.count (s : Scanner) (f : ScanStats → ScanStats) : Scanner :=
  { s with stats := f s.stats }

/-- `folio_set_idle`. -/
def Scanner.setIdle (s : Scanner) (pfn : Nat) : Scanner :=
  { s with idle := Function.update s.idle pfn true }

/-- `folio_clear_idle`. -/
def Scanner.clearIdle (s : Scanner) (pfn : Nat) : Scanner :=
  { s with idle := Function.update s.idle pfn false }

/-- `folio_test_clear_young`, whose result is what the flag was. -/
def Scanner.clearYoung (s : Scanner) (pfn : Nat) : Scanner :=
  { s with young := Function.update s.young pfn false }

/-- `MINIMEM_SKIP_LIST_SIZE`. -/
def skipListSize : Nat := 2 ^ 14

/-- `skip_list_add`. -/
def Scanner.skipListAdd (s : Scanner) (vaddr : Nat) : Scanner :=
  { s with skipList := Function.update s.skipList (vaddrToIndex vaddr % skipListSize) true }

/-- `skip_list_check`. -/
def Scanner.skipListCheck (s : Scanner) (vaddr : Nat) : Bool :=
  s.skipList (vaddrToIndex vaddr % skipListSize)

/-- The cursor of a phase. -/
def Scanner.cursor (s : Scanner) (sweep : Bool) : Cursor :=
  if sweep then s.sweepCursor else s.markCursor

def Scanner.setCursor (s : Scanner) (sweep : Bool) (cursor : Cursor) : Scanner :=
  if sweep then { s with sweepCursor := cursor } else { s with markCursor := cursor }

/-- `get_task_mm`, and `mmget_not_zero`, where they succeed. -/
def mmGet (users : Nat → Int) (mm : Nat) : Nat → Int := Function.update users mm (users mm + 1)

/-- `mmput`. -/
def mmPut (users : Nat → Int) (mm : Nat) : Nat → Int := Function.update users mm (users mm - 1)

/-! ## One VMA -/

/-- The address at which a walk from `start` in steps of a page leaves a VMA. -/
def pagesEnd (start stop : Nat) : Nat := start + (pagesFrom start stop).length * pageSize

/-- What both passes ask first of an address: the frame of a mapped anonymous page that is
on the LRU lists and not part of a compound page. -/
def Scanner.scanPage (s : Scanner) (env : ScanEnv) (mm addr : Nat) : Option Nat :=
  match (if env.lock s.tick then s.kernel.pteAt mm addr else none) with
  | some (.present pfn _ _ _) =>
      if (env.bits pfn).compound then none
      else if (env.bits pfn).anon = false then none
      else if (env.bits pfn).lru = false then none
      else some pfn
  | _ => none

/-- A page is taken up exactly when its PTE can be locked and maps an anonymous page on the LRU that
is not part of a compound page. -/
theorem scanPage_eq_some {env : ScanEnv} {s : Scanner} {mm addr pfn : Nat} :
    s.scanPage env mm addr = some pfn ↔ env.lock s.tick = true ∧
      (∃ write young dirty, s.kernel.pteAt mm addr = some (.present pfn write young dirty)) ∧
      (env.bits pfn).compound = false ∧ (env.bits pfn).anon = true ∧ (env.bits pfn).lru = true := by
  unfold Scanner.scanPage
  by_cases hlock : env.lock s.tick = true
  · rw [if_pos hlock]
    cases hpte : s.kernel.pteAt mm addr with
    | none => simp
    | some pte =>
        cases pte with
        | present pfn' write young dirty =>
            dsimp only
            constructor
            · intro h
              split at h
              · cases h
              split at h
              · cases h
              split at h
              · cases h
              next hcompound hanon hlru =>
                injection h with h
                subst h
                exact ⟨hlock, ⟨write, young, dirty, rfl⟩, by simpa using hcompound,
                  by simpa using hanon, by simpa using hlru⟩
            · rintro ⟨-, ⟨write', young', dirty', heq⟩, hcompound, hanon, hlru⟩
              cases heq
              simp [hcompound, hanon, hlru]
        | _ => simp
  · simp [hlock]

/-- The variables of `minimem_mark_vma`; `marked` are the addresses that `nr_marked`
counts. -/
structure MarkState where
  scan : Scanner
  remaining : Nat
  examined : Nat
  marked : List Nat

/-- The body of the loop of `minimem_mark_vma` behind its breaks. -/
def markPage (env : ScanEnv) (mm : Nat) (s : MarkState) (addr : Nat) : MarkState :=
  match s.scan.scanPage env mm addr with
  | none => { s with scan := s.scan.ticked }
  | some pfn =>
      if (env.bits pfn).mlocked then
        { s with scan := (s.scan.count fun st =>
            { st with skipPageMlocked := st.skipPageMlocked + 1 }).ticked }
      else if s.scan.kernel.frames.refs pfn > 2 then
        { s with scan := (s.scan.count fun st =>
            { st with skipPageShared := st.skipPageShared + 1 }).ticked }
      else
        { scan := ((s.scan.setIdle pfn).clearYoung pfn).ticked
          remaining := s.remaining - 1
          examined := s.examined + 1
          marked := s.marked ++ [addr] }

/-- The loop of `minimem_mark_vma` over the addresses that are left; `stop` is where it
ends if it does not break. -/
def markPages (env : ScanEnv) (startTime : Int) (mm stop : Nat) :
    List Nat → MarkState → Nat × MarkState
  | [], s => (stop, s)
  | addr :: addrs, s =>
      if env.stop s.scan.tick then (addr, s)
      else if s.remaining = 0 then (addr, s)
      else if s.examined % 256 = 0 && decide (0 < s.examined) &&
          cpuBudgetExpired env startTime s.scan.tick then (addr, { s with scan := s.scan.ticked })
      else markPages env startTime mm stop addrs (markPage env mm s addr)

/-- `minimem_mark_vma`, with `*end_addr_out`. -/
def markVma (env : ScanEnv) (startTime : Int) (s : Scanner) (mm : Nat) (vma : Vma)
    (startAddr remaining : Nat) : Nat × MarkState :=
  let addr := max startAddr vma.start
  markPages env startTime mm (pagesEnd addr vma.stop) (pagesFrom addr vma.stop)
    ⟨s, remaining, 0, []⟩

/-- The variables of `minimem_sweep_vma`. -/
structure SweepState where
  scan : Scanner
  batch : Nat
  sinceYield : Nat
  scanned : Nat
  compressed : Nat
  skipped : Nat

/-- The frame that the sweep would hand to `minimem_compress_and_replace_pte`: no check
but that of the skip list is left. -/
def Scanner.coldPage (s : Scanner) (env : ScanEnv) (mm addr : Nat) : Option Nat :=
  match s.scanPage env mm addr with
  | none => none
  | some pfn =>
      if s.kernel.frames.refs pfn > 2 then none
      else if (env.bits pfn).mlocked then none
      else if s.idle pfn = false then none
      else if s.young pfn then none
      else some pfn

/-- The body of the loop of `minimem_sweep_vma` behind its breaks. -/
def sweepPage (codec : Codec) (env : ScanEnv) (mm : Nat) (s : SweepState) (addr : Nat) :
    SweepState :=
  match s.scan.scanPage env mm addr with
  | none => { s with scan := s.scan.ticked }
  | some pfn =>
      if s.scan.kernel.frames.refs pfn > 2 then
        { s with scan := (s.scan.count fun st =>
            { st with skipPageShared := st.skipPageShared + 1 }).ticked }
      else if (env.bits pfn).mlocked then
        { s with scan := (s.scan.count fun st =>
            { st with skipPageMlocked := st.skipPageMlocked + 1 }).ticked }
      else if s.scan.idle pfn = false then { s with scan := s.scan.ticked }
      else if s.scan.young pfn then
        { s with scan := ((s.scan.clearYoung pfn).clearIdle pfn).ticked }
      else if s.scan.skipListCheck addr then
        { s with
          scan := (s.scan.count fun st =>
            { st with skipIncompressible := st.skipIncompressible + 1 }).ticked
          batch := s.batch - 1
          skipped := s.skipped + 1 }
      else
        match compressAndReplacePte codec (env.replace s.scan.tick) s.scan.kernel mm addr with
        | (ret, k) =>
            let scan := ({ s.scan with kernel := k } : Scanner).ticked
            { scan := if ret = 0 then scan else scan.skipListAdd addr
              batch := s.batch - 1
              sinceYield := s.sinceYield + 1
              scanned := s.scanned + 1
              compressed := if ret = 0 then s.compressed + 1 else s.compressed
              skipped := if ret = 0 then s.skipped else s.skipped + 1 }

/-- The loop of `minimem_sweep_vma` over the addresses that are left. -/
def sweepPages (codec : Codec) (env : ScanEnv) (startTime : Int) (mm stop : Nat) :
    List Nat → SweepState → Nat × SweepState
  | [], s => (stop, s)
  | addr :: addrs, s =>
      if env.stop s.scan.tick then (addr, s)
      else if s.batch = 0 then (addr, s)
      else if decide (0 < s.sinceYield) && s.sinceYield % 64 = 0 &&
          cpuBudgetExpired env startTime s.scan.tick then (addr, { s with scan := s.scan.ticked })
      else sweepPages codec env startTime mm stop addrs (sweepPage codec env mm s addr)

/-- `minimem_sweep_vma`, with `*end_addr_out`. -/
def sweepVma (codec : Codec) (env : ScanEnv) (startTime : Int) (s : Scanner) (mm : Nat)
    (vma : Vma) (startAddr batch : Nat) : Nat × SweepState :=
  let addr := max startAddr vma.start
  match sweepPages codec env startTime mm (pagesEnd addr vma.stop) (pagesFrom addr vma.stop)
      ⟨s, batch, 0, 0, 0, 0⟩ with
  | (endAddr, s) =>
      (endAddr, { s with scan := s.scan.count fun st =>
        { st with
          pagesScanned := st.pagesScanned + s.scanned
          pagesIdle := st.pagesIdle + s.scanned
          pagesCompressed := st.pagesCompressed + s.compressed
          pagesSkipped := st.pagesSkipped + s.skipped } })

/-! ## One cycle -/

/-- Whether the scanner enters a VMA: it asks first what the walk at unload asks. -/
def Vma.scanned (vma : Vma) : Bool := vma.drained && !vma.locked && !vma.shared

/-- `MINIMEM_MAX_BATCH_PAGES`. -/
def maxBatchPages : Nat := 8192

/-- The variables of `minimem_scan_batch_vma`; `marked` are the pages that `total_marked`
counts, by pid and address. -/
structure Batch where
  scan : Scanner
  remaining : Nat
  sweepBatch : Nat
  exhausted : Bool
  marked : List (Nat × Nat)
  total : Nat

/-- A batch whose scanner is changed. -/
def Batch.update (b : Batch) (f : Scanner → Scanner) : Batch := { b with scan := f b.scan }

/-- The call of `minimem_sweep_vma` or of `minimem_mark_vma`, and what comes back. -/
def scanVma (codec : Codec) (env : ScanEnv) (startTime : Int) (sweep : Bool) (pid mm : Nat)
    (vma : Vma) (start : Nat) (b : Batch) : Nat × Batch :=
  if sweep then
    match sweepVma codec env startTime b.scan mm vma start b.sweepBatch with
    | (endAddr, s) =>
        (endAddr, { b with scan := s.scan, sweepBatch := s.batch, total := b.total + s.scanned })
  else
    match markVma env startTime b.scan mm vma start b.remaining with
    | (endAddr, s) =>
        (endAddr, { b with
          scan := s.scan
          remaining := s.remaining
          marked := b.marked ++ s.marked.map fun addr => (pid, addr) })

/-- The page budget of a phase is used up. -/
def Batch.usedUp (b : Batch) (sweep : Bool) : Bool :=
  if sweep then b.sweepBatch = 0 else b.remaining = 0

/-- Whether a pass skips a process. -/
def Cursor.skips (cursor : Cursor) (pid : Nat) : Bool :=
  cursor.valid && decide (pid < cursor.pid)

/-- The address at which a pass starts in a process. -/
def Cursor.startAddr (cursor : Cursor) (pid : Nat) : Nat :=
  if cursor.valid && decide (pid = cursor.pid) then cursor.addr else 0

/-- The address at which the pass enters a VMA. -/
def Cursor.enter (cursor : Cursor) (pid : Nat) (vma : Vma) : Nat :=
  if cursor.valid && decide (pid = cursor.pid) && decide (vma.start ≤ cursor.addr) &&
    decide (cursor.addr < vma.stop) then cursor.addr else vma.start

/-- Behind a VMA of the process in which the cursor is, its address has done its duty. -/
def Batch.behindVma (b : Batch) (sweep : Bool) (pid : Nat) (cursor : Cursor) : Batch :=
  if cursor.valid && decide (pid = cursor.pid) then
    b.update fun s => s.setCursor sweep { cursor with addr := 0 }
  else b

/-- The loop of `minimem_scan_batch_vma` over the VMAs of a process, which counts those
that it has gone through. -/
def scanVmas (codec : Codec) (env : ScanEnv) (startTime : Int) (sweep : Bool) (pid mm : Nat) :
    List Vma → Nat × Batch → Nat × Batch
  | [], acc => acc
  | vma :: vmas, (vmaCount, b) =>
      if vma.scanned = false then
        scanVmas codec env startTime sweep pid mm vmas (vmaCount,
          if vma.drained && vma.locked then b.update fun s => s.count fun st =>
            { st with skipVmaLocked := st.skipVmaLocked + 1 } else b)
      else if env.stop b.scan.tick then (vmaCount, b.update Scanner.ticked)
      else
        let cursor := b.scan.cursor sweep
        match scanVma codec env startTime sweep pid mm vma (cursor.enter pid vma)
            (b.update Scanner.ticked) with
        | (endAddr, b) =>
            if b.usedUp sweep || cpuBudgetExpired env startTime b.scan.tick then
              (vmaCount, { b with
                scan := (b.scan.setCursor sweep ⟨pid, endAddr, true⟩).ticked
                exhausted := true })
            else
              scanVmas codec env startTime sweep pid mm vmas
                (vmaCount + 1, (b.update Scanner.ticked).behindVma sweep pid cursor)

/-- What a cycle does under the lock of an address space; the VMA iterator starts at the
first VMA that ends behind `vmaStart`. -/
def scanMm (codec : Codec) (env : ScanEnv) (startTime : Int) (sweep : Bool) (pid mm vmaStart : Nat)
    (b : Batch) : Batch :=
  let vmas := (b.scan.kernel.mms mm).vmas.filter fun vma => decide (vmaStart < vma.stop)
  match scanVmas codec env startTime sweep pid mm vmas (0, b) with
  | (vmaCount, b) =>
      if decide (0 < vmaCount) && sweep && !b.exhausted then
        b.update fun s => { s with deferred := s.deferred ++ [mm] }
      else b

/-- The body of the loop of `minimem_scan_batch_vma` over the processes, behind its
breaks. -/
def scanTask (codec : Codec) (env : ScanEnv) (startTime : Int) (sweep : Bool) (b : Batch)
    (task : ScanTask) : Batch :=
  let cursor := b.scan.cursor sweep
  if cursor.skips task.pid then b
  else
    match task.mm with
    | none => b
    | some mm =>
        let b := b.update fun s => { s with users := mmGet s.users mm }
        if task.mmget = false then b.update fun s => { s with users := mmPut s.users mm }
        else
          let b := b.update fun s => { s with users := mmGet s.users mm }
          if task.trylock = false then b.update fun s => { s with users := mmPut s.users mm }
          else
            (scanMm codec env startTime sweep task.pid mm (cursor.startAddr task.pid) b).update
              fun s => { s with users := mmPut s.users mm }

/-- The loop of `minimem_scan_batch_vma` over the processes. -/
def scanTasks (codec : Codec) (env : ScanEnv) (startTime : Int) (sweep : Bool) :
    List ScanTask → Batch → Batch
  | [], b => b
  | task :: tasks, b =>
      if env.stop b.scan.tick then b.update Scanner.ticked
      else if b.exhausted then b.update Scanner.ticked
      else
        scanTasks codec env startTime sweep tasks
          (scanTask codec env startTime sweep (b.update Scanner.ticked) task)

/-- What `minimem_scan_batch_vma` does behind its loops. -/
def Batch.finish (b : Batch) (sweep : Bool) : Batch :=
  let b :=
    if b.exhausted then
      b.update fun s => s.count fun st =>
        if sweep then { st with sweepYielded := st.sweepYielded + 1 }
        else { st with markYielded := st.markYielded + 1 }
    else
      b.update fun s =>
        { s.setCursor sweep { s.cursor sweep with valid := false } with sweeping := !sweep }
  if sweep then b
  else b.update fun s => s.count fun st => { st with markPages := b.marked.length }

/-- `minimem_scan_batch_vma`. -/
def scanBatchVma (codec : Codec) (env : ScanEnv) (tasks : List ScanTask) (s : Scanner) : Batch :=
  if s.sweeping && !env.markerReady then
    ⟨{ s with sweeping := false }, env.markBudgetPages, maxBatchPages, false, [], 0⟩
  else
    (scanTasks codec env (env.clock s.tick) s.sweeping tasks
      ⟨s.ticked, env.markBudgetPages, maxBatchPages, false, [], 0⟩).finish s.sweeping

/-- What `minimem_scan_batch_vma` returns. -/
def Batch.ret (b : Batch) (sweep : Bool) : Nat := if sweep then b.total else b.marked.length

/-- The scanner as it starts. -/
def Scanner.fresh (k : Kernel) : Scanner where
  kernel := k
  idle _ := false
  young _ := false
  skipList _ := false
  sweeping := false
  markCursor := ⟨0, 0, false⟩
  sweepCursor := ⟨0, 0, false⟩
  stats := ⟨0, 0, 0, 0, 0, 0, 0, 0, 0, 0, 0⟩
  users _ := 1
  deferred := []
  tick := 0

/-- No step fails, nobody stops the thread, and no time passes. -/
def ScanEnv.ok : ScanEnv where
  stop _ := false
  clock _ := 0
  lock _ := true
  replace _ := .ok
  bits _ := ⟨false, true, true, false⟩
  cpuBudgetMs := 50
  markBudgetPages := 65536
  markerReady := true

/-! ## What a pass leaves alone -/

/-- A property of kernel, references and skip list that a replacement and
`skip_list_add` keep. -/
structure ScanClosed (codec : Codec) (P : Scanner → Prop) : Prop where
  same : ∀ {s s' : Scanner}, P s → s'.kernel = s.kernel → s'.users = s.users →
    s'.skipList = s.skipList → P s'
  replace : ∀ (s : Scanner) (env : ReplaceEnv) (mm addr : Nat), P s →
    P { s with kernel := (compressAndReplacePte codec env s.kernel mm addr).2 }
  skip : ∀ (s : Scanner) (addr : Nat), P s → P (s.skipListAdd addr)

/-- A property of kernel and references that a replacement keeps. -/
structure PassClosed (codec : Codec) (P : Scanner → Prop) : Prop where
  same : ∀ {s s' : Scanner}, P s → s'.kernel = s.kernel → s'.users = s.users → P s'
  replace : ∀ (s : Scanner) (env : ReplaceEnv) (mm addr : Nat), P s →
    P { s with kernel := (compressAndReplacePte codec env s.kernel mm addr).2 }

/-- What every step of a pass keeps, every step of the scanner keeps. -/
theorem PassClosed.scanClosed {codec : Codec} {P : Scanner → Prop} (hP : PassClosed codec P) :
    ScanClosed codec P where
  same h hkernel husers _ := hP.same h hkernel husers
  replace := hP.replace
  skip _ _ h := hP.same h rfl rfl

namespace ScanClosed

variable {codec : Codec} {P : Scanner → Prop} (hP : ScanClosed codec P)
include hP

/-- One page of the marking pass. -/
theorem markPage (env : ScanEnv) (mm : Nat) {s : MarkState} (addr : Nat) (h : P s.scan) :
    P (markPage env mm s addr).scan := by
  have hsame : ∀ s' : Scanner, s'.kernel = s.scan.kernel → s'.users = s.scan.users →
      s'.skipList = s.scan.skipList → P s' :=
    fun _ hkernel husers hskip => hP.same h hkernel husers hskip
  unfold MiniMem.markPage
  split
  · exact hsame _ rfl rfl rfl
  split
  · exact hsame _ rfl rfl rfl
  split
  · exact hsame _ rfl rfl rfl
  · exact hsame _ rfl rfl rfl

/-- The pages of a VMA, by induction on those that are left. -/
theorem markPages (env : ScanEnv) (startTime : Int) (mm stop : Nat) (addrs : List Nat)
    {s : MarkState} (h : P s.scan) : P (markPages env startTime mm stop addrs s).2.scan := by
  induction addrs generalizing s with
  | nil => exact h
  | cons addr addrs ih =>
      unfold MiniMem.markPages
      split
      · exact h
      split
      · exact h
      split
      · exact hP.same h rfl rfl rfl
      · exact ih (hP.markPage env mm addr h)

/-- One page of the sweeping pass. -/
theorem sweepPage (env : ScanEnv) (mm : Nat) {s : SweepState} (addr : Nat) (h : P s.scan) :
    P (sweepPage codec env mm s addr).scan := by
  have hsame : ∀ s' : Scanner, s'.kernel = s.scan.kernel → s'.users = s.scan.users →
      s'.skipList = s.scan.skipList → P s' :=
    fun _ hkernel husers hskip => hP.same h hkernel husers hskip
  unfold MiniMem.sweepPage
  split
  · exact hsame _ rfl rfl rfl
  split
  · exact hsame _ rfl rfl rfl
  split
  · exact hsame _ rfl rfl rfl
  split
  · exact hsame _ rfl rfl rfl
  split
  · exact hsame _ rfl rfl rfl
  split
  · exact hsame _ rfl rfl rfl
  · have hreplace := hP.replace s.scan (env.replace s.scan.tick) mm addr h
    dsimp only
    split
    · exact hP.same hreplace rfl rfl rfl
    · exact hP.same (hP.skip _ addr hreplace) rfl rfl rfl

/-- The pages of a VMA in the sweeping pass. -/
theorem sweepPages (env : ScanEnv) (startTime : Int) (mm stop : Nat) (addrs : List Nat)
    {s : SweepState} (h : P s.scan) :
    P (sweepPages codec env startTime mm stop addrs s).2.scan := by
  induction addrs generalizing s with
  | nil => exact h
  | cons addr addrs ih =>
      unfold MiniMem.sweepPages
      split
      · exact h
      split
      · exact h
      split
      · exact hP.same h rfl rfl rfl
      · exact ih (hP.sweepPage env mm addr h)

/-- One VMA, in either pass. -/
theorem scanVma (env : ScanEnv) (startTime : Int) (sweep : Bool) (pid mm : Nat) (vma : Vma)
    (start : Nat) {b : Batch} (h : P b.scan) :
    P (scanVma codec env startTime sweep pid mm vma start b).2.scan := by
  unfold MiniMem.scanVma
  split
  · have hpages := hP.sweepPages env startTime mm (pagesEnd (max start vma.start) vma.stop)
      (pagesFrom (max start vma.start) vma.stop) (s := ⟨b.scan, b.sweepBatch, 0, 0, 0, 0⟩) h
    exact hP.same hpages rfl rfl rfl
  · exact hP.markPages env startTime mm _ _ h

/-- The cursor is none of the kernel's state. -/
theorem setCursor (sweep : Bool) (cursor : Cursor) {s : Scanner} (h : P s) :
    P (s.setCursor sweep cursor) := by
  cases sweep <;> exact hP.same h rfl rfl rfl

/-- The VMAs of an address space. -/
theorem scanVmas (env : ScanEnv) (startTime : Int) (sweep : Bool) (pid mm : Nat)
    (vmas : List Vma) {acc : Nat × Batch} (h : P acc.2.scan) :
    P (scanVmas codec env startTime sweep pid mm vmas acc).2.scan := by
  induction vmas generalizing acc with
  | nil => exact h
  | cons vma vmas ih =>
      obtain ⟨vmaCount, b⟩ := acc
      have hticked : P b.scan.ticked := hP.same h rfl rfl rfl
      have hvma := hP.scanVma env startTime sweep pid mm vma ((b.scan.cursor sweep).enter pid vma)
        (b := b.update Scanner.ticked) hticked
      unfold MiniMem.scanVmas
      split
      · apply ih
        split
        · exact hP.same h rfl rfl rfl
        · exact h
      split
      · exact hticked
      dsimp only
      split
      · exact hP.same (hP.setCursor sweep _ hvma) rfl rfl rfl
      · apply ih
        unfold Batch.behindVma
        split
        · exact hP.setCursor sweep _ (hP.same hvma rfl rfl rfl)
        · exact hP.same hvma rfl rfl rfl

/-- One address space under its lock. -/
theorem scanMm (env : ScanEnv) (startTime : Int) (sweep : Bool) (pid mm vmaStart : Nat)
    {b : Batch} (h : P b.scan) :
    P (scanMm codec env startTime sweep pid mm vmaStart b).scan := by
  have hstart : P ((0, b) : Nat × Batch).2.scan := h
  have hvmas := hP.scanVmas env startTime sweep pid mm
    ((b.scan.kernel.mms mm).vmas.filter fun vma => decide (vmaStart < vma.stop)) hstart
  unfold MiniMem.scanMm
  dsimp only
  split
  · exact hP.same hvmas rfl rfl rfl
  · exact hvmas

section Tasks

variable (husers : ∀ (s : Scanner) (users : Nat → Int), P s → P { s with users := users })
include husers

/-- One process, with the reference on its address space taken and dropped. -/
theorem scanTask (env : ScanEnv) (startTime : Int) (sweep : Bool) {b : Batch} (task : ScanTask)
    (h : P b.scan) : P (scanTask codec env startTime sweep b task).scan := by
  unfold MiniMem.scanTask
  dsimp only
  split
  · exact h
  split
  · exact h
  next mm _ =>
    have htaken : ∀ users, P { b.scan with users := users } := fun users => husers _ users h
    split
    · exact htaken _
    split
    · exact htaken _
    · exact husers _ _ (hP.scanMm env startTime sweep task.pid mm _
        (b := { b with scan := { b.scan with users := mmGet (mmGet b.scan.users mm) mm } })
        (htaken _))

/-- The list of processes. -/
theorem scanTasks (env : ScanEnv) (startTime : Int) (sweep : Bool) (tasks : List ScanTask)
    {b : Batch} (h : P b.scan) : P (scanTasks codec env startTime sweep tasks b).scan := by
  induction tasks generalizing b with
  | nil => exact h
  | cons task tasks ih =>
      have hticked : P (b.update Scanner.ticked).scan := hP.same h rfl rfl rfl
      unfold MiniMem.scanTasks
      split
      · exact hticked
      split
      · exact hticked
      · exact ih (hP.scanTask husers env startTime sweep task hticked)

omit husers in
/-- The end of a batch. -/
theorem finish {b : Batch} (sweep : Bool) (h : P b.scan) : P (b.finish sweep).scan := by
  unfold Batch.finish
  apply hP.same h <;> cases sweep <;> cases b.exhausted <;> rfl

/-- A whole batch. -/
theorem scanBatchVma (env : ScanEnv) (tasks : List ScanTask) {s : Scanner} (h : P s) :
    P (scanBatchVma codec env tasks s).scan := by
  unfold MiniMem.scanBatchVma
  split
  · exact hP.same h rfl rfl rfl
  · exact hP.finish s.sweeping (hP.scanTasks husers env _ s.sweeping tasks
      (b := ⟨s.ticked, env.markBudgetPages, maxBatchPages, false, [], 0⟩)
      (hP.same h rfl rfl rfl))

end Tasks

end ScanClosed

end MiniMem
