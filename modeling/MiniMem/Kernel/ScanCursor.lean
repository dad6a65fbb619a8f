import Mathlib.Data.Set.Card
import MiniMem.Kernel.MarkCycle

/-!
# MiniMem.Kernel.ScanCursor

The mark cycles of the scanner from a fresh cursor until the phase flips.

A cycle skips the processes whose pid is smaller than that of the cursor, as
if `for_each_process` listed them in the order of their pids.  It need not,
and then a halt is enough for a page never to be marked, or to be marked
twice.
-/

namespace MiniMem

/-! ## All mark cycles -/

/-- Mark cycles, up to the flip of the phase and at most so many: what they mark, and the
scanner that they leave. -/
def markCycles (codec : Codec) (env : ScanEnv) (tasks : List ScanTask) :
    Nat → Scanner → List (Nat × Nat) × Scanner
  | 0, s => ([], s)
  | n + 1, s =>
      if s.sweeping then ([], s)
      else
        let b := scanBatchVma codec env tasks s
        match markCycles codec env tasks n b.scan with
        | (marked, s') => (b.marked ++ marked, s')

/-- Processes of distinct pids, on which all locks are obtained, with VMAs as the kernel
keeps them. -/
structure Population (k : Kernel) (tasks : List ScanTask) : Prop where
  pids : (tasks.map ScanTask.pid).Nodup
  locks : ∀ task ∈ tasks, task.mmget = true ∧ task.trylock = true
  vmas : ∀ mm, VmasOk (k.mms mm).vmas

/-- Mark cycles from a fresh cursor mark every eligible page once before the phase flips,
for every budget and every clock. -/
def CoversOnce (codec : Codec) (bits : Nat → PageBits) (k : Kernel) (tasks : List ScanTask) :
    Prop :=
  ∀ env : ScanEnv, env.bits = bits → env.Steady →
    ∀ s : Scanner, s.kernel = k → s.sweeping = false → s.markCursor.valid = false →
      ∃ n, (markCycles codec env tasks n s).2.sweeping = true ∧
        ∀ task ∈ tasks, ∀ x, Eligible bits k task x →
          (markCycles codec env tasks n s).1.count (task.pid, x) = 1

/-- What the cycles may still have to do from a place on. -/
def slotsLeft (k : Kernel) (tasks : List ScanTask) (c : Option (Nat × Nat)) : Set (Nat × Nat) :=
  {y | (∃ task ∈ tasks, task.pid = y.1 ∧ Slot k task y.2) ∧ Pending c y}

theorem slotsLeft_finite (k : Kernel) (tasks : List ScanTask) (c : Option (Nat × Nat)) :
    (slotsLeft k tasks c).Finite := by
  let pages (task : ScanTask) : List Nat := task.mm.toList.flatMap fun mm =>
    (k.mms mm).vmas.flatMap fun vma => pagesFrom vma.start vma.stop
  refine (List.finite_toSet (tasks.flatMap fun task => (pages task).map fun x =>
    (task.pid, x))).subset ?_
  rintro ⟨pid, x⟩ ⟨⟨task, htask, rfl, mm, hmm, vma, hvma, -, hx⟩, -⟩
  refine List.mem_flatMap.2 ⟨task, htask, List.mem_map.2 ⟨x, ?_, rfl⟩⟩
  exact List.mem_flatMap.2 ⟨mm, Option.mem_toList.2 hmm, List.mem_flatMap.2 ⟨vma, hvma, hx⟩⟩

/-- Behind an address at which there was something to do there is less left. -/
theorem slotsLeft_lt {k : Kernel} {tasks : List ScanTask} {c : Option (Nat × Nat)}
    {p : ScanTask} (hp : p ∈ tasks) {e x : Nat} (hslot : Slot k p x)
    (hpending : Pending c (p.pid, x)) (hlt : x < e) :
    (slotsLeft k tasks (some (p.pid, e))).ncard < (slotsLeft k tasks c).ncard := by
  have hplace : Pending c (p.pid, e) :=
    hpending.trans (pending_some.2 (.inr ⟨rfl, hlt.le⟩))
  apply Set.ncard_lt_ncard _ (slotsLeft_finite k tasks c)
  refine ⟨fun y hy => ⟨hy.1, hplace.trans hy.2⟩, fun hsub => ?_⟩
  obtain ⟨-, hleft⟩ := hsub ⟨⟨p, hp, rfl, hslot⟩, hpending⟩
  rw [pending_some] at hleft
  dsimp only at hleft
  omega

/-- **The mark cycles come to an end**, and are one journey. -/
theorem markCycles_journey (codec : Codec) {env : ScanEnv} (henv : env.Steady)
    {tasks : List ScanTask} {s : Scanner} (hpop : Population s.kernel tasks)
    (haligned : s.markCursor.valid = true → pageSize ∣ s.markCursor.addr)
    (hsweeping : s.sweeping = false) :
    ∃ n, (markCycles codec env tasks n s).2.sweeping = true ∧
      Journey ScanTask.pid (Eligible env.bits s.kernel) (HasScanned s.kernel) tasks
        s.markCursor.place (markCycles codec env tasks n s).1 := by
  induction hm : (slotsLeft s.kernel tasks s.markCursor.place).ncard using Nat.strong_induction_on
    generalizing s with
  | _ m ih =>
      obtain ⟨hkernel, -, hcycled⟩ := scanBatchVma_mark henv codec hpop.pids hpop.locks hpop.vmas
        haligned hsweeping
      generalize hb : scanBatchVma codec env tasks s = b at hkernel hcycled
      have hcycles : ∀ n, markCycles codec env tasks (n + 1) s =
          (b.marked ++ (markCycles codec env tasks n b.scan).1,
            (markCycles codec env tasks n b.scan).2) := by
        intro n
        rw [markCycles, if_neg (by simp [hsweeping]), hb]
      cases hcycled with
      | flips hflip _ hleg =>
          refine ⟨1, ?_⟩
          rw [hcycles 0, markCycles, List.append_nil]
          exact ⟨hflip, .last hleg⟩
      | @halts p e x hstay hp hcursor haddr hleg hslot hpending hlt _ =>
          have hplace : b.scan.markCursor.place = some (p.pid, e) := by rw [hcursor]; rfl
          have hless := slotsLeft_lt hp hslot hpending hlt
          rw [hm, ← hplace, ← hkernel] at hless
          obtain ⟨n, hflip, hjourney⟩ := ih _ hless (hkernel ▸ hpop)
            (fun _ => by rw [hcursor]; exact haddr) hstay rfl
          refine ⟨n + 1, ?_⟩
          rw [hcycles n]
          rw [hplace, hkernel] at hjourney
          exact ⟨hflip, .next hleg hjourney⟩

/-! ## Lists in the order of the pids -/

/-- In an ordered list every eligible page is marked once. -/
theorem coversOnce_of_ordered (codec : Codec) {bits : Nat → PageBits} {k : Kernel}
    {tasks : List ScanTask} (hpop : Population k tasks)
    (hordered : Ordered ScanTask.pid (Eligible bits k) (HasScanned k) tasks) :
    CoversOnce codec bits k tasks := by
  rintro env rfl henv s rfl hsweeping hvalid
  have hplace : s.markCursor.place = none := by
    rw [Cursor.place, if_neg (by simp [hvalid])]
  obtain ⟨n, hflip, hjourney⟩ := markCycles_journey codec henv hpop
    (fun h => by rw [hvalid] at h; cases h) hsweeping
  refine ⟨n, hflip, fun task htask x hx => ?_⟩
  exact (hjourney.count hpop.pids hordered htask hx).1 (by rw [hplace]; exact pending_none _)

/-! ## Lists out of order -/

theorem length_pagesFrom_le {start start' stop : Nat} (h : start ≤ start') :
    (pagesFrom start' stop).length ≤ (pagesFrom start stop).length := by
  simp only [pagesFrom, List.length_map, List.length_range, pageSize]
  omega

/-- A cycle asks most from the beginning. -/
theorem vmasCost_le (start : Nat) (vmas : List Vma) :
    vmasCost start (vmas.filter fun vma => decide (start < vma.stop)) ≤
      vmasCost 0 (vmas.filter fun vma => decide (0 < vma.stop)) := by
  induction vmas with
  | nil => exact le_rfl
  | cons vma vmas ih =>
      rw [List.filter_cons, List.filter_cons]
      by_cases hlt : start < vma.stop
      · have hlength : (pagesFrom (max start vma.start) vma.stop).length ≤
            (pagesFrom (max 0 vma.start) vma.stop).length := length_pagesFrom_le (by omega)
        rw [if_pos (by simpa using hlt), if_pos (by simp; omega), vmasCost, vmasCost]
        split <;> omega
      · rw [if_neg (by simpa using hlt)]
        split
        · rw [vmasCost]
          omega
        · exact ih

theorem tasksCost_le (cursor : Cursor) (k : Kernel) (tasks : List ScanTask) :
    tasksCost cursor k tasks ≤ tasksCost ⟨0, 0, false⟩ k tasks := by
  induction tasks with
  | nil => exact le_rfl
  | cons task tasks ih =>
      have htask : taskCost cursor k task ≤ taskCost ⟨0, 0, false⟩ k task := by
        unfold taskCost
        split
        · exact Nat.zero_le _
        · rw [if_neg (by simp [Cursor.skips])]
          split
          · exact le_rfl
          · exact vmasCost_le _ _
      rw [tasksCost, tasksCost]
      omega

theorem tasksCost_le_append (cursor : Cursor) (k : Kernel) (pre post : List ScanTask) :
    tasksCost cursor k pre ≤ tasksCost cursor k (pre ++ post) := by
  induction pre with
  | nil => exact Nat.zero_le _
  | cons task pre ih =>
      rw [List.cons_append, tasksCost, tasksCost]
      omega

/-- The cycle goes on where it has gone through the first processes. -/
theorem scanTasks_append {env : ScanEnv} (henv : env.Steady) (codec : Codec) (startTime : Int)
    (sweep : Bool) (pre post : List ScanTask) (b : Batch)
    (h : (scanTasks codec env startTime sweep pre b).exhausted = false) :
    scanTasks codec env startTime sweep (pre ++ post) b =
      scanTasks codec env startTime sweep post (scanTasks codec env startTime sweep pre b) := by
  induction pre generalizing b with
  | nil => rfl
  | cons task pre ih =>
      cases hexhausted : b.exhausted with
      | true =>
          have hdone : (scanTasks codec env startTime sweep (task :: pre) b).exhausted = true := by
            rcases scanTasks_of_exhausted henv codec startTime sweep (task :: pre) hexhausted with
              hsame | hsame <;> rw [hsame] <;> exact hexhausted
          rw [h] at hdone
          cases hdone
      | false =>
          rw [scanTasks, henv.stop, if_neg (by decide), hexhausted, if_neg (by decide)] at h ⊢
          rw [List.cons_append, scanTasks, henv.stop, if_neg (by decide), hexhausted,
            if_neg (by decide)]
          exact ih _ h

/-- A clock that stands until a tick, and is a millisecond later from it on. -/
def leapAt (leap tick : Nat) : Int := if tick < leap then 0 else 1000000

theorem leapAt_mono (leap : Nat) {t t' : Nat} (h : t ≤ t') : leapAt leap t ≤ leapAt leap t' := by
  unfold leapAt
  split <;> split <;> omega

/-- The environment of that clock, with a budget of a millisecond and pages enough. -/
def ScanEnv.leaping (bits : Nat → PageBits) (leap pages : Nat) : ScanEnv :=
  { ScanEnv.ok with
    clock := leapAt leap
    bits := bits
    cpuBudgetMs := 1
    markBudgetPages := pages + 1 }

theorem ScanEnv.leaping_steady (bits : Nat → PageBits) (leap pages : Nat) :
    (ScanEnv.leaping bits leap pages).Steady where
  stop _ := rfl
  lock _ := rfl
  clock := leapAt_mono leap
  budget := Nat.succ_pos pages

theorem leaping_expired_iff {bits : Nat → PageBits} {leap pages t t' : Nat} :
    cpuBudgetExpired (ScanEnv.leaping bits leap pages) (leapAt leap t) t' = true ↔
      t < leap ∧ leap ≤ t' := by
  rw [cpuBudgetExpired, decide_eq_true_eq]
  show (1 : Int) ≤ ktimeMsDelta (leapAt leap t') (leapAt leap t) ↔ _
  unfold leapAt ktimeMsDelta
  split <;> split <;> simp <;> omega

/-- The batch with which the first cycle of that environment begins. -/
def Batch.first (k : Kernel) (pages : Nat) : Batch :=
  ⟨(Scanner.fresh k).ticked, pages + 1, maxBatchPages, false, [], 0⟩

/-- In the processes before, the clock still stands and the cycle goes on. -/
theorem scanTasks_leaping (codec : Codec) (bits : Nat → PageBits) {k : Kernel}
    {tasks : List ScanTask} (hpop : Population k tasks) {leap pages : Nat}
    (hleap : 1 + tasksCost ⟨0, 0, false⟩ k tasks = leap)
    (hpages : tasksCost ⟨0, 0, false⟩ k tasks ≤ pages) {b : Batch}
    (hb : scanTasks codec (.leaping bits leap pages) (leapAt leap 0) false tasks
      (.first k pages) = b) :
    b.exhausted = false ∧ b.scan.tick = leap ∧ 0 < b.remaining ∧ b.scan.kernel = k ∧
      b.scan.markCursor.valid = false := by
  have henv := ScanEnv.leaping_steady bits leap pages
  have htick₀ : (Batch.first k pages).scan.tick = 1 := rfl
  have hremaining₀ : (Batch.first k pages).remaining = pages + 1 := rfl
  obtain ⟨new, hpass, hend⟩ := @scanTasks_mark _ henv codec (leapAt leap 0) k hpop.vmas tasks
    hpop.pids hpop.locks ⟨0, 0, false⟩ (fun h => by cases h) (.first k pages) rfl rfl
    (Nat.succ_pos _) (.inl rfl)
  rw [hb] at hpass hend
  have hdone : b.exhausted = false := by
    rw [← Bool.not_eq_true]
    intro hexhausted
    rcases hpass.spent hexhausted with hzero | ⟨t, -, hlt, hexpired⟩
    · have hremaining := hpass.remaining
      have hlength := hpass.length
      omega
    · have hle := (leaping_expired_iff.1 hexpired).2
      omega
  have htick := hpass.tick_eq hdone
  refine ⟨hdone, by omega, hpass.left hdone, hpass.kernel, ?_⟩
  cases hend with
  | through _ hvalid _ => exact hvalid
  | halted hexhausted =>
      rw [hdone] at hexhausted
      cases hexhausted

/-- In the next process that the scanner enters, the clock has leapt and the cycle halts. -/
theorem scanTask_leaping (codec : Codec) (bits : Nat → PageBits) {k : Kernel} {p : ScanTask}
    (hlocks : p.mmget = true ∧ p.trylock = true) (hvmas : ∀ mm, VmasOk (k.mms mm).vmas)
    (hp : HasScanned k p) {leap pages : Nat} (hleap : 0 < leap) {b : Batch}
    (hexhausted : b.exhausted = false) (htick : leap ≤ b.scan.tick) (hleft : 0 < b.remaining)
    (hkernel : b.scan.kernel = k) (hvalid : b.scan.markCursor.valid = false) {b' : Batch}
    (hb' : scanTask codec (.leaping bits leap pages) (leapAt leap 0) false b p = b') :
    b'.exhausted = true ∧ (∃ e, b'.scan.markCursor = ⟨p.pid, e, true⟩) ∧ leap ≤ b'.scan.tick := by
  obtain ⟨new, hpass, hend⟩ := scanTask_mark (ScanEnv.leaping_steady bits leap pages) codec
    (leapAt leap 0) hlocks (by rw [hkernel]; exact hvmas) hexhausted hleft (fun h => by
      rw [hvalid] at h
      cases h)
  rw [hb'] at hpass hend
  rw [hkernel] at hend
  have htick' := hpass.tick_le
  cases hend with
  | halted hexhausted' hcursor => exact ⟨hexhausted', ⟨_, hcursor⟩, by omega⟩
  | through _ _ _ htime =>
      obtain ⟨mm, hmm, vma, hvma, hscanned⟩ := hp
      obtain ⟨hvstart, -⟩ := (hvmas mm).aligned vma hvma
      have hfirst : vma.start ∈ pagesFrom vma.start vma.stop :=
        (mem_pagesFrom hvstart).2 ⟨le_rfl, (hvmas mm).nonempty vma hvma, hvstart⟩
      have hplace : b.scan.markCursor.place = none :=
        if_neg (by rw [Bool.not_eq_true]; exact hvalid)
      obtain ⟨t, hle, hearly⟩ := htime ⟨vma.start, ⟨mm, hmm, vma, hvma, hscanned, hfirst⟩,
        by rw [hplace]; exact pending_none _⟩
      have hexpired := (@leaping_expired_iff bits leap pages 0 t).2 ⟨hleap, htick.trans hle⟩
      rw [hearly] at hexpired
      cases hexpired

/-- **A halt where one wants it**: with the clock set to leap when a process is reached, the
first cycle halts in it. -/
theorem scanBatchVma_leaping (codec : Codec) (bits : Nat → PageBits) {k : Kernel}
    {pre post : List ScanTask} {p : ScanTask} (hpop : Population k (pre ++ p :: post))
    (hp : HasScanned k p) {pages : Nat} (hpages : tasksCost ⟨0, 0, false⟩ k pre ≤ pages) :
    ∃ e b, scanBatchVma codec (.leaping bits (1 + tasksCost ⟨0, 0, false⟩ k pre) pages)
        (pre ++ p :: post) (.fresh k) = b ∧
      b.scan.markCursor = ⟨p.pid, e, true⟩ ∧
      1 + tasksCost ⟨0, 0, false⟩ k pre ≤ b.scan.tick := by
  have hpids := hpop.pids
  rw [List.map_append, List.map_cons] at hpids
  have hbefore : Population k pre := ⟨List.Nodup.of_append_left hpids,
    fun task htask => hpop.locks task (List.mem_append_left _ htask), hpop.vmas⟩
  generalize hleap : 1 + tasksCost ⟨0, 0, false⟩ k pre = leap
  have henv := ScanEnv.leaping_steady bits leap pages
  obtain ⟨hdone, htick, hleft, hkernel, hvalid⟩ := scanTasks_leaping codec bits hbefore hleap
    hpages rfl
  have happend := scanTasks_append henv codec (leapAt leap 0) false pre (p :: post)
    (.first k pages) hdone
  generalize scanTasks codec (.leaping bits leap pages) (leapAt leap 0) false pre
    (.first k pages) = b₁ at hdone htick hleft hkernel hvalid happend
  obtain ⟨hexhausted, ⟨e, hcursor⟩, htick₂⟩ := @scanTask_leaping codec bits k p
    (hpop.locks p (by simp)) hpop.vmas hp leap pages (by omega) (b₁.update Scanner.ticked) hdone
    (by show leap ≤ b₁.scan.tick + 1; omega) hleft hkernel hvalid _ rfl
  have hstep : scanTasks codec (.leaping bits leap pages) (leapAt leap 0) false (p :: post) b₁ =
      scanTasks codec (.leaping bits leap pages) (leapAt leap 0) false post (scanTask codec
        (.leaping bits leap pages) (leapAt leap 0) false (b₁.update Scanner.ticked) p) := by
    rw [scanTasks, henv.stop, if_neg (by decide), hdone, if_neg (by decide)]
  generalize scanTask codec (.leaping bits leap pages) (leapAt leap 0) false
    (b₁.update Scanner.ticked) p = b₂ at hexhausted hcursor htick₂ hstep
  have hlast : (scanTasks codec (.leaping bits leap pages) (leapAt leap 0) false post b₂).exhausted =
      true ∧ (scanTasks codec (.leaping bits leap pages) (leapAt leap 0) false post
      b₂).scan.markCursor = ⟨p.pid, e, true⟩ ∧ leap ≤ (scanTasks codec (.leaping bits leap pages)
      (leapAt leap 0) false post b₂).scan.tick := by
    rcases scanTasks_of_exhausted henv codec (leapAt leap 0) false post hexhausted with h | h
    · rw [h]
      exact ⟨hexhausted, hcursor, htick₂⟩
    · rw [h]
      exact ⟨hexhausted, hcursor, htick₂.trans (Nat.le_succ _)⟩
  have hbatch : scanBatchVma codec (.leaping bits leap pages) (pre ++ p :: post) (.fresh k) =
      (scanTasks codec (.leaping bits leap pages) (leapAt leap 0) false (pre ++ p :: post)
        (.first k pages)).finish false := if_neg (by simp [Scanner.fresh])
  refine ⟨e, _, hbatch, ?_⟩
  rw [happend, hstep]
  generalize scanTasks codec (.leaping bits leap pages) (leapAt leap 0) false post b₂ = b₃ at hlast
  obtain ⟨hexhausted₃, hcursor₃, htick₃⟩ := hlast
  unfold Batch.finish
  rw [if_neg (by decide), if_pos hexhausted₃]
  exact ⟨hcursor₃, htick₃⟩

/-- Once the phase has flipped there are no more mark cycles. -/
theorem markCycles_of_sweeping (codec : Codec) (env : ScanEnv) (tasks : List ScanTask) (n : Nat)
    {s : Scanner} (h : s.sweeping = true) : markCycles codec env tasks n s = ([], s) := by
  cases n with
  | zero => rfl
  | succ n => rw [markCycles, if_pos h]

theorem markCycles_succ (codec : Codec) (env : ScanEnv) (tasks : List ScanTask) (n : Nat)
    {s : Scanner} (h : s.sweeping = false) : markCycles codec env tasks (n + 1) s =
      ((scanBatchVma codec env tasks s).marked ++
          (markCycles codec env tasks n (scanBatchVma codec env tasks s).scan).1,
        (markCycles codec env tasks n (scanBatchVma codec env tasks s).scan).2) := by
  rw [markCycles, if_neg (by simp [h])]

/-- If every eligible page is marked once whatever the budget and the clock, the list is
ordered. -/
theorem ordered_of_coversOnce {codec : Codec} {bits : Nat → PageBits} {k : Kernel}
    {tasks : List ScanTask} (hpop : Population k tasks) (h : CoversOnce codec bits k tasks) :
    Ordered ScanTask.pid (Eligible bits k) (HasScanned k) tasks := by
  by_contra hordered
  obtain ⟨pre, p, post, q, x, hsplit, hp, hx, hwrong⟩ := exists_of_not_ordered hpop.pids hordered
  have hq : q ∈ tasks := by
    rw [hsplit]
    rcases hwrong with ⟨hin, -⟩ | ⟨hin, -⟩ <;> simp [hin]
  obtain ⟨e, b, hb, hcursor, htick⟩ := @scanBatchVma_leaping codec bits k pre post p
    (hsplit ▸ hpop) hp _ (tasksCost_le_append _ k pre (p :: post))
  rw [← hsplit] at hb
  generalize hleap : 1 + tasksCost ⟨0, 0, false⟩ k pre = leap at hb htick
  generalize hpages : tasksCost ⟨0, 0, false⟩ k tasks = pages at hb
  have henv := ScanEnv.leaping_steady bits leap pages
  -- the first cycle halts in `p`
  obtain ⟨hkernel, -, hcycled⟩ := @scanBatchVma_mark _ henv codec tasks hpop.pids hpop.locks
    (.fresh k) hpop.vmas (fun h => by cases h) rfl
  rw [hb] at hkernel hcycled
  obtain ⟨hleg, hstay, haligned⟩ : Leg ScanTask.pid (Eligible bits k) (HasScanned k) tasks none
      b.marked (some (p.pid, e)) ∧ b.scan.sweeping = false ∧ pageSize ∣ e := by
    cases hcycled with
    | flips _ hvalid =>
        rw [hcursor] at hvalid
        cases hvalid
    | halts hsweeping _ hcursor' haligned hleg =>
        rw [hcursor] at hcursor'
        simp only [Cursor.mk.injEq, and_true] at hcursor'
        rw [← hcursor'.1, ← hcursor'.2] at hleg
        exact ⟨hleg, hsweeping, hcursor'.2 ▸ haligned⟩
  -- the second one is not stopped any more
  have hk : b.scan.kernel = k := hkernel
  obtain ⟨-, -, hcycled'⟩ := @scanBatchVma_mark _ henv codec tasks hpop.pids hpop.locks b.scan
    (by rw [hk]; exact hpop.vmas) (fun _ => by rw [hcursor]; exact haligned) hstay
  have hplace : b.scan.markCursor.place = some (p.pid, e) := by rw [hcursor]; rfl
  rw [hk] at hcycled'
  generalize hb' : scanBatchVma codec (.leaping bits leap pages) tasks b.scan = b' at hcycled'
  cases hcycled' with
  | halts _ _ _ _ _ _ _ _ hspent =>
      rcases hspent with hle | ⟨t, -, hexpired⟩
      · have hcost := tasksCost_le b.scan.markCursor k tasks
        have hbudget : pages + 1 ≤ tasksCost b.scan.markCursor k tasks := hle
        omega
      · have hlt := (leaping_expired_iff.1 hexpired).1
        omega
  | flips hflip _ hleg' =>
      rw [hplace] at hleg'
      obtain ⟨n, hdone, hcount⟩ := h (.leaping bits leap pages) rfl henv (.fresh k) rfl rfl rfl
      refine count_ne_one_of_halt hpop.pids hsplit hx hwrong hleg hleg' ?_
      have hcounted := hcount q hq x hx
      cases n with
      | zero => cases hdone
      | succ n =>
          rw [markCycles_succ codec _ tasks n rfl, hb] at hdone hcounted
          cases n with
          | zero =>
              rw [markCycles] at hdone
              rw [hstay] at hdone
              cases hdone
          | succ n =>
              rw [markCycles_succ codec _ tasks n hstay, hb',
                markCycles_of_sweeping codec _ tasks n hflip, List.append_nil] at hcounted
              exact hcounted

/-- **Cursor resumption**: the mark cycles mark every eligible page exactly once, for every
page budget and every clock, if and only if the processes in which a cycle can halt are listed
behind those with eligible pages of smaller pid and before those of larger pid. -/
theorem coversOnce_iff (codec : Codec) (bits : Nat → PageBits) {k : Kernel}
    {tasks : List ScanTask} (hpop : Population k tasks) :
    CoversOnce codec bits k tasks ↔
      Ordered ScanTask.pid (Eligible bits k) (HasScanned k) tasks :=
  ⟨ordered_of_coversOnce hpop, coversOnce_of_ordered codec hpop⟩

/-! ## Two processes -/

/-- Every address space maps one anonymous page at `0x1000`, in a VMA of its own. -/
def onePageEach : Kernel :=
  .loaded (fun mm => ⟨fun vpn => if vpn = 1 then some (.present mm true true false) else none,
    [⟨0x1000, 0x2000, true, true, false, false, false, false⟩], 1⟩)
    ⟨fun _ => Page.fill 0, fun _ => 1, 16⟩ 0 0 true

/-- The two processes of pids 5 and 3. -/
def pidFive : ScanTask := ⟨5, some 0, true, true⟩
def pidThree : ScanTask := ⟨3, some 1, true, true⟩

theorem vmasOk_onePageEach (mm : Nat) : VmasOk (onePageEach.mms mm).vmas where
  aligned := by
    intro vma hvma
    rw [List.mem_singleton.1 hvma]
    decide
  nonempty := by
    intro vma hvma
    rw [List.mem_singleton.1 hvma]
    decide
  ascending := List.pairwise_singleton _ _

theorem hasScanned_onePageEach {task : ScanTask} {mm : Nat} (h : task.mm = some mm) :
    HasScanned onePageEach task :=
  ⟨mm, h, _, List.mem_singleton.2 rfl, by decide⟩

theorem eligible_onePageEach {task : ScanTask} {mm : Nat} (h : task.mm = some mm) :
    Eligible ScanEnv.ok.bits onePageEach task 0x1000 :=
  ⟨mm, h, ⟨_, List.mem_singleton.2 rfl, by decide, by decide⟩, mm, true, true, false, rfl, rfl, rfl,
    rfl, rfl, (by decide : (1 : Int) ≤ 2)⟩

theorem population_onePageEach {tasks : List ScanTask} (hpids : (tasks.map ScanTask.pid).Nodup)
    (htasks : ∀ task ∈ tasks, task = pidFive ∨ task = pidThree) : Population onePageEach tasks where
  pids := hpids
  locks task htask := by rcases htasks task htask with rfl | rfl <;> exact ⟨rfl, rfl⟩
  vmas := vmasOk_onePageEach

/-- Listed in the order of the pids, the pages of both processes are marked once. -/
theorem coversOnce_ascending :
    CoversOnce samePageCodec ScanEnv.ok.bits onePageEach [pidThree, pidFive] := by
  have hpop : Population onePageEach [pidThree, pidFive] :=
    population_onePageEach (by decide) (by simp)
  refine (coversOnce_iff samePageCodec ScanEnv.ok.bits hpop).2 ?_
  intro pre p post hsplit _ q x _
  match pre, hsplit with
  | [], hsplit =>
      simp only [List.nil_append, List.cons.injEq] at hsplit
      obtain ⟨rfl, rfl⟩ := hsplit
      refine ⟨fun hin => (by cases hin), fun hin => ?_⟩
      rw [List.mem_singleton.1 hin]
      decide
  | [_], hsplit =>
      simp only [List.cons_append, List.nil_append, List.cons.injEq] at hsplit
      obtain ⟨rfl, rfl, rfl⟩ := hsplit
      refine ⟨fun hin => ?_, fun hin => (by cases hin)⟩
      rw [List.mem_singleton.1 hin]
      decide
  | _ :: _ :: pre, hsplit => simp at hsplit

/-- Listed the other way around, a cycle that runs out of time in the first process is
followed by one that skips the second: its page is never marked. -/
theorem not_coversOnce_descending :
    ¬CoversOnce samePageCodec ScanEnv.ok.bits onePageEach [pidFive, pidThree] ∧
      (markCycles samePageCodec
        { ScanEnv.ok with clock := fun tick => if tick < 4 then 0 else 50000000 }
        [pidFive, pidThree] 2 (.fresh onePageEach)).1 = [(5, 0x1000)] ∧
      (markCycles samePageCodec
        { ScanEnv.ok with clock := fun tick => if tick < 4 then 0 else 50000000 }
        [pidFive, pidThree] 2 (.fresh onePageEach)).2.sweeping = true := by
  refine ⟨fun hcovers => ?_, rfl, rfl⟩
  have hordered := ordered_of_coversOnce (population_onePageEach (by decide) (by simp)) hcovers
  have hafter := (hordered [] pidFive [pidThree] rfl (hasScanned_onePageEach rfl) pidThree 0x1000
    (eligible_onePageEach rfl)).2 (List.mem_singleton.2 rfl)
  exact absurd hafter (by decide)

end MiniMem
