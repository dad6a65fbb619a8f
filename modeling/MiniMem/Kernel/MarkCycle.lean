import MiniMem.Kernel.MarkWalk

/-!
# MiniMem.Kernel.MarkCycle

One mark cycle of the scanner as a walk that halts and goes on later, process
by process.

The stations of the walk are the processes in the order of
`for_each_process`, their keys the pids, and their work the pages that a mark
pass would mark.
-/

namespace MiniMem

/-! ## The processes -/

/-- The place of a cursor, none when it is not valid. -/
def Cursor.place (cursor : Cursor) : Option (Nat × Nat) :=
  if cursor.valid then some (cursor.pid, cursor.addr) else none

/-- A cursor leaves what it does not skip, from where it starts. -/
theorem pending_place {cursor : Cursor} {pid x : Nat} :
    Pending cursor.place (pid, x) ↔ cursor.skips pid = false ∧ cursor.startAddr pid ≤ x := by
  unfold Cursor.place Cursor.skips Cursor.startAddr
  cases cursor.valid with
  | false => simp [pending_none]
  | true =>
      rw [if_pos rfl, pending_some]
      simp only [Bool.true_and, decide_eq_false_iff_not, not_lt, decide_eq_true_eq]
      split <;> omega

/-- The scanner can mark pages of a process only at these addresses. -/
def Slot (k : Kernel) (task : ScanTask) (x : Nat) : Prop :=
  ∃ mm, task.mm = some mm ∧ InVmas (k.mms mm).vmas x

/-- A page of a process that is to be marked. -/
def Eligible (bits : Nat → PageBits) (k : Kernel) (task : ScanTask) (x : Nat) : Prop :=
  ∃ mm, task.mm = some mm ∧ InVmas (k.mms mm).vmas x ∧ Markable bits k mm x

/-- A process with a VMA that the scanner enters, so that a cycle can halt there. -/
def HasScanned (k : Kernel) (task : ScanTask) : Prop :=
  ∃ mm, task.mm = some mm ∧ ∃ vma ∈ (k.mms mm).vmas, vma.scanned = true

theorem Slot.hasScanned {k : Kernel} {task : ScanTask} {x : Nat} (h : Slot k task x) :
    HasScanned k task := by
  obtain ⟨mm, hmm, vma, hvma, hscanned, -⟩ := h
  exact ⟨mm, hmm, vma, hvma, hscanned⟩

/-- How often a cycle asks something in a process. -/
def taskCost (cursor : Cursor) (k : Kernel) (task : ScanTask) : Nat :=
  if cursor.skips task.pid then 0
  else
    match task.mm with
    | none => 0
    | some mm => vmasCost (cursor.startAddr task.pid)
        ((k.mms mm).vmas.filter fun vma => decide (cursor.startAddr task.pid < vma.stop))

/-- How a mark cycle leaves a process: it has marked what was left there, and asked for the
time if there was anything, or it has halted at an address. -/
inductive TaskEnd (env : ScanEnv) (startTime : Int) (k : Kernel) (task : ScanTask) (b b' : Batch)
    (new : List Nat) : Prop
  | through (hexhausted : b'.exhausted = false)
      (hcursor : b'.scan.markCursor = b.scan.markCursor ∨
        ((b.scan.markCursor.valid = true ∧ task.pid = b.scan.markCursor.pid) ∧
          b'.scan.markCursor = { b.scan.markCursor with addr := 0 }))
      (hnew : Enumerates new fun x =>
        Pending b.scan.markCursor.place (task.pid, x) ∧ Eligible env.bits k task x)
      (htime : (∃ x, Slot k task x ∧ Pending b.scan.markCursor.place (task.pid, x)) →
        ∃ t, b.scan.tick ≤ t ∧ cpuBudgetExpired env startTime t = false)
  | halted {e x : Nat} (hexhausted : b'.exhausted = true)
      (hcursor : b'.scan.markCursor = ⟨task.pid, e, true⟩) (haligned : pageSize ∣ e)
      (hplace : Pending b.scan.markCursor.place (task.pid, e))
      (hnew : Enumerates new fun x =>
        Pending b.scan.markCursor.place (task.pid, x) ∧ Eligible env.bits k task x ∧ x < e)
      (hslot : Slot k task x) (hpending : Pending b.scan.markCursor.place (task.pid, x))
      (hlt : x < e)

/-- A process in which there is nothing to do. -/
theorem TaskEnd.idle {env : ScanEnv} {startTime : Int} {k : Kernel} {task : ScanTask} {b : Batch}
    (hexhausted : b.exhausted = false)
    (hnone : ∀ x, Slot k task x → ¬Pending b.scan.markCursor.place (task.pid, x)) :
    TaskEnd env startTime k task b b [] := by
  refine .through hexhausted (.inl rfl) (.nil fun x h => ?_) fun ⟨x, hslot, hpending⟩ =>
    absurd hpending (hnone x hslot)
  obtain ⟨hpending, mm, hmm, hin, -⟩ := h
  exact hnone x ⟨mm, hmm, hin⟩ hpending

/-- A pass has nothing to do with the references to address spaces. -/
theorem MarkPass.users {env : ScanEnv} {startTime : Int} {cost : Nat} {b b' : Batch}
    {new : List (Nat × Nat)} {f g : Scanner → Nat → Int}
    (h : MarkPass env startTime cost (b.update fun s => { s with users := f s }) b' new) :
    MarkPass env startTime cost b (b'.update fun s => { s with users := g s }) new :=
  ⟨h.kernel, h.sweeping, h.marked, h.remaining, h.length, h.tick_le, h.tick_eq, h.left, h.spent⟩

theorem MarkEnd.users {env : ScanEnv} {startTime : Int} {pid start : Nat} {P M : Nat → Prop}
    {b b' : Batch} {new : List Nat} {f g : Scanner → Nat → Int}
    (h : MarkEnd env startTime pid start P M (b.update fun s => { s with users := f s }) b' new) :
    MarkEnd env startTime pid start P M b (b'.update fun s => { s with users := g s }) new := by
  cases h with
  | through hexhausted hcursor hnew htime => exact .through hexhausted hcursor hnew htime
  | halted hexhausted hcursor haligned hnew hslot hstart hlt =>
      exact .halted hexhausted hcursor haligned hnew hslot hstart hlt

/-- How a pass over its address space ends is how the cycle leaves the process. -/
theorem MarkEnd.taskEnd {env : ScanEnv} {startTime : Int} {task : ScanTask} {mm : Nat}
    {b b' : Batch} {new : List Nat}
    (h : MarkEnd env startTime task.pid (b.scan.markCursor.startAddr task.pid)
      (InVmas (b.scan.kernel.mms mm).vmas) (Markable env.bits b.scan.kernel mm) b b' new)
    (hskip : b.scan.markCursor.skips task.pid = false) (hmm : task.mm = some mm) :
    TaskEnd env startTime b.scan.kernel task b b' new := by
  have hpending : ∀ x, Pending b.scan.markCursor.place (task.pid, x) ↔
      b.scan.markCursor.startAddr task.pid ≤ x := by
    intro x
    rw [pending_place, hskip]
    simp
  have hslot : ∀ x, Slot b.scan.kernel task x ↔ InVmas (b.scan.kernel.mms mm).vmas x := by
    intro x
    simp [Slot, hmm]
  have heligible : ∀ x, Eligible env.bits b.scan.kernel task x ↔
      InVmas (b.scan.kernel.mms mm).vmas x ∧ Markable env.bits b.scan.kernel mm x := by
    intro x
    simp [Eligible, hmm]
  cases h with
  | through hexhausted hcursor hnew htime =>
      refine .through hexhausted hcursor (hnew.congr fun x => ?_) ?_
      · rw [hpending, heligible]
        tauto
      · rintro ⟨x, hx, hle⟩
        exact htime ⟨x, (hslot x).1 hx, (hpending x).1 hle⟩
  | halted hexhausted hcursor haligned hnew hx hle hlt =>
      refine .halted hexhausted hcursor haligned ((hpending _).2 (by omega))
        (hnew.congr fun x => ?_) ((hslot _).2 hx) ((hpending _).2 hle) hlt
      rw [hpending, heligible]
      tauto

section Task

variable {env : ScanEnv} (henv : env.Steady)
include henv

/-- Under the lock of an address space. -/
theorem scanMm_mark (codec : Codec) (startTime : Int) (pid mm : Nat) {b : Batch}
    (hvmas : VmasOk (b.scan.kernel.mms mm).vmas) (hexhausted : b.exhausted = false)
    (hleft : 0 < b.remaining)
    (haligned : b.scan.markCursor.valid = true → pageSize ∣ b.scan.markCursor.addr) :
    ∃ new, MarkPass env startTime (vmasCost (b.scan.markCursor.startAddr pid)
        ((b.scan.kernel.mms mm).vmas.filter fun vma =>
          decide (b.scan.markCursor.startAddr pid < vma.stop))) b
        (scanMm codec env startTime false pid mm (b.scan.markCursor.startAddr pid) b)
        (new.map fun x => (pid, x)) ∧
      MarkEnd env startTime pid (b.scan.markCursor.startAddr pid)
        (InVmas (b.scan.kernel.mms mm).vmas) (fun x => Markable env.bits b.scan.kernel mm x) b
        (scanMm codec env startTime false pid mm (b.scan.markCursor.startAddr pid) b) new := by
  have hstart : pageSize ∣ b.scan.markCursor.startAddr pid := by
    unfold Cursor.startAddr
    split
    next hown =>
      rw [Bool.and_eq_true] at hown
      exact haligned hown.1
    · exact Nat.dvd_zero _
  generalize hfrom : b.scan.markCursor.startAddr pid = start at hstart ⊢
  have hbehind : ∀ vma ∈ (b.scan.kernel.mms mm).vmas.filter fun vma => decide (start < vma.stop),
      start < vma.stop := by
    intro vma hvma
    simpa using (List.mem_filter.1 hvma).2
  have henter : ∀ vma ∈ (b.scan.kernel.mms mm).vmas.filter fun vma => decide (start < vma.stop),
      vma.scanned = true → b.scan.markCursor.enter pid vma = max start vma.start := by
    intro vma hvma _
    have hlt := hbehind vma hvma
    rw [← hfrom] at hlt ⊢
    unfold Cursor.startAddr at hlt ⊢
    unfold Cursor.enter
    by_cases hown : (b.scan.markCursor.valid && decide (pid = b.scan.markCursor.pid)) = true
    · rw [if_pos hown] at hlt ⊢
      rw [hown]
      simp only [Bool.true_and, Bool.and_eq_true, decide_eq_true_eq]
      split <;> omega
    · rw [if_neg hown, if_neg (by simp [hown])]
      omega
  obtain ⟨n', b', new, hvisit, hpass, hend⟩ := scanVmas_mark henv codec startTime pid mm start
    hstart _ (hvmas.filter fun vma => decide (start < vma.stop)) hbehind 0 hexhausted hleft henter
  have hmm : scanMm codec env startTime false pid mm start b = b' := by
    rw [scanMm, hvisit]
    simp
  rw [hmm]
  refine ⟨new, hpass, hend.congr fun x hx => ?_⟩
  constructor
  · rintro ⟨vma, hvma, h⟩
    exact ⟨vma, List.mem_of_mem_filter hvma, h⟩
  · rintro ⟨vma, hvma, hscanned, h⟩
    refine ⟨vma, List.mem_filter.2 ⟨hvma, ?_⟩, hscanned, h⟩
    obtain ⟨hvstart, -⟩ := hvmas.aligned vma hvma
    have hxs := ((mem_pagesFrom hvstart).1 h).2.1
    simp only [decide_eq_true_eq]
    omega

/-- **One process** in a mark cycle. -/
theorem scanTask_mark (codec : Codec) (startTime : Int) {task : ScanTask}
    (hlocks : task.mmget = true ∧ task.trylock = true) {b : Batch}
    (hvmas : ∀ mm, VmasOk (b.scan.kernel.mms mm).vmas) (hexhausted : b.exhausted = false)
    (hleft : 0 < b.remaining)
    (haligned : b.scan.markCursor.valid = true → pageSize ∣ b.scan.markCursor.addr) :
    ∃ new, MarkPass env startTime (taskCost b.scan.markCursor b.scan.kernel task) b
        (scanTask codec env startTime false b task) (new.map fun x => (task.pid, x)) ∧
      TaskEnd env startTime b.scan.kernel task b (scanTask codec env startTime false b task)
        new := by
  have hcursor : b.scan.cursor false = b.scan.markCursor := rfl
  unfold scanTask taskCost
  dsimp only
  rw [hcursor]
  split
  next hskip =>
    refine ⟨[], .idle 0 rfl rfl rfl rfl rfl hexhausted hleft, .idle hexhausted fun x _ h => ?_⟩
    rw [pending_place, hskip] at h
    cases h.1
  next hskip =>
    rw [Bool.not_eq_true] at hskip
    cases hmm : task.mm with
    | none =>
        refine ⟨[], .idle 0 rfl rfl rfl rfl rfl hexhausted hleft, .idle hexhausted fun x h _ => ?_⟩
        obtain ⟨mm, hmm', -⟩ := h
        rw [hmm] at hmm'
        cases hmm'
    | some mm =>
        dsimp only
        rw [if_neg (by simp [hlocks.1]), if_neg (by simp [hlocks.2])]
        obtain ⟨new, hpass, hend⟩ := scanMm_mark henv codec startTime task.pid mm
          (b := b.update fun s => { s with users := mmGet (mmGet s.users mm) mm })
          (hvmas mm) hexhausted hleft haligned
        refine ⟨new, hpass.users, MarkEnd.taskEnd ?_ hskip hmm⟩
        exact hend.users

end Task

/-- How often a cycle asks something. -/
def tasksCost (cursor : Cursor) (k : Kernel) : List ScanTask → Nat
  | [] => 0
  | task :: tasks => (1 + taskCost cursor k task) + tasksCost cursor k tasks

/-- The cursor as a cycle began, or without its address when the process in which it was has
been dealt with. -/
def CursorFor (cursor cursor' : Cursor) (tasks : List ScanTask) : Prop :=
  cursor' = cursor ∨ (cursor' = { cursor with addr := 0 } ∧ ∀ task ∈ tasks, task.pid ≠ cursor.pid)

/-- For the processes to come it is the same cursor. -/
theorem CursorFor.same {cursor cursor' : Cursor} {tasks : List ScanTask}
    (h : CursorFor cursor cursor' tasks) {task : ScanTask} (htask : task ∈ tasks) (k : Kernel) :
    taskCost cursor' k task = taskCost cursor k task ∧
      ∀ x, Pending cursor'.place (task.pid, x) ↔ Pending cursor.place (task.pid, x) := by
  rcases h with rfl | ⟨rfl, hne⟩
  · exact ⟨rfl, fun x => Iff.rfl⟩
  · have hown : (cursor.valid && decide (task.pid = cursor.pid)) = false := by
      simp [hne task htask]
    have hskips : ({ cursor with addr := 0 } : Cursor).skips task.pid = cursor.skips task.pid := rfl
    have hstart : ({ cursor with addr := 0 } : Cursor).startAddr task.pid =
        cursor.startAddr task.pid := by
      unfold Cursor.startAddr
      dsimp only
      rw [hown]
      rfl
    unfold taskCost
    rw [hskips, hstart]
    refine ⟨rfl, fun x => ?_⟩
    rw [pending_place, pending_place, hskips, hstart]

theorem CursorFor.aligned {cursor cursor' : Cursor} {tasks : List ScanTask}
    (h : CursorFor cursor cursor' tasks) (haligned : cursor.valid = true → pageSize ∣ cursor.addr) :
    cursor'.valid = true → pageSize ∣ cursor'.addr := by
  rcases h with rfl | ⟨rfl, -⟩
  · exact haligned
  · exact fun _ => Nat.dvd_zero _

/-- Behind the process in which the cursor is, it may have lost its address. -/
theorem CursorFor.behind {cursor cursor' cursor'' : Cursor} {task : ScanTask}
    {tasks : List ScanTask} (h : CursorFor cursor cursor' (task :: tasks))
    (hpids : ((task :: tasks).map ScanTask.pid).Nodup)
    (hmoved : cursor'' = cursor' ∨ ((cursor'.valid = true ∧ task.pid = cursor'.pid) ∧
      cursor'' = { cursor' with addr := 0 })) : CursorFor cursor cursor'' tasks := by
  rw [List.map_cons, List.nodup_cons] at hpids
  rcases h with rfl | ⟨rfl, hne⟩
  · rcases hmoved with hsame | ⟨⟨-, hpid⟩, hzero⟩
    · exact .inl hsame
    · refine .inr ⟨hzero, fun t ht => ?_⟩
      rw [← hpid]
      exact fun h => hpids.1 (h ▸ List.mem_map_of_mem ht)
  · refine .inr ⟨?_, fun t ht => hne t (List.mem_cons_of_mem _ ht)⟩
    rcases hmoved with hsame | ⟨-, hzero⟩
    · exact hsame
    · exact hzero

/-- The work in one process as work of the cycle, whose cursor leaves the same of it. -/
theorem Enumerates.station {cursor cursor' : Cursor} {pid : Nat} {new : List Nat}
    {Q : Nat → Prop} (h : Enumerates new fun x => Pending cursor'.place (pid, x) ∧ Q x)
    (hplace : ∀ x, Pending cursor'.place (pid, x) ↔ Pending cursor.place (pid, x)) :
    Enumerates (new.map fun x => (pid, x)) fun y =>
      Pending cursor.place y ∧ pid = y.1 ∧ Q y.2 := by
  refine (h.tag pid).congr fun y => ?_
  obtain ⟨key, x⟩ := y
  constructor
  · rintro ⟨rfl, hp, hq⟩
    exact ⟨(hplace x).1 hp, rfl, hq⟩
  · rintro ⟨hp, rfl, hq⟩
    exact ⟨rfl, (hplace x).2 hp, hq⟩

/-- A cycle that is cut short. -/
theorem MarkPass.halt {env : ScanEnv} {startTime : Int} {cost cost' : Nat} {b b' b'' : Batch}
    {new : List (Nat × Nat)} (h : MarkPass env startTime cost b b' new)
    (hexhausted : b'.exhausted = true) (hticked : b'' = b' ∨ b'' = b'.update Scanner.ticked)
    (hcost : cost ≤ cost') : MarkPass env startTime cost' b b'' new := by
  have hlength := h.length
  have hspent : b'.remaining = 0 ∨ ∃ t, b.scan.tick ≤ t ∧ t < b.scan.tick + cost' ∧
      cpuBudgetExpired env startTime t = true := by
    rcases h.spent hexhausted with hzero | ⟨t, hle, hlt, hexpired⟩
    · exact .inl hzero
    · exact .inr ⟨t, hle, by omega, hexpired⟩
  rcases hticked with rfl | rfl
  · exact ⟨h.kernel, h.sweeping, h.marked, h.remaining, by omega, h.tick_le,
      fun hdone => (by rw [hexhausted] at hdone; cases hdone), h.left, fun _ => hspent⟩
  · exact ⟨h.kernel, h.sweeping, h.marked, h.remaining, by omega,
      h.tick_le.trans (Nat.le_succ _), fun hdone => (by
        have hdone' : b'.exhausted = false := hdone
        rw [hexhausted] at hdone'
        cases hdone'), h.left, fun _ => hspent⟩

/-- How a mark cycle ends: it is a leg that goes through the list or that halts, behind an
address at which there was something to do. -/
inductive CycleEnd (bits : Nat → PageBits) (k : Kernel) (tasks : List ScanTask)
    (cursor : Cursor) (b' : Batch) (new : List (Nat × Nat)) : Prop
  | through (hexhausted : b'.exhausted = false)
      (hvalid : b'.scan.markCursor.valid = cursor.valid)
      (hleg : Leg ScanTask.pid (Eligible bits k) (HasScanned k) tasks cursor.place new none)
  | halted {p : ScanTask} {e x : Nat} (hexhausted : b'.exhausted = true) (hp : p ∈ tasks)
      (hcursor : b'.scan.markCursor = ⟨p.pid, e, true⟩) (haligned : pageSize ∣ e)
      (hleg : Leg ScanTask.pid (Eligible bits k) (HasScanned k) tasks cursor.place new
        (some (p.pid, e)))
      (hslot : Slot k p x) (hpending : Pending cursor.place (p.pid, x)) (hlt : x < e)

section Cycle

variable {env : ScanEnv} (henv : env.Steady)

theorem scanTasks_of_exhausted (henv : env.Steady) (codec : Codec) (startTime : Int) (sweep : Bool)
    (tasks : List ScanTask) {b : Batch} (h : b.exhausted = true) :
    scanTasks codec env startTime sweep tasks b = b ∨
      scanTasks codec env startTime sweep tasks b = b.update Scanner.ticked := by
  cases tasks with
  | nil => exact .inl rfl
  | cons task tasks =>
      right
      rw [scanTasks, henv.stop, if_neg (by decide), if_pos h]

include henv

/-- **The loop over the processes** in a mark cycle. -/
theorem scanTasks_mark (codec : Codec) (startTime : Int) {k : Kernel}
    (hvmas : ∀ mm, VmasOk (k.mms mm).vmas) (tasks : List ScanTask)
    (hpids : (tasks.map ScanTask.pid).Nodup)
    (hlocks : ∀ task ∈ tasks, task.mmget = true ∧ task.trylock = true) {cursor : Cursor}
    (haligned : cursor.valid = true → pageSize ∣ cursor.addr) {b : Batch}
    (hkernel : b.scan.kernel = k)
    (hexhausted : b.exhausted = false) (hleft : 0 < b.remaining)
    (hcursor : CursorFor cursor b.scan.markCursor tasks) :
    ∃ new, MarkPass env startTime (tasksCost cursor k tasks) b
        (scanTasks codec env startTime false tasks b) new ∧
      CycleEnd env.bits k tasks cursor (scanTasks codec env startTime false tasks b) new := by
  induction tasks generalizing b with
  | nil =>
      refine ⟨[], .idle 0 rfl rfl rfl rfl rfl hexhausted hleft, .through hexhausted ?_ (.nil _)⟩
      rcases hcursor with heq | ⟨heq, -⟩ <;> rw [scanTasks, heq]
  | cons task tasks ih =>
      rw [scanTasks, henv.stop, if_neg (by decide), hexhausted, if_neg (by decide)]
      obtain ⟨hcost, hpendingIff⟩ := hcursor.same (List.mem_cons_self ..) k
      have halignedB := hcursor.aligned haligned
      have hasked : MarkPass env startTime 1 b (b.update Scanner.ticked) [] :=
        .idle 1 rfl rfl rfl rfl rfl hexhausted hleft
      obtain ⟨new, hpass, hend⟩ := @scanTask_mark env henv codec startTime task
        (hlocks task (List.mem_cons_self ..)) (b.update Scanner.ticked)
        (by show ∀ mm, VmasOk (b.scan.kernel.mms mm).vmas; rw [hkernel]; exact hvmas)
        hexhausted hleft halignedB
      generalize hb₁ : scanTask codec env startTime false (b.update Scanner.ticked) task = b₁
        at hpass hend ⊢
      have hcostB : taskCost (b.update Scanner.ticked).scan.markCursor
          (b.update Scanner.ticked).scan.kernel task = taskCost cursor k task := by
        rw [← hcost, ← hkernel]
        rfl
      have hkernelB : (b.update Scanner.ticked).scan.kernel = k := hkernel
      have hcursorB : (b.update Scanner.ticked).scan.markCursor = b.scan.markCursor := rfl
      rw [hcostB] at hpass
      rw [hkernelB] at hend
      have hfirst := hasked.trans hexhausted hpass
      rw [List.nil_append] at hfirst
      cases hend with
      | through hdone hmoved hnew _ =>
          have hcursor₁ : CursorFor cursor b₁.scan.markCursor tasks := by
            rw [hcursorB] at hmoved
            exact hcursor.behind hpids hmoved
          obtain ⟨new', hpass', hend'⟩ := @ih (List.nodup_cons.1 hpids).2
            (fun t ht => hlocks t (List.mem_cons_of_mem _ ht)) b₁ (hpass.kernel.trans hkernel) hdone
            (hpass.left hdone) hcursor₁
          rw [hcursorB] at hnew
          have hout := hnew.station hpendingIff
          refine ⟨_, hfirst.trans hdone hpass', ?_⟩
          cases hend' with
          | through hexhausted' hvalid hleg =>
              exact .through hexhausted' hvalid (hleg.cons hpids hout)
          | halted hexhausted' hp hcursor' haddr hleg hslot hpending hlt =>
              exact .halted hexhausted' (List.mem_cons_of_mem _ hp) hcursor' haddr
                (hleg.cons hpids hout) hslot hpending hlt
      | @halted e x hdone hmoved haddr hplace hnew hslot hpending hlt =>
          rw [hcursorB] at hplace hnew hpending
          have hticked := scanTasks_of_exhausted henv codec startTime false tasks hdone
          have hcursor' : (scanTasks codec env startTime false tasks b₁).scan.markCursor =
              ⟨task.pid, e, true⟩ := by
            rcases hticked with h | h <;> rw [h] <;> exact hmoved
          have hexhausted' : (scanTasks codec env startTime false tasks b₁).exhausted = true := by
            rcases hticked with h | h <;> rw [h] <;> exact hdone
          refine ⟨_, hfirst.halt hdone hticked (Nat.le_add_right _ _), ?_⟩
          refine .halted hexhausted' (List.mem_cons_self ..) hcursor' haddr ?_ hslot
            ((hpendingIff x).1 hpending) hlt
          exact Leg.first tasks hslot.hasScanned ((hpendingIff e).1 hplace)
            (hnew.station hpendingIff)

/-- What a mark cycle comes to: the phase flips, or the cursor is left at an address behind
one at which there was something to do, because a budget is used up. -/
inductive Cycled (env : ScanEnv) (k : Kernel) (tasks : List ScanTask) (s : Scanner) (b : Batch) :
    Prop
  | flips (hsweeping : b.scan.sweeping = true) (hvalid : b.scan.markCursor.valid = false)
      (hleg : Leg ScanTask.pid (Eligible env.bits k) (HasScanned k) tasks s.markCursor.place
        b.marked none)
  | halts {p : ScanTask} {e x : Nat} (hsweeping : b.scan.sweeping = false) (hp : p ∈ tasks)
      (hcursor : b.scan.markCursor = ⟨p.pid, e, true⟩) (haligned : pageSize ∣ e)
      (hleg : Leg ScanTask.pid (Eligible env.bits k) (HasScanned k) tasks s.markCursor.place
        b.marked (some (p.pid, e)))
      (hslot : Slot k p x) (hpending : Pending s.markCursor.place (p.pid, x)) (hlt : x < e)
      (hspent : env.markBudgetPages ≤ tasksCost s.markCursor k tasks ∨
        ∃ t, s.tick < t ∧ cpuBudgetExpired env (env.clock s.tick) t = true)

/-- **One mark cycle.** -/
theorem scanBatchVma_mark (codec : Codec) {tasks : List ScanTask}
    (hpids : (tasks.map ScanTask.pid).Nodup)
    (hlocks : ∀ task ∈ tasks, task.mmget = true ∧ task.trylock = true) {s : Scanner}
    (hvmas : ∀ mm, VmasOk (s.kernel.mms mm).vmas)
    (haligned : s.markCursor.valid = true → pageSize ∣ s.markCursor.addr)
    (hsweeping : s.sweeping = false) :
    (scanBatchVma codec env tasks s).scan.kernel = s.kernel ∧
      s.tick ≤ (scanBatchVma codec env tasks s).scan.tick ∧
      Cycled env s.kernel tasks s (scanBatchVma codec env tasks s) := by
  obtain ⟨new, hpass, hend⟩ := @scanTasks_mark env henv codec (env.clock s.tick) s.kernel hvmas tasks
    hpids hlocks s.markCursor haligned
    ⟨s.ticked, env.markBudgetPages, maxBatchPages, false, [], 0⟩ rfl rfl henv.budget (.inl rfl)
  rw [scanBatchVma, if_neg (by simp [hsweeping]), hsweeping]
  generalize hb : scanTasks codec env (env.clock s.tick) false tasks
    ⟨s.ticked, env.markBudgetPages, maxBatchPages, false, [], 0⟩ = b at hpass hend ⊢
  have hmarked : b.marked = new := hpass.marked
  have htick : s.tick + 1 ≤ b.scan.tick := hpass.tick_le
  have hkernel : b.scan.kernel = s.kernel := hpass.kernel
  have hb' : b.scan.sweeping = false := hpass.sweeping.trans hsweeping
  unfold Batch.finish
  rw [if_neg (by decide)]
  cases hend with
  | through hdone _ hleg =>
      rw [if_neg (by simp [hdone])]
      refine ⟨hkernel, by show s.tick ≤ b.scan.tick; omega, .flips rfl rfl ?_⟩
      rw [← hmarked] at hleg
      exact hleg
  | halted hdone hp hcursor haddr hleg hslot hpending hlt =>
      rw [if_pos hdone]
      refine ⟨hkernel, by show s.tick ≤ b.scan.tick; omega,
        .halts hb' hp hcursor haddr ?_ hslot hpending hlt ?_⟩
      · rw [← hmarked] at hleg
        exact hleg
      · rcases hpass.spent hdone with hzero | ⟨t, hle, -, hexpired⟩
        · left
          have hremaining : env.markBudgetPages ≤ b.remaining + new.length := hpass.remaining
          have hlength := hpass.length
          omega
        · exact .inr ⟨t, hle, hexpired⟩

end Cycle

end MiniMem
