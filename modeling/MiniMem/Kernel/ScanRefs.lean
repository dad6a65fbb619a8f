import MiniMem.Kernel.Scanner
import MiniMem.Kernel.Unload

/-!
# MiniMem.Kernel.ScanRefs

The references that the two walks over all processes take on address spaces.
`get_task_mm` takes one and `mmget_not_zero` another,

```
users(mm) + 1 + 1 - 1
```

and a single `mmput` gives up one of the two, whether the address space is
then walked or its lock is not to be had.  So a walk leaves `mm_users` alone
exactly when it takes both references of no process that it reaches.
-/

namespace MiniMem

/-! ## References -/

theorem mmPut_mmGet (users : Nat → Int) (mm : Nat) : mmPut (mmGet users mm) mm = users := by
  simp [mmPut, mmGet]

theorem le_mmGet (users : Nat → Int) (mm : Nat) : users ≤ mmGet users mm := by
  rw [mmGet, le_update_iff]
  exact ⟨by omega, fun _ _ => le_rfl⟩

theorem mmGet_ne (users : Nat → Int) (mm : Nat) : mmGet users mm ≠ users := by
  intro h
  have hmm := congrFun h mm
  rw [mmGet, Function.update_self] at hmm
  omega

/-! ## The scanner -/

/-- The address space that a cycle takes two references on when it comes to a process. -/
def Cursor.takes (cursor : Cursor) (task : ScanTask) : Option Nat :=
  if cursor.skips task.pid then none
  else if task.mmget then task.mm else none

section Cycle

variable {codec : Codec} {env : ScanEnv} {startTime : Int} {sweep : Bool} {b : Batch}
  {task : ScanTask}

/-- The walk over the VMAs takes and gives up no reference. -/
theorem users_scanMm (pid mm vmaStart : Nat) (b : Batch) :
    (scanMm codec env startTime sweep pid mm vmaStart b).scan.users = b.scan.users := by
  have hclosed : PassClosed codec fun s => s.users = b.scan.users :=
    ⟨fun h _ husers => husers.trans h, fun _ _ _ _ h => h⟩
  exact hclosed.scanClosed.scanMm env startTime sweep pid mm vmaStart rfl

/-- A process that is skipped leaves nothing behind. -/
theorem scanTask_of_takes_none (h : (b.scan.cursor sweep).takes task = none) :
    scanTask codec env startTime sweep b task = b := by
  unfold Cursor.takes at h
  unfold scanTask
  dsimp only
  split
  · rfl
  next hskip =>
    rw [if_neg hskip] at h
    split
    · rfl
    next mm hmm =>
      have hmmget : task.mmget = false := by
        cases hmmget : task.mmget with
        | false => rfl
        | true => simp [hmmget, hmm] at h
      rw [if_pos hmmget]
      show { b with scan := { b.scan with users := mmPut (mmGet b.scan.users mm) mm } } = b
      rw [mmPut_mmGet]

/-- Of every other process one reference is left. -/
theorem users_scanTask_of_takes {mm : Nat} (h : (b.scan.cursor sweep).takes task = some mm) :
    (scanTask codec env startTime sweep b task).scan.users = mmGet b.scan.users mm := by
  unfold Cursor.takes at h
  split at h
  · cases h
  next hskip =>
    split at h
    next hmmget =>
      unfold scanTask
      dsimp only
      rw [if_neg hskip, h]
      dsimp only
      rw [if_neg (by simp [hmmget])]
      split
      · show mmPut (mmGet (mmGet b.scan.users mm) mm) mm = _
        rw [mmPut_mmGet]
      · show mmPut (scanMm _ _ _ _ _ _ _ _).scan.users mm = _
        rw [users_scanMm]
        show mmPut (mmGet (mmGet b.scan.users mm) mm) mm = _
        rw [mmPut_mmGet]
    · cases h

/-- No cycle gives up more than it has taken. -/
theorem le_users_scanTask (b : Batch) (task : ScanTask) :
    b.scan.users ≤ (scanTask codec env startTime sweep b task).scan.users := by
  cases h : (b.scan.cursor sweep).takes task with
  | none => rw [scanTask_of_takes_none h]
  | some mm =>
      rw [users_scanTask_of_takes h]
      exact le_mmGet _ _

theorem le_users_scanTasks (tasks : List ScanTask) (b : Batch) :
    b.scan.users ≤ (scanTasks codec env startTime sweep tasks b).scan.users := by
  induction tasks generalizing b with
  | nil => exact le_rfl
  | cons task tasks ih =>
      unfold scanTasks
      split
      · exact le_rfl
      split
      · exact le_rfl
      · exact le_trans (le_users_scanTask (b.update Scanner.ticked) task) (ih _)

/-- From `tick` on, no process takes references that is reached before the thread is told
to stop. -/
def TakesNothing (env : ScanEnv) (cursor : Cursor) (tick : Nat) (tasks : List ScanTask) : Prop :=
  ∀ i task, tasks[i]? = some task → (∀ j ≤ i, env.stop (tick + j) = false) →
    cursor.takes task = none

theorem takesNothing_nil (env : ScanEnv) (cursor : Cursor) (tick : Nat) :
    TakesNothing env cursor tick [] := by
  intro i task h
  simp at h

theorem takesNothing_cons {cursor : Cursor} {tick : Nat} {tasks : List ScanTask} :
    TakesNothing env cursor tick (task :: tasks) ↔
      (env.stop tick = false → cursor.takes task = none ∧
        TakesNothing env cursor (tick + 1) tasks) := by
  constructor
  · intro h hgo
    refine ⟨h 0 task rfl fun j hj => ?_, fun i task' htask hstops => ?_⟩
    · obtain rfl : j = 0 := by omega
      exact hgo
    · refine h (i + 1) task' htask fun j hj => ?_
      cases j with
      | zero => exact hgo
      | succ j =>
          have hnext := hstops j (by omega)
          rwa [Nat.add_right_comm, Nat.add_assoc] at hnext
  · intro h i task' htask hstops
    obtain ⟨hnone, htail⟩ := h (hstops 0 (by omega))
    cases i with
    | zero =>
        injection htask with htask
        rw [← htask]
        exact hnone
    | succ i =>
        refine htail i task' htask fun j hj => ?_
        have hnext := hstops (j + 1) (by omega)
        rwa [Nat.add_right_comm, Nat.add_assoc]

theorem users_scanTasks_iff (tasks : List ScanTask) {b : Batch} (h : b.exhausted = false) :
    (scanTasks codec env startTime sweep tasks b).scan.users = b.scan.users ↔
      TakesNothing env (b.scan.cursor sweep) b.scan.tick tasks := by
  induction tasks generalizing b with
  | nil => exact iff_of_true rfl (takesNothing_nil _ _ _)
  | cons task tasks ih =>
      rw [takesNothing_cons]
      unfold scanTasks
      split
      next hstop => exact iff_of_true rfl fun hgo => by rw [hgo] at hstop; cases hstop
      next hstop =>
        rw [Bool.not_eq_true] at hstop
        have hcursor : (b.update Scanner.ticked).scan.cursor sweep = b.scan.cursor sweep := by
          cases sweep <;> rfl
        rw [if_neg (by simp [h])]
        cases htakes : (b.scan.cursor sweep).takes task with
        | none =>
            rw [scanTask_of_takes_none (by rw [hcursor, htakes])]
            have hrest := ih (b := b.update Scanner.ticked) h
            rw [hcursor] at hrest
            simp only [hstop, true_and, forall_const]
            exact hrest
        | some mm =>
            refine iff_of_false (fun hsame => ?_) fun hnone => ?_
            · have htaken := @users_scanTask_of_takes codec env startTime sweep
                (b.update Scanner.ticked) task mm (by rw [hcursor, htakes])
              have hle := @le_users_scanTasks codec env startTime sweep tasks
                (scanTask codec env startTime sweep (b.update Scanner.ticked) task)
              rw [hsame, htaken] at hle
              exact mmGet_ne _ _ (le_antisymm hle (le_mmGet _ _))
            · cases (hnone hstop).1

end Cycle

/-- The last steps of a cycle take and give up no reference. -/
theorem users_finish (b : Batch) (sweep : Bool) : (b.finish sweep).scan.users = b.scan.users := by
  unfold Batch.finish
  cases sweep <;> cases b.exhausted <;> rfl

/-- A cycle leaves every `mm_users` alone exactly when it does not run, or takes the
references of no process that it reaches. -/
theorem users_scanBatchVma_iff (codec : Codec) (env : ScanEnv) (tasks : List ScanTask)
    (s : Scanner) :
    (scanBatchVma codec env tasks s).scan.users = s.users ↔
      (s.sweeping = true ∧ env.markerReady = false) ∨
        TakesNothing env (s.cursor s.sweeping) (s.tick + 1) tasks := by
  unfold scanBatchVma
  split
  next hskip =>
    simp only [Bool.and_eq_true, Bool.not_eq_true'] at hskip
    exact iff_of_true rfl (.inl hskip)
  next hskip =>
    simp only [Bool.and_eq_true, Bool.not_eq_true'] at hskip
    rw [users_finish, or_iff_right hskip]
    have hcursor : s.ticked.cursor s.sweeping = s.cursor s.sweeping := by
      unfold Scanner.cursor
      rfl
    have htasks := @users_scanTasks_iff codec env (env.clock s.tick) s.sweeping tasks
      ⟨s.ticked, env.markBudgetPages, maxBatchPages, false, [], 0⟩ rfl
    rw [hcursor] at htasks
    exact htasks

/-! ## The walk at unload -/

/-- The walk over one process, with `mm_users`. -/
def drainProcessUsers (codec : Codec) (acc : (Nat × Kernel) × (Nat → Int)) (task : DrainTask) :
    (Nat × Kernel) × (Nat → Int) :=
  let (walk, users) := acc
  match task.mm with
  | none => (walk, users)
  | some mm =>
      let users := mmGet users mm
      if task.mmget = false then (walk, mmPut users mm)
      else
        let users := mmGet users mm
        if task.trylock = false then (walk, mmPut users mm)
        else ((walk.2.mms mm).vmas.foldl (drainVma codec task.pages mm) walk, mmPut users mm)

/-- `minimem_zswap_drain_and_restore`, with `mm_users`. -/
def drainAndRestoreUsers (codec : Codec) (tasks : List DrainTask) (k : Kernel)
    (users : Nat → Int) : (Nat × Kernel) × (Nat → Int) :=
  if k.map.count = 0 then ((0, k), users)
  else tasks.foldl (drainProcessUsers codec) ((0, k), users)

/-- The address space that the walk takes two references on when it comes to a process. -/
def DrainTask.takes (task : DrainTask) : Option Nat := if task.mmget then task.mm else none

section Drain

variable (codec : Codec)

theorem drainProcessUsers_fst (acc : (Nat × Kernel) × (Nat → Int)) (task : DrainTask) :
    (drainProcessUsers codec acc task).1 = drainProcess codec acc.1 task := by
  obtain ⟨walk, users⟩ := acc
  unfold drainProcessUsers drainProcess
  cases task.mm with
  | none => rfl
  | some mm =>
      dsimp only
      split
      · rfl
      · split <;> rfl

theorem drainProcessUsers_snd (acc : (Nat × Kernel) × (Nat → Int)) (task : DrainTask) :
    (drainProcessUsers codec acc task).2 =
      match task.takes with
      | none => acc.2
      | some mm => mmGet acc.2 mm := by
  obtain ⟨walk, users⟩ := acc
  unfold drainProcessUsers DrainTask.takes
  cases task.mm with
  | none => simp
  | some mm => cases task.mmget <;> cases task.trylock <;> simp [mmPut_mmGet]

/-- The walk with the references is the walk. -/
theorem drainAndRestoreUsers_fst (tasks : List DrainTask) (k : Kernel) (users : Nat → Int) :
    (drainAndRestoreUsers codec tasks k users).1 = drainAndRestore codec tasks k := by
  have hwalk : ∀ acc : (Nat × Kernel) × (Nat → Int),
      (tasks.foldl (drainProcessUsers codec) acc).1 = tasks.foldl (drainProcess codec) acc.1 := by
    induction tasks with
    | nil => exact fun _ => rfl
    | cons task tasks ih =>
        intro acc
        rw [List.foldl_cons, ih, drainProcessUsers_fst, List.foldl_cons]
  unfold drainAndRestoreUsers drainAndRestore
  split
  · rfl
  · exact hwalk _

theorem le_drainProcessUsers (acc : (Nat × Kernel) × (Nat → Int)) (task : DrainTask) :
    acc.2 ≤ (drainProcessUsers codec acc task).2 := by
  rw [drainProcessUsers_snd]
  split
  · exact le_rfl
  · exact le_mmGet _ _

theorem le_foldl_drainProcessUsers (tasks : List DrainTask)
    (acc : (Nat × Kernel) × (Nat → Int)) :
    acc.2 ≤ (tasks.foldl (drainProcessUsers codec) acc).2 := by
  induction tasks generalizing acc with
  | nil => exact le_rfl
  | cons task tasks ih => exact le_trans (le_drainProcessUsers codec acc task) (ih _)

theorem foldl_drainProcessUsers_iff (tasks : List DrainTask)
    (acc : (Nat × Kernel) × (Nat → Int)) :
    (tasks.foldl (drainProcessUsers codec) acc).2 = acc.2 ↔ ∀ task ∈ tasks, task.takes = none := by
  induction tasks generalizing acc with
  | nil => simp
  | cons task tasks ih =>
      rw [List.foldl_cons, List.forall_mem_cons]
      have hsnd := drainProcessUsers_snd codec acc task
      cases htakes : task.takes with
      | none =>
          have hsame : (drainProcessUsers codec acc task).2 = acc.2 := by rw [hsnd, htakes]
          rw [← hsame, ih]
          simp
      | some mm =>
          rw [htakes] at hsnd
          refine iff_of_false (fun hsame => ?_) fun hnone => by cases hnone.1
          have hle := le_foldl_drainProcessUsers codec tasks (drainProcessUsers codec acc task)
          rw [hsame, hsnd] at hle
          exact mmGet_ne _ _ (le_antisymm hle (le_mmGet _ _))

end Drain

/-! ## Balance -/

/-- **References balance** in a cycle of the scanner and in the walk at unload exactly when
they take both references of no process that they reach. -/
theorem users_balanced_iff (codec : Codec) (env : ScanEnv) (tasks : List ScanTask) (s : Scanner)
    (drained : List DrainTask) (k : Kernel) (users : Nat → Int) :
    ((scanBatchVma codec env tasks s).scan.users = s.users ↔
      (s.sweeping = true ∧ env.markerReady = false) ∨
        TakesNothing env (s.cursor s.sweeping) (s.tick + 1) tasks) ∧
    ((drainAndRestoreUsers codec drained k users).2 = users ↔
      k.map.count = 0 ∨ ∀ task ∈ drained, task.takes = none) := by
  refine ⟨users_scanBatchVma_iff codec env tasks s, ?_⟩
  unfold drainAndRestoreUsers
  split
  next hempty => exact iff_of_true rfl (.inl hempty)
  next hfull => rw [foldl_drainProcessUsers_iff, or_iff_right hfull]

/-- A cycle over one process, and the walk at unload over it, all of whose steps succeed:
the address space had one reference and has two. -/
theorem users_not_balanced :
    (scanBatchVma samePageCodec .ok [⟨1, some 0, true, true⟩] (.fresh .blank)).scan.users ≠
        (Scanner.fresh .blank).users ∧
      (drainAndRestoreUsers samePageCodec
        [⟨some 0, true, true, fun _ => ⟨true, true, true, true, .same⟩⟩] .oneMarker fun _ => 1).2 ≠
        fun _ => 1 := by
  constructor
  · intro h
    have htwo : (2 : Int) = 1 := congrFun h 0
    omega
  · intro h
    have htwo : (2 : Int) = 1 := congrFun h 0
    omega

end MiniMem
