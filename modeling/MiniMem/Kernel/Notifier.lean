import Mathlib.Algebra.BigOperators.Group.Multiset.Basic
import Mathlib.Algebra.Order.Group.Int
import MiniMem.Machine
import MiniMem.XArray

/-!
# MiniMem.Kernel.Notifier

Deferred registration of the MMU notifier.  A call of
`minimem_mmu_register_deferred` takes a reference on the address space and
puts it in the pending set; a worker moves the pending address spaces into
an array of its own, registers each under its write lock and drops the
reference, or puts it back when it does not get the lock.

The pending set holds an address space once, however many references were
taken for it.  A reference is lost at every `xa_store` that finds its
address space pending already, and at every one that fails.
-/

namespace MiniMem

/-! ## The parties -/

/-- A worker behind its first `spin_unlock`: at the head of its loop with the entries left
to do, or with the first of them behind a failed or a successful `down_write_trylock`. -/
inductive Worker where
  | walk (todo : List Nat)
  | failed (mm : Nat) (todo : List Nat)
  | locked (mm : Nat) (todo : List Nat)
  deriving DecidableEq, Repr

/-- The address spaces a worker still holds a reference on. -/
def Worker.entries : Worker → List Nat
  | .walk todo => todo
  | .failed mm todo => mm :: todo
  | .locked mm todo => mm :: todo

/-- The pending set, the calls of `minimem_mmu_register_deferred` that have their reference
and are about to enqueue, the workers, and how many references were taken and dropped. -/
structure Notifier where
  pending : XArray Unit
  calls : Multiset Nat
  workers : Multiset Worker
  gets : Nat → Nat
  puts : Nat → Nat

/-- Nothing is pending and nobody is at work. -/
def Notifier.init : Notifier := ⟨∅, 0, 0, fun _ => 0, fun _ => 0⟩

/-- The steps, each as far as the next point where another thread can come in between. -/
inductive NotifierOp where
  | get (mm : Nat) (mmget : Bool)
  | store (mm : Nat) (xaStore : Bool)
  | collect (kmalloc : Bool) (krealloc : Nat → Bool)
  | trylock (mm : Nat) (todo : List Nat) (lock : Bool)
  | requeue (mm : Nat) (todo : List Nat) (xaStore : Bool)
  | put (mm : Nat) (todo : List Nat)
  | finish

/-- The loop under the spinlock: the array grows by doubling from 32 and the loop ends where
`krealloc` fails. -/
def collectEntries (krealloc : Nat → Bool) : List Nat → Nat → Nat → List Nat → List Nat
  | [], _, _, entries => entries
  | mm :: mms, cap, reallocs, entries =>
      if entries.length ≥ cap then
        if krealloc reallocs then
          collectEntries krealloc mms (cap * 2) (reallocs + 1) (entries ++ [mm])
        else entries
      else collectEntries krealloc mms cap reallocs (entries ++ [mm])

/-- `xa_store(&minimem_pending_mms, mm, mm, GFP_ATOMIC)`, whose result nobody looks at. -/
def enqueue (pending : XArray Unit) (mm : Nat) (xaStore : Bool) : XArray Unit :=
  if xaStore then pending.store mm () else pending

/-- One step, where it is enabled. -/
def notifierStep (s : Notifier) : NotifierOp → Option Notifier
  | .get mm mmget =>
      if mmget then
        some { s with
          calls := mm ::ₘ s.calls, gets := Function.update s.gets mm (s.gets mm + 1) }
      else some s
  | .store mm xaStore =>
      if mm ∈ s.calls then
        some { s with pending := enqueue s.pending mm xaStore, calls := s.calls.erase mm }
      else none
  | .collect kmalloc krealloc =>
      if kmalloc then
        let entries := collectEntries krealloc s.pending.keys 32 0 []
        some { s with
          pending := entries.foldl XArray.erase s.pending
          workers := .walk entries ::ₘ s.workers }
      else some s
  | .trylock mm todo lock =>
      if .walk (mm :: todo) ∈ s.workers then
        let worker := if lock then .locked mm todo else .failed mm todo
        some { s with workers := worker ::ₘ s.workers.erase (.walk (mm :: todo)) }
      else none
  | .requeue mm todo xaStore =>
      if .failed mm todo ∈ s.workers then
        some { s with
          pending := enqueue s.pending mm xaStore
          workers := .walk todo ::ₘ s.workers.erase (.failed mm todo) }
      else none
  | .put mm todo =>
      if .locked mm todo ∈ s.workers then
        some { s with
          workers := .walk todo ::ₘ s.workers.erase (.locked mm todo)
          puts := Function.update s.puts mm (s.puts mm + 1) }
      else none
  | .finish =>
      if .walk [] ∈ s.workers then some { s with workers := s.workers.erase (.walk []) }
      else none

/-- The pending set is empty, no call is in progress and no worker runs. -/
structure Quiescent (s : Notifier) : Prop where
  pending : ∀ mm, s.pending.load mm = none
  calls : s.calls = 0
  workers : s.workers = 0

/-! ## Where the references are -/

/-- How often an address space is in the pending set. -/
def pendingCount (pending : XArray Unit) (mm : Nat) : Nat :=
  if pending.load mm = none then 0 else 1

/-- How many references on an address space the workers hold. -/
def workersCount (workers : Multiset Worker) (mm : Nat) : Nat :=
  (workers.map fun worker => worker.entries.count mm).sum

/-- The references on an address space that are still going to be dropped. -/
def Notifier.held (s : Notifier) (mm : Nat) : Nat :=
  pendingCount s.pending mm + s.calls.count mm + workersCount s.workers mm

/-- The references taken that were neither dropped nor are going to be. -/
def Notifier.lost (s : Notifier) (mm : Nat) : Int := s.gets mm - s.puts mm - s.held mm

/-- What an `xa_store` of one address space loses of another. -/
def lossAt (pending : XArray Unit) (mm : Nat) (xaStore : Bool) (mm' : Nat) : Nat :=
  if mm' = mm ∧ ¬(xaStore = true ∧ pending.load mm = none) then 1 else 0

theorem pendingCount_enqueue (pending : XArray Unit) (mm : Nat) (xaStore : Bool) (mm' : Nat) :
    pendingCount (enqueue pending mm xaStore) mm' + lossAt pending mm xaStore mm' =
      pendingCount pending mm' + if mm' = mm then 1 else 0 := by
  unfold pendingCount enqueue lossAt
  cases xaStore with
  | false => by_cases hmm : mm' = mm <;> simp [hmm]
  | true =>
      by_cases hmm : mm' = mm
      · subst hmm
        cases pending.load mm' <;> simp
      · simp [hmm, XArray.load_store]

/-- A worker that goes on to its next step. -/
theorem workersCount_replace {workers : Multiset Worker} {worker : Worker}
    (h : worker ∈ workers) (next : Worker) (mm : Nat) :
    workersCount (next ::ₘ workers.erase worker) mm + worker.entries.count mm =
      workersCount workers mm + next.entries.count mm := by
  have hsum := @Multiset.sum_map_erase _ _ _ _ (fun worker : Worker => worker.entries.count mm) _ _ h
  simp only [workersCount, Multiset.map_cons, Multiset.sum_cons]
  omega

/-- A worker that has one address space less in its hands. -/
theorem workersCount_pop {workers : Multiset Worker} {worker : Worker} (h : worker ∈ workers)
    {mm : Nat} {todo : List Nat} (hentries : worker.entries = mm :: todo) (mm' : Nat) :
    workersCount (.walk todo ::ₘ workers.erase worker) mm' + (if mm' = mm then 1 else 0) =
      workersCount workers mm' := by
  have hworker := workersCount_replace h (.walk todo) mm'
  have hwalk : (Worker.walk todo).entries = todo := rfl
  simp only [hentries, hwalk, List.count_cons, beq_iff_eq] at hworker
  by_cases hmm : mm' = mm
  · simp only [hmm, if_true] at hworker ⊢
    omega
  · simp only [if_neg hmm, if_neg (Ne.symm hmm)] at hworker ⊢
    omega

/-- A worker that has nothing in its hands. -/
theorem workersCount_finish {workers : Multiset Worker} (h : .walk [] ∈ workers) (mm : Nat) :
    workersCount (workers.erase (.walk [])) mm = workersCount workers mm := by
  have hsum := @Multiset.sum_map_erase _ _ _ _ (fun worker : Worker => worker.entries.count mm) _ _ h
  have hnil : (Worker.walk []).entries.count mm = 0 := rfl
  simp only [workersCount]
  omega

theorem update_succ (f : Nat → Nat) (mm mm' : Nat) :
    Function.update f mm (f mm + 1) mm' = f mm' + if mm' = mm then 1 else 0 := by
  by_cases hmm : mm' = mm
  · rw [hmm, Function.update_self, if_pos rfl]
  · rw [Function.update_of_ne hmm, if_neg hmm, Nat.add_zero]

/-- What the loop collects is the front of what is pending. -/
theorem collectEntries_prefix (krealloc : Nat → Bool) (mms : List Nat) (cap reallocs : Nat)
    (entries : List Nat) :
    collectEntries krealloc mms cap reallocs entries <+: entries ++ mms := by
  induction mms generalizing cap reallocs entries with
  | nil => simp [collectEntries]
  | cons mm mms ih =>
      have hstep : ∀ cap reallocs,
          collectEntries krealloc mms cap reallocs (entries ++ [mm]) <+: entries ++ mm :: mms := by
        intro cap reallocs
        simpa using ih cap reallocs (entries ++ [mm])
      unfold collectEntries
      split
      · split
        · exact hstep _ _
        · exact List.prefix_append _ _
      · exact hstep _ _

/-- Collecting moves references from the pending set to the worker. -/
theorem pendingCount_collect (krealloc : Nat → Bool) (pending : XArray Unit) (mm : Nat) :
    pendingCount ((collectEntries krealloc pending.keys 32 0 []).foldl XArray.erase pending) mm +
      (collectEntries krealloc pending.keys 32 0 []).count mm = pendingCount pending mm := by
  have hinit : collectEntries krealloc pending.keys 32 0 [] <+: pending.keys :=
    collectEntries_prefix krealloc pending.keys 32 0 []
  have hnodup := Std.ExtTreeMap.nodup_keys (t := pending) |>.sublist hinit.sublist
  unfold pendingCount
  rw [XArray.load_foldl_erase]
  by_cases hmem : mm ∈ collectEntries krealloc pending.keys 32 0 []
  · rw [if_pos hmem, if_pos rfl, List.count_eq_one_of_mem hnodup hmem,
      if_neg (XArray.mem_keys_iff_load.1 (hinit.subset hmem))]
  · rw [if_neg hmem, List.count_eq_zero_of_not_mem hmem, Nat.add_zero]

/-! ## One step -/

/-- What a step loses of the references on an address space. -/
def NotifierOp.loss (s : Notifier) : NotifierOp → Nat → Nat
  | .store mm xaStore, mm' => lossAt s.pending mm xaStore mm'
  | .requeue mm _ xaStore, mm' => lossAt s.pending mm xaStore mm'
  | _, _ => 0

/-- Every `xa_store` succeeds and finds its address space not pending. -/
def QueuesVacant (s : Notifier) : NotifierOp → Prop
  | .store mm xaStore => xaStore = true ∧ s.pending.load mm = none
  | .requeue mm _ xaStore => xaStore = true ∧ s.pending.load mm = none
  | _ => True

theorem loss_eq_zero_iff (s : Notifier) (op : NotifierOp) :
    (∀ mm, op.loss s mm = 0) ↔ QueuesVacant s op := by
  have hat : ∀ mm xaStore, (∀ mm', lossAt s.pending mm xaStore mm' = 0) ↔
      (xaStore = true ∧ s.pending.load mm = none) := by
    intro mm xaStore
    unfold lossAt
    constructor
    · intro h
      by_contra hnot
      have hself := h mm
      rw [if_pos ⟨rfl, hnot⟩] at hself
      cases hself
    · intro h mm'
      rw [if_neg (fun hloss => hloss.2 h)]
  cases op with
  | store mm xaStore => exact hat mm xaStore
  | requeue mm todo xaStore => exact hat mm xaStore
  | _ => simp [NotifierOp.loss, QueuesVacant]

section Steps

variable {s s' : Notifier}

/-- A call that takes a reference has it. -/
theorem lost_get {mm : Nat} {mmget : Bool}
    (h : notifierStep s (.get mm mmget) = some s') (mm' : Nat) :
    s'.lost mm' = s.lost mm' + (NotifierOp.get mm mmget).loss s mm' := by
  unfold notifierStep at h
  dsimp only at h
  split at h
  · injection h with h
    subst h
    have hgets := update_succ s.gets mm mm'
    have hcalls := Multiset.count_cons mm' mm s.calls
    simp only [Notifier.lost, Notifier.held, NotifierOp.loss]
    omega
  · injection h with h
    simp [h, NotifierOp.loss]

/-- The reference goes to the queue, or is lost at the `xa_store`. -/
theorem lost_store {mm : Nat} {xaStore : Bool}
    (h : notifierStep s (.store mm xaStore) = some s') (mm' : Nat) :
    s'.lost mm' = s.lost mm' + (NotifierOp.store mm xaStore).loss s mm' := by
  unfold notifierStep at h
  dsimp only at h
  split at h
  next hmem =>
    injection h with h
    subst h
    have hqueue := pendingCount_enqueue s.pending mm xaStore mm'
    have hcalls := congrArg (Multiset.count mm') (Multiset.cons_erase hmem)
    rw [Multiset.count_cons] at hcalls
    simp only [Notifier.lost, Notifier.held, NotifierOp.loss]
    omega
  · cases h

/-- The worker takes over what it collects. -/
theorem lost_collect {kmalloc : Bool} {krealloc : Nat → Bool}
    (h : notifierStep s (.collect kmalloc krealloc) = some s') (mm' : Nat) :
    s'.lost mm' = s.lost mm' + (NotifierOp.collect kmalloc krealloc).loss s mm' := by
  unfold notifierStep at h
  dsimp only at h
  split at h
  · injection h with h
    subst h
    have hcollect := pendingCount_collect krealloc s.pending mm'
    simp only [Notifier.lost, Notifier.held, NotifierOp.loss, workersCount, Multiset.map_cons,
      Multiset.sum_cons, Worker.entries]
    omega
  · injection h with h
    simp [h, NotifierOp.loss]

/-- A walk keeps its references over the lock. -/
theorem lost_trylock {mm : Nat} {todo : List Nat} {lock : Bool}
    (h : notifierStep s (.trylock mm todo lock) = some s') (mm' : Nat) :
    s'.lost mm' = s.lost mm' + (NotifierOp.trylock mm todo lock).loss s mm' := by
  unfold notifierStep at h
  dsimp only at h
  split at h
  next hmem =>
    injection h with h
    subst h
    have hworker := workersCount_replace hmem (if lock then .locked mm todo else .failed mm todo)
      mm'
    have hentries : (if lock then Worker.locked mm todo else Worker.failed mm todo).entries =
        (Worker.walk (mm :: todo)).entries := by
      cases lock <;> rfl
    rw [hentries] at hworker
    simp only [Notifier.lost, Notifier.held, NotifierOp.loss]
    omega
  · cases h

/-- A reference goes back to the queue, or is lost at the `xa_store`. -/
theorem lost_requeue {mm : Nat} {todo : List Nat} {xaStore : Bool}
    (h : notifierStep s (.requeue mm todo xaStore) = some s') (mm' : Nat) :
    s'.lost mm' = s.lost mm' + (NotifierOp.requeue mm todo xaStore).loss s mm' := by
  unfold notifierStep at h
  dsimp only at h
  split at h
  next hmem =>
    injection h with h
    subst h
    have hqueue := pendingCount_enqueue s.pending mm xaStore mm'
    have hworker := workersCount_pop hmem rfl mm'
    simp only [Notifier.lost, Notifier.held, NotifierOp.loss]
    omega
  · cases h

/-- The worker drops one. -/
theorem lost_put {mm : Nat} {todo : List Nat}
    (h : notifierStep s (.put mm todo) = some s') (mm' : Nat) :
    s'.lost mm' = s.lost mm' + (NotifierOp.put mm todo).loss s mm' := by
  unfold notifierStep at h
  dsimp only at h
  split at h
  next hmem =>
    injection h with h
    subst h
    have hputs := update_succ s.puts mm mm'
    have hworker := workersCount_pop hmem rfl mm'
    simp only [Notifier.lost, Notifier.held, NotifierOp.loss]
    omega
  · cases h

/-- A worker that ends has none. -/
theorem lost_finish
    (h : notifierStep s .finish = some s') (mm' : Nat) :
    s'.lost mm' = s.lost mm' + NotifierOp.finish.loss s mm' := by
  unfold notifierStep at h
  dsimp only at h
  split at h
  next hmem =>
    injection h with h
    subst h
    have hworker := workersCount_finish hmem mm'
    simp only [Notifier.lost, Notifier.held, NotifierOp.loss]
    omega
  · cases h

/-- A step moves references between the parties and takes and drops them in step with the
counters; what it loses, it loses at an `xa_store`. -/
theorem lost_step {op : NotifierOp} (h : notifierStep s op = some s') (mm' : Nat) :
    s'.lost mm' = s.lost mm' + op.loss s mm' := by
  cases op with
  | get mm mmget => exact lost_get h mm'
  | store mm xaStore => exact lost_store h mm'
  | collect kmalloc krealloc => exact lost_collect h mm'
  | trylock mm todo lock => exact lost_trylock h mm'
  | requeue mm todo xaStore => exact lost_requeue h mm'
  | put mm todo => exact lost_put h mm'
  | finish => exact lost_finish h mm'

end Steps

/-! ## Runs -/

/-- A step that queues at a vacant place only loses nothing, any other loses something. -/
theorem lost_eq_iff {s s' : Notifier} {op : NotifierOp} (h : notifierStep s op = some s') :
    s'.lost = s.lost ↔ QueuesVacant s op := by
  rw [← loss_eq_zero_iff, funext_iff]
  apply forall_congr'
  intro mm
  rw [lost_step h mm]
  omega

theorem lost_le {s : Notifier} {op : NotifierOp} {s' : Notifier}
    (h : notifierStep s op = some s') : s.lost ≤ s'.lost := by
  intro mm
  rw [lost_step h mm]
  exact Int.le_add_of_nonneg_right (Int.natCast_nonneg _)

@[simp] theorem lost_init (mm : Nat) : Notifier.init.lost mm = 0 := by
  simp [Notifier.lost, Notifier.held, Notifier.init, pendingCount, workersCount]

/-- At rest, what was taken and not dropped is lost. -/
theorem Quiescent.lost_eq {s : Notifier} (h : Quiescent s) (mm : Nat) :
    s.lost mm = s.gets mm - s.puts mm := by
  simp [Notifier.lost, Notifier.held, h.pending mm, h.calls, h.workers, pendingCount,
    workersCount]

/-- No worker ever drops a reference that was not taken. -/
theorem puts_le_gets {s : Notifier} {ops : List NotifierOp}
    (h : ops.foldlM notifierStep .init = some s) (mm : Nat) : s.puts mm ≤ s.gets mm := by
  have hlost : Notifier.init.lost mm ≤ s.lost mm :=
    foldlM_measure_le (μ := Notifier.lost) (fun _ _ _ => lost_le) h mm
  rw [lost_init, Notifier.lost] at hlost
  omega

/-- **Deferred registration conserves references**: a run that has come to rest has dropped
as many references on every address space as it has taken, exactly when every `xa_store`
of it succeeded and found its address space not pending. -/
theorem puts_eq_gets_iff {s : Notifier} {ops : List NotifierOp}
    (h : ops.foldlM notifierStep .init = some s) (hrest : Quiescent s) :
    (∀ mm, s.puts mm = s.gets mm) ↔ Guarded notifierStep QueuesVacant .init ops := by
  rw [← foldlM_measure_eq_iff (fun _ _ _ => lost_le) (fun _ _ _ => lost_eq_iff) h, funext_iff]
  apply forall_congr'
  intro mm
  rw [lost_init, hrest.lost_eq]
  omega

/-- Two address spaces and two workers: the first worker does not get the lock of the one
address space while the other is enqueued, and puts it back for the second worker. -/
def requeued : List NotifierOp :=
  [.get 1 true, .store 1 true, .get 2 true, .collect true fun _ => true, .trylock 1 [] false,
    .store 2 true, .requeue 1 [] true, .collect true fun _ => true, .finish, .trylock 1 [2] true,
    .put 1 [2], .trylock 2 [] true, .put 2 [], .finish]

/-- One address space, enqueued twice before the worker runs. -/
def enqueuedTwice : List NotifierOp :=
  [.get 1 true, .store 1 true, .get 1 true, .store 1 true, .collect true fun _ => true,
    .trylock 1 [] true, .put 1 [], .finish]

theorem quiescent_of_keys {s : Notifier} (hkeys : s.pending.keys = []) (hcalls : s.calls = 0)
    (hworkers : s.workers = 0) : Quiescent s where
  pending mm := by
    by_contra hmm
    have hmem := XArray.mem_keys_iff_load.2 hmm
    rw [hkeys] at hmem
    cases hmem
  calls := hcalls
  workers := hworkers

/-- Enqueued again by the worker that took it out, an address space keeps its reference, and
both references are dropped. -/
theorem puts_eq_gets_requeued : ∃ s, requeued.foldlM notifierStep .init = some s ∧
    Quiescent s ∧ ∀ mm, s.puts mm = s.gets mm := by
  have hguarded : Guarded notifierStep QueuesVacant .init requeued := by
    refine guarded_cons_of_step rfl trivial (guarded_cons_of_step rfl ⟨rfl, rfl⟩ ?_)
    refine guarded_cons_of_step rfl trivial (guarded_cons_of_step rfl trivial ?_)
    refine guarded_cons_of_step rfl trivial (guarded_cons_of_step rfl ⟨rfl, rfl⟩ ?_)
    refine guarded_cons_of_step rfl ⟨rfl, rfl⟩ (guarded_cons_of_step rfl trivial ?_)
    refine guarded_cons_of_step rfl trivial (guarded_cons_of_step rfl trivial ?_)
    refine guarded_cons_of_step rfl trivial (guarded_cons_of_step rfl trivial ?_)
    exact guarded_cons_of_step rfl trivial (guarded_cons_of_step rfl trivial trivial)
  have hrest : (requeued.foldlM notifierStep .init).map
      (fun s => (s.pending.keys, s.calls, s.workers)) = some ([], 0, 0) := by
    decide
  cases hrun : requeued.foldlM notifierStep .init with
  | none =>
      rw [hrun] at hrest
      cases hrest
  | some s =>
      simp only [hrun, Option.map_some, Option.some.injEq, Prod.mk.injEq] at hrest
      have hquiescent := quiescent_of_keys hrest.1 hrest.2.1 hrest.2.2
      exact ⟨s, rfl, hquiescent, (puts_eq_gets_iff hrun hquiescent).2 hguarded⟩

/-- Enqueued twice, one of its two references is never dropped. -/
theorem puts_ne_gets_enqueued_twice : ∃ s, enqueuedTwice.foldlM notifierStep .init = some s ∧
    Quiescent s ∧ s.gets 1 = 2 ∧ s.puts 1 = 1 := by
  have hrest : (enqueuedTwice.foldlM notifierStep .init).map
      (fun s => (s.pending.keys, s.calls, s.workers, s.gets 1, s.puts 1)) =
        some ([], 0, 0, 2, 1) := by
    decide
  cases hrun : enqueuedTwice.foldlM notifierStep .init with
  | none =>
      rw [hrun] at hrest
      cases hrest
  | some s =>
      simp only [hrun, Option.map_some, Option.some.injEq, Prod.mk.injEq] at hrest
      exact ⟨s, rfl, quiescent_of_keys hrest.1 hrest.2.1 hrest.2.2.1, hrest.2.2.2⟩

end MiniMem
