import Mathlib.Data.Finset.Card
import MiniMem.Machine
import MiniMem.Kernel.Map

/-!
# MiniMem.Kernel.Parallel

Decompression of a cluster of pages on a workqueue.  The dispatcher counts an
item in, queues it, goes on to the next, and at last joins the workers: it
reads the count, and waits for a completion unless it is zero.  A worker
counts itself out and completes when it finds that it was the last.

The count starts at zero and grows item by item, so workers that are fast
enough bring it back to zero before the last item is counted in.
-/

namespace MiniMem

/-! ## The cluster -/

/-- `MINIMEM_MAX_CLUSTER`. -/
def maxCluster : Nat := 32

/-- The values of `parallel_mode`. -/
inductive ParallelMode where
  | disabled
  | enabled
  | auto
  deriving DecidableEq, Repr

/-- `minimem_parallel_is_active`. -/
def parallelIsActive (mode : ParallelMode) (onlineCpus : Nat) : Bool :=
  match mode with
  | .disabled => false
  | .enabled => true
  | .auto => decide (onlineCpus ≥ 2)

/-- Outcomes of the fallible steps of a worker. -/
structure WorkerEnv where
  pool : Bool
  localBuf : Bool
  zsRead : Bool
  kmap : Bool
  deriving DecidableEq, Repr

/-- Outcomes of the fallible steps of the dispatcher, for each item those of its buffer and of
its worker, and whether there is an array for the results. -/
structure ClusterEnv where
  wq : Bool
  mode : ParallelMode
  onlineCpus : Nat
  ctx : Bool
  decompressBuf : Nat → Bool
  workers : Nat → WorkerEnv
  results : Bool

/-- No step fails. -/
def ClusterEnv.ok : ClusterEnv :=
  ⟨true, .enabled, 2, true, fun _ => true, fun _ => ⟨true, true, true, true⟩, true⟩

/-- `struct minimem_cluster_work`. -/
structure ClusterWork where
  vaddr : Nat
  page : Option Nat
  entry : MapEntry
  status : Int
  decompressBuf : Bool
  deriving DecidableEq, Repr

/-- An item as `kzalloc` leaves it. -/
def ClusterWork.zero : ClusterWork := ⟨0, none, ⟨.samePage, 0, 0⟩, 0, false⟩

/-- `struct minimem_decompress_result_km`. -/
structure ClusterResult where
  vaddr : Nat
  algoId : AlgoId
  compressedLen : Nat
  zsHandle : Nat
  status : Int
  deriving DecidableEq, Repr

/-- Where a worker stands: not queued, queued, with its page decompressed, with its status
written, between the count and `complete`, or at its end. -/
inductive WorkerPc where
  | idle
  | queued
  | ran (status : Int)
  | stored
  | completing
  | finished
  deriving DecidableEq, Repr

/-- Where the dispatcher stands: before the lookup of an item, before counting it in, before
queueing it, before reading the count, before `wait_for_completion`, before reading the
status of an item, before `kfree` of the context, before releasing the map, or at its end. -/
inductive DispatchPc where
  | prepare (i : Nat)
  | inc (i : Nat)
  | queue (i : Nat)
  | poll
  | wait
  | collect (i : Nat)
  | free
  | unlock (ret : Int)
  | finished (ret : Int)
  deriving DecidableEq, Repr

/-- The context `struct minimem_cluster_ctx` with its dispatcher and its workers; `done` is how
many completions have been posted and not yet consumed. -/
structure ClusterState where
  kernel : Kernel
  done : Nat
  remaining : Int
  firstError : Int
  items : Nat → ClusterWork
  workers : Nat → WorkerPc
  results : List ClusterResult
  pc : DispatchPc

/-- `minimem_parallel_decompress` up to the loop over the items; `pages` are the page of each
address or none where the caller passes no array. -/
def parallelDecompress (env : ClusterEnv) (k : Kernel) (vaddrs : List (Nat × Option Nat)) :
    Except Int ClusterState :=
  if vaddrs.length = 0 ∨ vaddrs.length > maxCluster then .error einval
  else if env.wq = false ∨ parallelIsActive env.mode env.onlineCpus = false then .error enodev
  else if env.ctx = false then .error enomem
  else .ok ⟨k, 0, 0, 0, fun _ => .zero, fun _ => .idle, [], .prepare 0⟩

/-- `if (ctx->first_error == 0) ctx->first_error = err;`. -/
def ClusterState.fail (s : ClusterState) (err : Int) : ClusterState :=
  { s with firstError := if s.firstError = 0 then err else s.firstError }

/-- One step of `minimem_parallel_decompress`. -/
def dispatchStep (env : ClusterEnv) (vaddrs : List (Nat × Option Nat)) (s : ClusterState) :
    Option ClusterState :=
  match s.pc with
  | .prepare i =>
      match vaddrs[i]? with
      | none => some { s with pc := .poll }
      | some (vaddr, page) =>
          match mapLookup s.kernel.map vaddr with
          | none =>
              let item := { s.items i with status := enoent, decompressBuf := false }
              some { s.fail enoent with
                items := Function.update s.items i item, pc := .prepare (i + 1) }
          | some entry =>
              let item := { s.items i with entry := entry, vaddr := vaddr, page := page }
              if page.isNone ∧ env.decompressBuf i = false then
                some { s.fail enomem with
                  items := Function.update s.items i { item with status := enomem },
                  pc := .prepare (i + 1) }
              else
                some { s with
                  items := Function.update s.items i { item with decompressBuf := page.isNone },
                  pc := .inc i }
  | .inc i => some { s with remaining := s.remaining + 1, pc := .queue i }
  | .queue i =>
      some { s with workers := Function.update s.workers i .queued, pc := .prepare (i + 1) }
  | .poll => some { s with pc := if s.remaining > 0 then .wait else .collect 0 }
  | .wait => if s.done = 0 then none else some { s with done := s.done - 1, pc := .collect 0 }
  | .collect i =>
      if i < vaddrs.length then
        let item := s.items i
        let result := ⟨item.vaddr, item.entry.algoId, item.entry.compressedLen,
          item.entry.zsHandle, item.status⟩
        let s := if item.status ≠ 0 then s.fail item.status else s
        some { s with
          items := Function.update s.items i { item with decompressBuf := false },
          results := if env.results then s.results ++ [result] else s.results,
          pc := .collect (i + 1) }
      else some { s with pc := .free }
  | .free => some { s with pc := .unlock s.firstError }
  | .unlock ret => some { s with pc := .finished ret }
  | .finished _ => none

/-- What a worker makes of its item: the status, and the page written where there is one. -/
def clusterWork (codec : Codec) (env : WorkerEnv) (k : Kernel) (item : ClusterWork) :
    Int × Kernel :=
  if env.pool = false then (enodev, k)
  else if env.localBuf = false then (enomem, k)
  else if env.zsRead = false then (eio, k)
  else if item.page.isSome ∧ env.kmap = false then (efault, k)
  else
    match k.decode codec item.entry with
    | none => (Status.error.code, k)
    | some page =>
        (0, match item.page with
          | some pfn => k.writeFrame pfn page
          | none => k)

/-- One step of `minimem_cluster_worker` on item `i`. -/
def workerStep (codec : Codec) (env : ClusterEnv) (s : ClusterState) (i : Nat) :
    Option ClusterState :=
  match s.workers i with
  | .queued =>
      let (status, k) := clusterWork codec (env.workers i) s.kernel (s.items i)
      some { s with kernel := k, workers := Function.update s.workers i (.ran status) }
  | .ran status =>
      some { s with
        items := Function.update s.items i { s.items i with status := status },
        workers := Function.update s.workers i .stored }
  | .stored =>
      some { s with
        remaining := s.remaining - 1,
        workers := Function.update s.workers i
          (if s.remaining - 1 = 0 then .completing else .finished) }
  | .completing =>
      some { s with done := s.done + 1, workers := Function.update s.workers i .finished }
  | _ => none

/-- Who steps. -/
inductive ClusterLabel where
  | dispatcher
  | worker (i : Nat)
  deriving DecidableEq, Repr

/-- One step of the dispatcher or of a worker. -/
def clusterStep (codec : Codec) (env : ClusterEnv) (vaddrs : List (Nat × Option Nat))
    (s : ClusterState) : ClusterLabel → Option ClusterState
  | .dispatcher => dispatchStep env vaddrs s
  | .worker i => workerStep codec env s i

/-! ## The join -/

/-- The dispatcher is past the join: it reads statuses, frees the context or releases the
map. -/
def DispatchPc.joined : DispatchPc → Bool
  | .collect _ => true
  | .free => true
  | .unlock _ => true
  | .finished _ => true
  | _ => false

/-- A worker is still going to access the context. -/
def WorkerPc.active : WorkerPc → Bool
  | .idle => false
  | .finished => false
  | _ => true

/-- The dispatcher is past the join only once no worker is going to access the context any
more. -/
def JoinSound (s : ClusterState) : Prop :=
  s.pc.joined = true → ∀ i, (s.workers i).active = false

/-- When the dispatcher reads the count, no worker is between counting itself out and its
`complete`, and if the count is not zero then no completion has been posted. -/
def JoinReady (s : ClusterState) (label : ClusterLabel) : Prop :=
  label = .dispatcher → s.pc = .poll →
    (∀ i, s.workers i ≠ .completing) ∧ (0 < s.remaining → s.done = 0)

/-! ## Counting -/

/-- A worker that is queued and has not counted itself out. -/
def WorkerPc.counted : WorkerPc → Bool
  | .queued => true
  | .ran _ => true
  | .stored => true
  | _ => false

/-- A worker that is active is counted in, or about to complete. -/
theorem WorkerPc.active_eq (pc : WorkerPc) :
    pc.active = (pc.counted || decide (pc = .completing)) := by
  cases pc <;> rfl

/-- The workers that have not counted themselves out. -/
def countedWorkers (n : Nat) (workers : Nat → WorkerPc) : Finset Nat :=
  (Finset.range n).filter fun i => (workers i).counted = true

section Counted

variable {n i : Nat} {workers : Nat → WorkerPc} {pc : WorkerPc}

theorem mem_countedWorkers {j : Nat} :
    j ∈ countedWorkers n workers ↔ j < n ∧ (workers j).counted = true := by
  simp [countedWorkers]

/-- A worker that stays counted, or stays out, changes nothing. -/
theorem countedWorkers_stay (h : pc.counted = (workers i).counted) :
    countedWorkers n (Function.update workers i pc) = countedWorkers n workers := by
  ext j
  rw [mem_countedWorkers, mem_countedWorkers]
  by_cases hji : j = i
  · rw [hji, Function.update_self, h]
  · rw [Function.update_of_ne hji]

/-- A worker that comes in is one more. -/
theorem card_countedWorkers_enter (hi : i < n) (h : (workers i).counted = false)
    (hpc : pc.counted = true) :
    (countedWorkers n (Function.update workers i pc)).card
      = (countedWorkers n workers).card + 1 := by
  have hnot : i ∉ countedWorkers n workers := by
    rw [mem_countedWorkers, h]
    simp
  rw [← Finset.card_insert_of_notMem hnot]
  congr 1
  ext j
  rw [Finset.mem_insert, mem_countedWorkers, mem_countedWorkers]
  by_cases hji : j = i
  · simp [hji, hi, hpc]
  · simp [hji]

/-- A worker that goes out is one less. -/
theorem card_countedWorkers_leave (hi : i < n) (h : (workers i).counted = true)
    (hpc : pc.counted = false) :
    (countedWorkers n (Function.update workers i pc)).card + 1
      = (countedWorkers n workers).card := by
  have hmem : i ∈ countedWorkers n workers := mem_countedWorkers.2 ⟨hi, h⟩
  rw [← Finset.card_erase_add_one hmem]
  congr 2
  ext j
  rw [Finset.mem_erase, mem_countedWorkers, mem_countedWorkers]
  by_cases hji : j = i
  · simp [hji, hpc]
  · simp [hji]

end Counted

/-! ## What a step can do -/

/-- A step leaves the workers, the count and the completions alone. -/
structure SameWork (s s' : ClusterState) : Prop where
  workers : s'.workers = s.workers
  done : s'.done = s.done
  remaining : s'.remaining = s.remaining

/-- Every step of the dispatcher on `n` items is one of these. -/
inductive DispatchMove (n : Nat) (s s' : ClusterState) : Prop
  | prepare (i : Nat) (hpc : s.pc = .prepare i) (hi : i < n)
      (hpc' : s'.pc = .prepare (i + 1) ∨ s'.pc = .inc i) (hsame : SameWork s s')
  | prepared (i : Nat) (hpc : s.pc = .prepare i) (hi : n ≤ i) (hpc' : s'.pc = .poll)
      (hsame : SameWork s s')
  | inc (i : Nat) (hpc : s.pc = .inc i) (hpc' : s'.pc = .queue i)
      (hworkers : s'.workers = s.workers) (hdone : s'.done = s.done)
      (hremaining : s'.remaining = s.remaining + 1)
  | queue (i : Nat) (hpc : s.pc = .queue i) (hpc' : s'.pc = .prepare (i + 1))
      (hworkers : s'.workers = Function.update s.workers i .queued) (hdone : s'.done = s.done)
      (hremaining : s'.remaining = s.remaining)
  | poll (hpc : s.pc = .poll) (hpc' : s'.pc = if s.remaining > 0 then .wait else .collect 0)
      (hsame : SameWork s s')
  | wait (hpc : s.pc = .wait) (hdone : 0 < s.done) (hpc' : s'.pc = .collect 0)
      (hworkers : s'.workers = s.workers) (hremaining : s'.remaining = s.remaining)
  | past (hpc : s.pc.joined = true) (hpc' : s'.pc.joined = true) (hsame : SameWork s s')

/-- What a step of the dispatcher does, one case for each program counter. -/
theorem dispatchStep_move {env : ClusterEnv} {vaddrs : List (Nat × Option Nat)}
    {s s' : ClusterState} (h : dispatchStep env vaddrs s = some s') :
    DispatchMove vaddrs.length s s' := by
  unfold dispatchStep at h
  split at h
  next i hpc =>
    split at h
    next hnone =>
      injection h with h
      subst h
      exact .prepared i hpc (List.getElem?_eq_none_iff.1 hnone) rfl ⟨rfl, rfl, rfl⟩
    next vaddr page hsome =>
      have hi : i < vaddrs.length := (List.getElem?_eq_some_iff.1 hsome).1
      split at h
      · injection h with h
        subst h
        exact .prepare i hpc hi (.inl rfl) ⟨rfl, rfl, rfl⟩
      · dsimp only at h
        split at h
        · injection h with h
          subst h
          exact .prepare i hpc hi (.inl rfl) ⟨rfl, rfl, rfl⟩
        · injection h with h
          subst h
          exact .prepare i hpc hi (.inr rfl) ⟨rfl, rfl, rfl⟩
  next i hpc =>
    injection h with h
    subst h
    exact .inc i hpc rfl rfl rfl rfl
  next i hpc =>
    injection h with h
    subst h
    exact .queue i hpc rfl rfl rfl rfl
  next hpc =>
    injection h with h
    subst h
    exact .poll hpc rfl ⟨rfl, rfl, rfl⟩
  next hpc =>
    split at h
    · cases h
    next hdone =>
      injection h with h
      subst h
      exact .wait hpc (Nat.pos_of_ne_zero hdone) rfl rfl rfl
  next i hpc =>
    split at h
    · injection h with h
      subst h
      refine .past (by rw [hpc]; rfl) rfl ?_
      split <;> exact ⟨rfl, rfl, rfl⟩
    · injection h with h
      subst h
      exact .past (by rw [hpc]; rfl) rfl ⟨rfl, rfl, rfl⟩
  next hpc =>
    injection h with h
    subst h
    exact .past (by rw [hpc]; rfl) rfl ⟨rfl, rfl, rfl⟩
  next ret hpc =>
    injection h with h
    subst h
    exact .past (by rw [hpc]; rfl) rfl ⟨rfl, rfl, rfl⟩
  next ret hpc => cases h

/-- Every step of worker `i` is one of these. -/
inductive WorkerMove (i : Nat) (s s' : ClusterState) : Prop
  | work (pc : WorkerPc) (hold : (s.workers i).counted = true) (hnew : pc.counted = true)
      (hworkers : s'.workers = Function.update s.workers i pc) (hdone : s'.done = s.done)
      (hremaining : s'.remaining = s.remaining) (hpc : s'.pc = s.pc)
  | dec (hold : s.workers i = .stored)
      (hworkers : s'.workers = Function.update s.workers i
        (if s.remaining - 1 = 0 then .completing else .finished))
      (hdone : s'.done = s.done) (hremaining : s'.remaining = s.remaining - 1)
      (hpc : s'.pc = s.pc)
  | complete (hold : s.workers i = .completing)
      (hworkers : s'.workers = Function.update s.workers i .finished)
      (hdone : s'.done = s.done + 1) (hremaining : s'.remaining = s.remaining)
      (hpc : s'.pc = s.pc)

/-- What a step of a worker does, one case for each of its states. -/
theorem workerStep_move {codec : Codec} {env : ClusterEnv} {s s' : ClusterState} {i : Nat}
    (h : workerStep codec env s i = some s') : WorkerMove i s s' := by
  unfold workerStep at h
  split at h
  next hold =>
    injection h with h
    subst h
    exact .work (.ran _) (by rw [hold]; rfl) rfl rfl rfl rfl rfl
  next status hold =>
    injection h with h
    subst h
    exact .work .stored (by rw [hold]; rfl) rfl rfl rfl rfl rfl
  next hold =>
    injection h with h
    subst h
    exact .dec hold rfl rfl rfl rfl
  next hold =>
    injection h with h
    subst h
    exact .complete hold rfl rfl rfl rfl
  · cases h

/-! ## The count -/

/-- The first item that has not been queued. -/
def DispatchPc.next (n : Nat) : DispatchPc → Nat
  | .prepare i => i
  | .inc i => i
  | .queue i => i
  | _ => n

/-- An item that is counted in and not yet queued. -/
def DispatchPc.unqueued : DispatchPc → Nat
  | .queue _ => 1
  | _ => 0

/-- The dispatcher goes through the items in order, and `remaining` counts the workers that
have not counted themselves out. -/
structure CountInv (n : Nat) (s : ClusterState) : Prop where
  item : ∀ i, s.pc = .inc i ∨ s.pc = .queue i → i < n
  next : s.pc.next n ≤ n
  idle : ∀ i, s.pc.next n ≤ i → s.workers i = .idle
  count : s.remaining = (countedWorkers n s.workers).card + s.pc.unqueued

/-- A worker at work is on one of the items. -/
theorem CountInv.lt {n : Nat} {s : ClusterState} (h : CountInv n s) {i : Nat}
    (hi : s.workers i ≠ .idle) : i < n := by
  by_contra hge
  have hnext := h.next
  exact hi (h.idle i (by omega))

/-- The dispatcher goes on without counting or queueing anything. -/
theorem CountInv.advance {n : Nat} {s s' : ClusterState} (h : CountInv n s)
    (hworkers : s'.workers = s.workers) (hremaining : s'.remaining = s.remaining)
    (hitem : ∀ i, s'.pc = .inc i ∨ s'.pc = .queue i → i < n) (hle : s.pc.next n ≤ s'.pc.next n)
    (hnext : s'.pc.next n ≤ n) (hunqueued : s'.pc.unqueued = s.pc.unqueued) : CountInv n s' where
  item := hitem
  next := hnext
  idle i hi := by
    rw [hworkers]
    exact h.idle i (hle.trans hi)
  count := by rw [hremaining, hworkers, hunqueued, h.count]

/-- Behind the loop the dispatcher has nothing to count or to queue. -/
theorem DispatchPc.behind_loop (n : Nat) {pc : DispatchPc}
    (h : pc = .poll ∨ pc = .wait ∨ pc.joined = true) :
    pc.next n = n ∧ pc.unqueued = 0 ∧ ∀ i, ¬(pc = .inc i ∨ pc = .queue i) := by
  cases pc with
  | prepare i => simp [DispatchPc.joined] at h
  | inc i => simp [DispatchPc.joined] at h
  | queue i => simp [DispatchPc.joined] at h
  | _ => simp [DispatchPc.next, DispatchPc.unqueued]

/-- The dispatcher goes on to the polling with nothing left to queue. -/
theorem CountInv.leave {n : Nat} {s s' : ClusterState} (h : CountInv n s)
    (hworkers : s'.workers = s.workers) (hremaining : s'.remaining = s.remaining)
    (hunqueued : s.pc.unqueued = 0)
    (hpc' : s'.pc = .poll ∨ s'.pc = .wait ∨ s'.pc.joined = true) : CountInv n s' := by
  obtain ⟨hnext', hunqueued', hitem⟩ := DispatchPc.behind_loop n hpc'
  apply h.advance hworkers hremaining
  · intro i hi
    exact absurd hi (hitem i)
  · rw [hnext']
    exact h.next
  · rw [hnext']
  · rw [hunqueued', hunqueued]

/-- A step of the dispatcher keeps the count. -/
theorem CountInv.dispatch {n : Nat} {s s' : ClusterState} (h : CountInv n s)
    (hmove : DispatchMove n s s') : CountInv n s' := by
  cases hmove with
  | prepare i hpc hi hpc' hsame =>
      apply h.advance hsame.workers hsame.remaining <;> rcases hpc' with hpc' | hpc' <;>
        simp [hpc, hpc', DispatchPc.next, DispatchPc.unqueued] <;> omega
  | prepared i hpc hi hpc' hsame =>
      exact h.leave hsame.workers hsame.remaining (by rw [hpc]; rfl) (.inl hpc')
  | inc i hpc hpc' hworkers hdone hremaining =>
      have hi := h.item i (.inl hpc)
      have hidle := h.idle
      have hcount := h.count
      rw [hpc] at hidle hcount
      constructor <;> rw [hpc']
      · rintro j (hj | hj) <;> cases hj
        exact hi
      · exact hi.le
      · rw [hworkers]
        exact hidle
      · rw [hremaining, hworkers, hcount]
        simp [DispatchPc.unqueued]
  | queue i hpc hpc' hworkers hdone hremaining =>
      have hi := h.item i (.inr hpc)
      have hidle := h.idle
      have hcount := h.count
      rw [hpc] at hidle hcount
      have hfresh : s.workers i = .idle := hidle i (Nat.le_refl i)
      constructor <;> rw [hpc']
      · rintro j (hj | hj) <;> cases hj
      · exact hi
      · intro j hj
        have hij : i < j := hj
        rw [hworkers, Function.update_of_ne (by omega)]
        exact hidle j hij.le
      · rw [hremaining, hworkers, hcount, card_countedWorkers_enter hi (by rw [hfresh]; rfl) rfl]
        simp [DispatchPc.unqueued]
  | poll hpc hpc' hsame =>
      apply h.leave hsame.workers hsame.remaining (by rw [hpc]; rfl)
      split at hpc'
      · exact .inr (.inl hpc')
      · exact .inr (.inr (by rw [hpc']; rfl))
  | wait hpc hdone hpc' hworkers hremaining =>
      exact h.leave hworkers hremaining (by rw [hpc]; rfl) (.inr (.inr (by rw [hpc']; rfl)))
  | past hpc hpc' hsame =>
      have hunqueued := (DispatchPc.behind_loop n (.inr (.inr hpc))).2.1
      exact h.leave hsame.workers hsame.remaining hunqueued (.inr (.inr hpc'))

/-- So does a step of a worker. -/
theorem CountInv.work {n i : Nat} {s s' : ClusterState} (h : CountInv n s)
    (hmove : WorkerMove i s s') : CountInv n s' := by
  have hkept : ∀ {pc}, s'.pc = s.pc → s'.workers = Function.update s.workers i pc →
      s.workers i ≠ .idle →
      s'.remaining = (countedWorkers n (Function.update s.workers i pc)).card + s.pc.unqueued →
      CountInv n s' := by
    intro pc hpc hworkers hold hcount
    constructor <;> rw [hpc]
    · exact h.item
    · exact h.next
    · intro j hj
      have hji : j ≠ i := by
        rintro rfl
        exact hold (h.idle j hj)
      rw [hworkers, Function.update_of_ne hji]
      exact h.idle j hj
    · rw [hworkers]
      exact hcount
  cases hmove with
  | work pc hold hnew hworkers hdone hremaining hpc =>
      apply hkept hpc hworkers
      · intro hidle
        rw [hidle] at hold
        cases hold
      · rw [hremaining, countedWorkers_stay (hnew.trans hold.symm), h.count]
  | dec hold hworkers hdone hremaining hpc =>
      have hne : s.workers i ≠ .idle := by simp [hold]
      have hcounted : (s.workers i).counted = true := by rw [hold]; rfl
      have hout :
          (if s.remaining - 1 = 0 then WorkerPc.completing else .finished).counted = false := by
        split <;> rfl
      have hleave := card_countedWorkers_leave (h.lt hne) hcounted hout
      have hcount := h.count
      apply hkept hpc hworkers hne
      rw [hremaining]
      omega
  | complete hold hworkers hdone hremaining hpc =>
      apply hkept hpc hworkers (by simp [hold])
      rw [hremaining, countedWorkers_stay (by rw [hold]; rfl), h.count]

/-- The count is right in every state that the cluster reaches. -/
theorem CountInv.step {codec : Codec} {env : ClusterEnv} {vaddrs : List (Nat × Option Nat)}
    {s s' : ClusterState} {label : ClusterLabel} (h : CountInv vaddrs.length s)
    (hstep : clusterStep codec env vaddrs s label = some s') : CountInv vaddrs.length s' := by
  cases label with
  | dispatcher => exact h.dispatch (dispatchStep_move hstep)
  | worker i => exact h.work (workerStep_move hstep)

/-- Nobody is counted at the start. -/
theorem countInv_start {env : ClusterEnv} {k : Kernel} {vaddrs : List (Nat × Option Nat)}
    {s : ClusterState} (h : parallelDecompress env k vaddrs = .ok s) :
    CountInv vaddrs.length s := by
  unfold parallelDecompress at h
  split at h
  · cases h
  split at h
  · cases h
  split at h
  · cases h
  injection h with h
  subst h
  constructor
  · rintro i (hi | hi) <;> cases hi
  · exact Nat.zero_le _
  · intro _ _
    rfl
  · simp [countedWorkers, WorkerPc.counted, DispatchPc.unqueued]

/-- A counted worker shows in the count. -/
theorem CountInv.remaining_pos {n i : Nat} {s : ClusterState} (h : CountInv n s)
    (hi : (s.workers i).counted = true) : 0 < s.remaining := by
  have hne : s.workers i ≠ .idle := by
    intro hidle
    rw [hidle] at hi
    cases hi
  have hcount := h.count
  have hpos := Finset.card_pos.2 ⟨i, mem_countedWorkers.2 ⟨h.lt hne, hi⟩⟩
  omega

/-- Once nobody is counted and nobody is about to complete, nobody is active. -/
theorem CountInv.settled {n : Nat} {s : ClusterState} (h : CountInv n s)
    (hremaining : s.remaining ≤ 0) (hcompleting : ∀ i, s.workers i ≠ .completing) (i : Nat) :
    (s.workers i).active = false := by
  rw [WorkerPc.active_eq, Bool.or_eq_false_iff, decide_eq_false_iff_not]
  refine ⟨?_, hcompleting i⟩
  by_contra hcounted
  rw [Bool.not_eq_false] at hcounted
  have hpos := h.remaining_pos hcounted
  omega

/-- As long as the count is not zero behind the loop, some worker is active. -/
theorem CountInv.exists_counted {n : Nat} {s : ClusterState} (h : CountInv n s)
    (hunqueued : s.pc.unqueued = 0) (hremaining : 0 < s.remaining) :
    ∃ i, (s.workers i).counted = true := by
  have hcount := h.count
  have hpos : 0 < (countedWorkers n s.workers).card := by omega
  obtain ⟨i, hi⟩ := Finset.card_pos.1 hpos
  exact ⟨i, (mem_countedWorkers.1 hi).2⟩

/-! ## The join is sound -/

/-- The three stages of the last wait: some worker is still counted; the last one is about to
complete; it has completed. -/
inductive Waiting (s : ClusterState) : Prop
  | counted (hdone : s.done = 0) (hremaining : 0 < s.remaining)
      (hcompleting : ∀ i, s.workers i ≠ .completing)
  | last (i : Nat) (hdone : s.done = 0) (hremaining : s.remaining = 0)
      (hlast : s.workers i = .completing) (hothers : ∀ j, j ≠ i → s.workers j ≠ .completing)
  | completed (hdone : 0 < s.done) (hremaining : s.remaining = 0)
      (hcompleting : ∀ i, s.workers i ≠ .completing)

/-- A joined cluster has no active worker, and a waiting one is in its last wait. -/
structure JoinInv (n : Nat) (s : ClusterState) : Prop where
  count : CountInv n s
  waiting : s.pc = .wait → Waiting s
  sound : JoinSound s

/-- A worker steps and is not about to complete. -/
theorem not_completing_update {i : Nat} {workers : Nat → WorkerPc} {pc : WorkerPc}
    (hpc : pc ≠ .completing) (hothers : ∀ j, j ≠ i → workers j ≠ .completing) (j : Nat) :
    Function.update workers i pc j ≠ .completing := by
  by_cases hji : j = i
  · rw [hji, Function.update_self]
    exact hpc
  · rw [Function.update_of_ne hji]
    exact hothers j hji

/-- A waiting dispatcher will be woken by the last worker. -/
theorem Waiting.work {n i : Nat} {s s' : ClusterState} (h : Waiting s) (hcount : CountInv n s)
    (hmove : WorkerMove i s s') : Waiting s' := by
  cases h with
  | counted hdone hremaining hcompleting =>
      cases hmove with
      | work pc hold hnew hworkers hdone' hremaining' hpc =>
          refine .counted (by rw [hdone', hdone]) (by rw [hremaining']; exact hremaining) ?_
          rw [hworkers]
          apply not_completing_update
          · rintro rfl
            cases hnew
          · exact fun j _ => hcompleting j
      | dec hold hworkers hdone' hremaining' hpc =>
          by_cases hzero : s.remaining - 1 = 0
          · rw [if_pos hzero] at hworkers
            refine .last i (by rw [hdone', hdone]) (by rw [hremaining', hzero]) ?_ ?_
            · rw [hworkers, Function.update_self]
            · intro j hji
              rw [hworkers, Function.update_of_ne hji]
              exact hcompleting j
          · rw [if_neg hzero] at hworkers
            refine .counted (by rw [hdone', hdone]) (by omega) ?_
            rw [hworkers]
            exact not_completing_update nofun fun j _ => hcompleting j
      | complete hold => exact absurd hold (hcompleting i)
  | last l hdone hremaining hlast hothers =>
      cases hmove with
      | work pc hold =>
          have hpos := hcount.remaining_pos hold
          omega
      | dec hold =>
          have hpos := hcount.remaining_pos (i := i) (by rw [hold]; rfl)
          omega
      | complete hold hworkers hdone' hremaining' hpc =>
          have hil : i = l := by
            by_contra hne
            exact hothers i hne hold
          subst hil
          refine .completed (by omega) (by rw [hremaining', hremaining]) ?_
          rw [hworkers]
          exact not_completing_update nofun hothers
  | completed hdone hremaining hcompleting =>
      cases hmove with
      | work pc hold =>
          have hpos := hcount.remaining_pos hold
          omega
      | dec hold =>
          have hpos := hcount.remaining_pos (i := i) (by rw [hold]; rfl)
          omega
      | complete hold => exact absurd hold (hcompleting i)

/-- An active worker can go on. -/
theorem workerStep_of_active (codec : Codec) (env : ClusterEnv) {s : ClusterState} {i : Nat}
    (h : (s.workers i).active = true) : ∃ s', workerStep codec env s i = some s' := by
  unfold workerStep
  cases hcase : s.workers i with
  | idle =>
      rw [hcase] at h
      cases h
  | finished =>
      rw [hcase] at h
      cases h
  | _ => exact ⟨_, rfl⟩

/-- While it waits for the last time the cluster does not get stuck. -/
theorem Waiting.progress (codec : Codec) (env : ClusterEnv) (vaddrs : List (Nat × Option Nat))
    {n : Nat} {s : ClusterState} (h : Waiting s) (hcount : CountInv n s) (hpc : s.pc = .wait) :
    ∃ label s', clusterStep codec env vaddrs s label = some s' := by
  cases h with
  | counted hdone hremaining hcompleting =>
      obtain ⟨i, hi⟩ := hcount.exists_counted (by rw [hpc]; rfl) hremaining
      exact ⟨.worker i, workerStep_of_active codec env (by rw [WorkerPc.active_eq, hi]; rfl)⟩
  | last i hdone hremaining hlast =>
      exact ⟨.worker i, workerStep_of_active codec env (by rw [hlast]; rfl)⟩
  | completed hdone =>
      refine ⟨.dispatcher, { s with done := s.done - 1, pc := .collect 0 }, ?_⟩
      simp only [clusterStep, dispatchStep, hpc]
      rw [if_neg (by omega)]

/-- Before the join. -/
theorem JoinInv.before {n : Nat} {s : ClusterState} (hcount : CountInv n s) (hwait : s.pc ≠ .wait)
    (hjoined : s.pc.joined = false) : JoinInv n s where
  count := hcount
  waiting h := absurd h hwait
  sound h := by
    rw [hjoined] at h
    cases h

/-- Behind the join. -/
theorem JoinInv.behind {n : Nat} {s : ClusterState} (hcount : CountInv n s)
    (hjoined : s.pc.joined = true) (hsettled : ∀ i, (s.workers i).active = false) :
    JoinInv n s where
  count := hcount
  waiting h := by
    rw [h] at hjoined
    cases hjoined
  sound _ := hsettled

/-- A step of the dispatcher that may be taken keeps the join sound. -/
theorem JoinInv.dispatch {n : Nat} {s s' : ClusterState} (h : JoinInv n s)
    (hready : JoinReady s .dispatcher) (hmove : DispatchMove n s s') : JoinInv n s' := by
  have hcount := h.count.dispatch hmove
  cases hmove with
  | prepare i hpc hi hpc' hsame =>
      rcases hpc' with hpc' | hpc' <;>
        exact .before hcount (by simp [hpc']) (by rw [hpc']; rfl)
  | prepared i hpc hi hpc' hsame => exact .before hcount (by simp [hpc']) (by rw [hpc']; rfl)
  | inc i hpc hpc' => exact .before hcount (by simp [hpc']) (by rw [hpc']; rfl)
  | queue i hpc hpc' => exact .before hcount (by simp [hpc']) (by rw [hpc']; rfl)
  | poll hpc hpc' hsame =>
      obtain ⟨hcompleting, hdone⟩ := hready rfl hpc
      by_cases hpos : s.remaining > 0
      · rw [if_pos hpos] at hpc'
        have hwaiting : Waiting s' := by
          refine .counted ?_ ?_ ?_
          · rw [hsame.done, hdone hpos]
          · rw [hsame.remaining]
            exact hpos
          · rw [hsame.workers]
            exact hcompleting
        refine ⟨hcount, fun _ => hwaiting, ?_⟩
        intro hjoined
        rw [hpc'] at hjoined
        cases hjoined
      · rw [if_neg hpos] at hpc'
        apply JoinInv.behind hcount (by rw [hpc']; rfl)
        rw [hsame.workers]
        exact h.count.settled (by omega) hcompleting
  | wait hpc hdone hpc' hworkers hremaining =>
      apply JoinInv.behind hcount (by rw [hpc']; rfl)
      rw [hworkers]
      cases h.waiting hpc with
      | counted hzero => omega
      | last _ hzero => omega
      | completed _ hzero hcompleting => exact h.count.settled (by omega) hcompleting
  | past hpc hpc' hsame =>
      apply JoinInv.behind hcount hpc'
      rw [hsame.workers]
      exact h.sound hpc

/-- Only active workers step. -/
theorem WorkerMove.active {i : Nat} {s s' : ClusterState} (h : WorkerMove i s s') :
    (s.workers i).active = true := by
  cases h with
  | work pc hold => rw [WorkerPc.active_eq, hold, Bool.true_or]
  | dec hold => rw [hold]; rfl
  | complete hold => rw [hold]; rfl

theorem WorkerMove.pc_eq {i : Nat} {s s' : ClusterState} (h : WorkerMove i s s') :
    s'.pc = s.pc := by
  cases h <;> assumption

/-- So does every step of a worker. -/
theorem JoinInv.work {n i : Nat} {s s' : ClusterState} (h : JoinInv n s)
    (hmove : WorkerMove i s s') : JoinInv n s' := by
  refine ⟨h.count.work hmove, ?_, ?_⟩
  · intro hwait
    rw [hmove.pc_eq] at hwait
    exact (h.waiting hwait).work h.count hmove
  · intro hjoined
    rw [hmove.pc_eq] at hjoined
    have hactive := hmove.active
    rw [h.sound hjoined i] at hactive
    cases hactive

/-- So every step does. -/
theorem JoinInv.step {codec : Codec} {env : ClusterEnv} {vaddrs : List (Nat × Option Nat)}
    {s s' : ClusterState} {label : ClusterLabel} (h : JoinInv vaddrs.length s)
    (hready : JoinReady s label) (hstep : clusterStep codec env vaddrs s label = some s') :
    JoinInv vaddrs.length s' := by
  cases label with
  | dispatcher => exact h.dispatch hready (dispatchStep_move hstep)
  | worker i => exact h.work (workerStep_move hstep)

/-- It holds at the start. -/
theorem joinInv_start {env : ClusterEnv} {k : Kernel} {vaddrs : List (Nat × Option Nat)}
    {s : ClusterState} (h : parallelDecompress env k vaddrs = .ok s) :
    JoinInv vaddrs.length s := by
  have hpc : s.pc = .prepare 0 := by
    unfold parallelDecompress at h
    split at h
    · cases h
    split at h
    · cases h
    split at h
    · cases h
    injection h with h
    rw [← h]
  exact .before (countInv_start h) (by simp [hpc]) (by rw [hpc]; rfl)

/-! ## Nothing less would do -/

/-- Polling reads the count once. -/
theorem poll_step (codec : Codec) (env : ClusterEnv) (vaddrs : List (Nat × Option Nat))
    {s : ClusterState} (hpc : s.pc = .poll) :
    clusterStep codec env vaddrs s .dispatcher
      = some { s with pc := if s.remaining > 0 then .wait else .collect 0 } := by
  simp only [clusterStep, dispatchStep, hpc]

/-- With a completion posted too early, the dispatcher waits for nobody. -/
theorem not_sound_of_stale (codec : Codec) (env : ClusterEnv) (vaddrs : List (Nat × Option Nat))
    {n : Nat} {s : ClusterState} (hcount : CountInv n s) (hpc : s.pc = .poll)
    (hremaining : 0 < s.remaining) (hdone : 0 < s.done) :
    ¬Along (clusterStep codec env vaddrs) JoinSound s [.dispatcher, .dispatcher] := by
  intro h
  have hpoll := poll_step codec env vaddrs hpc
  rw [if_pos hremaining] at hpoll
  have hwait : clusterStep codec env vaddrs { s with pc := .wait } .dispatcher
      = some { s with done := s.done - 1, pc := .collect 0 } := by
    simp only [clusterStep, dispatchStep]
    rw [if_neg (by omega)]
  have hsound : JoinSound { s with done := s.done - 1, pc := .collect 0 } :=
    (h.2 _ hpoll).2 _ hwait
  obtain ⟨i, hi⟩ := hcount.exists_counted (by rw [hpc]; rfl) hremaining
  have hactive := hsound rfl i
  rw [WorkerPc.active_eq] at hactive
  dsimp only at hactive
  rw [hi] at hactive
  cases hactive

/-- From wherever the dispatcher reads the count too early, some schedule makes the join
unsound. -/
theorem not_sound_of_not_ready (codec : Codec) (env : ClusterEnv)
    (vaddrs : List (Nat × Option Nat)) {n : Nat} {s : ClusterState} (hcount : CountInv n s)
    (hpc : s.pc = .poll) (hready : ¬JoinReady s .dispatcher) :
    ∃ schedule, ¬Along (clusterStep codec env vaddrs) JoinSound s schedule := by
  by_cases hcompleting : ∀ i, s.workers i ≠ .completing
  · have hstale : ¬(0 < s.remaining → s.done = 0) := fun hdone =>
      hready fun _ _ => ⟨hcompleting, hdone⟩
    rw [Classical.not_imp] at hstale
    exact ⟨_, not_sound_of_stale codec env vaddrs hcount hpc hstale.1 (by omega)⟩
  · rw [not_forall_not] at hcompleting
    obtain ⟨i, hi⟩ := hcompleting
    by_cases hpos : 0 < s.remaining
    · -- the completion comes first and is then stale
      have hcomplete : clusterStep codec env vaddrs s (.worker i)
          = some { s with
            done := s.done + 1, workers := Function.update s.workers i .finished } := by
        simp only [clusterStep, workerStep, hi]
      refine ⟨[.worker i, .dispatcher, .dispatcher], fun h => ?_⟩
      have hmove := workerStep_move hcomplete
      exact not_sound_of_stale codec env vaddrs (hcount.work hmove) hpc hpos (Nat.succ_pos _)
        (h.2 _ hcomplete)
    · have hpoll := poll_step codec env vaddrs hpc
      rw [if_neg hpos] at hpoll
      refine ⟨[.dispatcher], fun h => ?_⟩
      have hsound : JoinSound { s with pc := .collect 0 } := h.2 _ hpoll
      have hactive := hsound rfl i
      dsimp only at hactive
      rw [hi] at hactive
      cases hactive

/-! ## Decompressing a cluster -/

/-- Along every schedule in which the dispatcher reads the count only when it is ready, the
join is sound; and from every state in which it is about to read the count without being
ready, some schedule makes it unsound. -/
theorem parallelDecompress_joins {codec : Codec} {env : ClusterEnv} {k : Kernel}
    {vaddrs : List (Nat × Option Nat)} {s : ClusterState}
    (hstart : parallelDecompress env k vaddrs = .ok s) :
    (∀ schedule, Guarded (clusterStep codec env vaddrs) JoinReady s schedule →
      Along (clusterStep codec env vaddrs) JoinSound s schedule) ∧
    ∀ schedule t, Run (clusterStep codec env vaddrs) (fun _ _ => True) s schedule t →
      t.pc = .poll → ¬JoinReady t .dispatcher →
        ∃ schedule', ¬Along (clusterStep codec env vaddrs) JoinSound t schedule' := by
  have hcount := countInv_start hstart
  constructor
  · intro schedule hguarded
    apply hguarded.along (I := JoinInv vaddrs.length)
    · exact fun t label t' h hready hstep => h.step hready hstep
    · exact fun t h => h.sound
    · exact joinInv_start hstart
  · intro schedule t hrun hpc hready
    have hcount' : CountInv vaddrs.length t :=
      hrun.invariant (fun _ _ _ h _ hstep => h.step hstep) hcount
    exact not_sound_of_not_ready codec env vaddrs hcount' hpc hready

/-- Two pages, with the count read while both are being decompressed. -/
theorem parallelDecompress_joins_pair :
    ∃ s, parallelDecompress .ok .oneMarker [(0x1000, none), (0x1000, some 0)] = .ok s ∧
      Along (clusterStep samePageCodec .ok [(0x1000, none), (0x1000, some 0)]) JoinSound s
        [.dispatcher, .dispatcher, .dispatcher, .dispatcher, .dispatcher, .dispatcher, .dispatcher,
          .worker 0, .dispatcher, .worker 1, .worker 0, .worker 0, .worker 1, .worker 1, .worker 1,
          .dispatcher, .dispatcher, .dispatcher, .dispatcher, .dispatcher, .dispatcher] := by
  refine ⟨_, rfl, (parallelDecompress_joins rfl).1 _ ?_⟩
  have hworkers : ∀ i, Function.update (Function.update (Function.update (fun _ => WorkerPc.idle) 0
      .queued) 1 .queued) 0 (.ran 0) i ≠ .completing := by
    refine not_completing_update ?_ fun i _ => not_completing_update ?_ (fun i _ =>
      not_completing_update ?_ (fun _ _ => ?_) i) i <;> simp
  iterate 7
    apply guarded_cons_of_step rfl
    · exact fun _ hpc => DispatchPc.noConfusion hpc
  apply guarded_cons_of_step rfl
  · exact fun hlabel => ClusterLabel.noConfusion hlabel
  apply guarded_cons_of_step rfl
  · exact fun _ _ => ⟨hworkers, fun _ => rfl⟩
  iterate 6
    apply guarded_cons_of_step rfl
    · exact fun hlabel => ClusterLabel.noConfusion hlabel
  iterate 6
    apply guarded_cons_of_step rfl
    · exact fun _ hpc => DispatchPc.noConfusion hpc
  trivial

/-- One page, whose worker has counted itself out and not yet called `complete` when the
dispatcher reads the count, reads the status and frees the context; and two pages, the first
of which is all done before the second is counted in, so that the dispatcher reads the second
status and frees the context with the second worker still queued. -/
theorem not_joinSound_early :
    (∃ s t, parallelDecompress .ok .oneMarker [(0x1000, none)] = .ok s ∧
      Run (clusterStep samePageCodec .ok [(0x1000, none)]) (fun _ _ => True) s
        [.dispatcher, .dispatcher, .dispatcher, .dispatcher, .worker 0, .worker 0, .worker 0,
          .dispatcher, .dispatcher, .dispatcher, .dispatcher] t ∧
      t.pc = .unlock 0 ∧ t.workers 0 = .completing ∧ ¬JoinSound t) ∧
    ∃ s t, parallelDecompress .ok .oneMarker [(0x1000, none), (0x1000, some 0)] = .ok s ∧
      Run (clusterStep samePageCodec .ok [(0x1000, none), (0x1000, some 0)]) (fun _ _ => True) s
        [.dispatcher, .dispatcher, .dispatcher, .worker 0, .worker 0, .worker 0, .worker 0,
          .dispatcher, .dispatcher, .dispatcher, .dispatcher, .dispatcher, .dispatcher,
          .dispatcher, .dispatcher, .dispatcher, .dispatcher] t ∧
      t.pc = .unlock 0 ∧ t.workers 1 = .queued ∧ ¬JoinSound t := by
  have hunsound : ∀ (t : ClusterState) (i : Nat), t.pc = .unlock 0 →
      (t.workers i).active = true → ¬JoinSound t := by
    intro t i hpc hactive hsound
    have hinactive := hsound (by rw [hpc]; rfl) i
    rw [hactive] at hinactive
    cases hinactive
  constructor
  · refine ⟨_, ?_, rfl, ?_, ?_, ?_, hunsound _ 0 ?_ ?_⟩
    rotate_left
    · iterate 11
        refine .cons rfl trivial ?_
      exact .nil _
    all_goals rfl
  · refine ⟨_, ?_, rfl, ?_, ?_, ?_, hunsound _ 1 ?_ ?_⟩
    rotate_left
    · iterate 17
        refine .cons rfl trivial ?_
      exact .nil _
    all_goals rfl

end MiniMem
