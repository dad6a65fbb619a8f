import Mathlib.Logic.Relation
import MiniMem.Kernel.Lifecycle

/-!
# MiniMem.Kernel.LoadUnload

`minimem_init` is a start in stages, each error path an unwinding of those
that are up, and `minimem_exit` stops the same stages in another order.  So a
load that fails gives back what it has taken, and an unload leaves nothing,
with two exceptions: the pool, when `minimem_map_init` fails behind it, and
the entries of the statistics, whose exit nobody calls.
-/

namespace MiniMem

/-! ## What the module keeps track of -/

/-- The resources that a variable points to for as long as they are held. -/
def Resource.pointed : Resource → Bool
  | .compressBuf _ | .decompressBuf _ | .pool | .entryCache | .parallelWq => true
  | .shrinker | .mmuWq | .scanner => true
  | _ => false

/-- What the module holds. -/
def heldSet (s : Module) : Set Resource := {r | s.held r = true}

/-- The variables tell what is held, and nothing has been taken or given back twice. -/
structure Tracked (env : LoadEnv) (s : Module) : Prop where
  unmisused : s.misused = false
  pointed : ∀ r, r.pointed = true → (s.ptr r = .ptr ↔ s.held r = true)
  hookRegistered : s.hookRegistered = s.held .kretprobe
  patches : s.held .hook = true → s.kernelPatchesDetected = s.held .faultHandler
  zapCallback : s.held .zapCallback = (s.held .faultHandler && env.zapCbSymbol)

/-- What one change of what is held does to it. -/
theorem heldSet_update {s s' : Module} {r : Resource} {b : Bool}
    (h : s'.held = Function.update s.held r b) :
    heldSet s' = if b = true then insert r (heldSet s) else heldSet s \ {r} := by
  ext r'
  by_cases hr : r' = r <;> cases b <;> simp [heldSet, h, hr]

/-- The resources that the variables of the hook are about. -/
def Resource.ofHook : Resource → Bool
  | .hook | .faultHandler | .zapCallback | .kretprobe => true
  | _ => false

/-- A resource that the hook does not care about is taken, given back or dropped. -/
theorem Tracked.update {env : LoadEnv} {s : Module} (hs : Tracked env s) {r : Resource}
    (hhook : r.ofHook = false) (b m : Bool) (v : PtrVal) (hm : m = false)
    (hv : r.pointed = true → (v = .ptr ↔ b = true)) :
    Tracked env { s with
      held := Function.update s.held r b
      misused := m
      ptr := Function.update s.ptr r v } := by
  have hne : ∀ r', r'.ofHook = true → r' ≠ r := by
    intro r' h heq
    rw [heq, hhook] at h
    exact Bool.false_ne_true h
  constructor
  · exact hm
  · intro r' hr'
    by_cases hr : r' = r
    · subst hr
      simpa using hv hr'
    · simpa [hr] using hs.pointed r' hr'
  · simpa [hne .kretprobe rfl] using hs.hookRegistered
  · simpa [hne .hook rfl, hne .faultHandler rfl] using hs.patches
  · simpa [hne .zapCallback rfl, hne .faultHandler rfl] using hs.zapCallback

/-- What is disjoint from what is held is not held. -/
theorem not_held {s : Module} {A : Set Resource} (hfree : Disjoint (heldSet s) A) {r : Resource}
    (hr : r ∈ A) : s.held r = false :=
  Bool.eq_false_iff.2 fun h => Set.disjoint_left.1 hfree h hr

/-- Something without a variable is taken. -/
theorem Tracked.take {env : LoadEnv} {s : Module} (hs : Tracked env s) {r : Resource}
    (hhook : r.ofHook = false) (hp : r.pointed = false) (hfree : s.held r = false) :
    Tracked env (s.take r) := by
  have := hs.update hhook true (s.misused || s.held r) (s.ptr r) (by simp [hs.unmisused, hfree])
    (by simp [hp])
  simpa [Module.take] using this

/-- Taking a resource adds it. -/
theorem heldSet_take (s : Module) (r : Resource) : heldSet (s.take r) = insert r (heldSet s) :=
  heldSet_update (b := true) rfl

/-- Something without a variable is given back. -/
theorem Tracked.give {env : LoadEnv} {s : Module} (hs : Tracked env s) {r : Resource}
    (hhook : r.ofHook = false) (hp : r.pointed = false) (hheld : s.held r = true) :
    Tracked env (s.give r) := by
  have := hs.update hhook false (s.misused || !s.held r) (s.ptr r) (by simp [hs.unmisused, hheld])
    (by simp [hp])
  simpa [Module.give] using this

/-- Giving it back removes it. -/
theorem heldSet_give (s : Module) (r : Resource) : heldSet (s.give r) = heldSet s \ {r} :=
  heldSet_update (b := false) rfl

/-- A resource that is given back through its pointer stays tracked. -/
theorem Tracked.drop {env : LoadEnv} {s : Module} (hs : Tracked env s) {r : Resource}
    (hhook : r.ofHook = false) (hp : r.pointed = false) : Tracked env (s.drop r) := by
  have := hs.update hhook false s.misused (s.ptr r) hs.unmisused (by simp [hp])
  simpa [Module.drop] using this

/-- Dropping a resource removes it if it is there. -/
theorem heldSet_drop (s : Module) (r : Resource) : heldSet (s.drop r) = heldSet s \ {r} :=
  heldSet_update (b := false) rfl

/-- No resource of the hook has a pointer of its own. -/
theorem ofHook_of_pointed {r : Resource} (h : r.pointed = true) : r.ofHook = false := by
  cases r <;> simp_all [Resource.pointed, Resource.ofHook]

/-- An allocation whose result goes to a variable. -/
theorem Tracked.alloc {env : LoadEnv} {s : Module} (hs : Tracked env s) {r : Resource}
    (hp : r.pointed = true) (hfree : s.held r = false) (ok : Bool) :
    Tracked env (s.alloc r ok) := by
  have hhook := ofHook_of_pointed hp
  cases ok with
  | true =>
      have := hs.update hhook true (s.misused || s.held r) .ptr (by simp [hs.unmisused, hfree])
        (by simp)
      simpa [Module.alloc, Module.take, Module.setPtr] using this
  | false =>
      have := hs.update hhook false s.misused .null hs.unmisused (by simp)
      rw [← hfree, Function.update_eq_self] at this
      simpa [Module.alloc, Module.setPtr] using this

/-- An allocation adds the resource if it succeeds. -/
theorem heldSet_alloc (s : Module) (r : Resource) (ok : Bool) :
    heldSet (s.alloc r ok) = if ok = true then insert r (heldSet s) else heldSet s := by
  cases ok with
  | true => exact heldSet_take s r
  | false => rfl

/-- What a variable points to is freed, if anything. -/
theorem Tracked.dealloc {env : LoadEnv} {s : Module} (hs : Tracked env s) {r : Resource}
    (hp : r.pointed = true) :
    Tracked env (s.dealloc r) ∧ heldSet (s.dealloc r) = heldSet s \ {r} := by
  have hhook := ofHook_of_pointed hp
  have hptr := hs.pointed r hp
  rw [Module.dealloc]
  split
  next h =>
    have hheld := hptr.1 h
    have := hs.update hhook false (s.misused || !s.held r) .null (by simp [hs.unmisused, hheld])
      (by simp)
    exact ⟨by simpa [Module.give, Module.setPtr] using this, heldSet_give s r⟩
  next h =>
    have hheld : s.held r = false := by simpa [h] using hptr
    have := hs.update hhook false s.misused .null hs.unmisused (by simp)
    refine ⟨by simpa [Module.setPtr, ← hheld] using this, ?_⟩
    exact (Set.sdiff_singleton_eq_self (a := r) (s := heldSet s) (by simp [heldSet, hheld])).symm

/-! ## The buffers of the CPUs -/

/-- The buffers of `n` CPUs from `cpu` on. -/
def cpuBufs (cpu n : Nat) : Set Resource :=
  {r | ∃ i, cpu ≤ i ∧ i < cpu + n ∧ (r = .compressBuf i ∨ r = .decompressBuf i)}

/-- No CPU has no buffers. -/
theorem cpuBufs_zero (cpu : Nat) : cpuBufs cpu 0 = ∅ := by
  ext r
  simp only [cpuBufs, Set.mem_ofPred_eq, Set.mem_empty_iff_false, iff_false]
  omega

/-- The buffers of the first CPU, and of those behind it. -/
theorem cpuBufs_succ (cpu n : Nat) :
    cpuBufs cpu (n + 1) = {.compressBuf cpu, .decompressBuf cpu} ∪ cpuBufs (cpu + 1) n := by
  ext r
  constructor
  · intro ⟨i, hle, hlt, hr⟩
    by_cases hi : i = cpu
    · exact .inl (by simpa [hi] using hr)
    · exact .inr ⟨i, by omega, by omega, hr⟩
  · intro hr
    cases hr with
    | inl hr => exact ⟨cpu, le_refl _, by omega, by simpa using hr⟩
    | inr hr =>
        obtain ⟨i, hle, hlt, hr⟩ := hr
        exact ⟨i, by omega, by omega, hr⟩

/-- They are different buffers. -/
theorem cpuBufs_disjoint (cpu n : Nat) :
    Disjoint {.compressBuf cpu, .decompressBuf cpu} (cpuBufs (cpu + 1) n) := by
  rw [Set.disjoint_right]
  intro r ⟨i, hle, _, hr⟩
  cases hr <;> simp_all <;> omega

/-- `minimem_compress_exit` gives back the buffers of all CPUs, by induction on their number. -/
theorem freeCpuBufs_spec {env : LoadEnv} (n cpu : Nat) {s : Module} (hs : Tracked env s) :
    Tracked env (freeCpuBufs n cpu s) ∧
      heldSet (freeCpuBufs n cpu s) = heldSet s \ cpuBufs cpu n := by
  induction n generalizing cpu s with
  | zero => simp [freeCpuBufs, cpuBufs_zero, hs]
  | succ n ih =>
      obtain ⟨h₁, hheld₁⟩ := hs.dealloc (r := .compressBuf cpu) rfl
      obtain ⟨h₂, hheld₂⟩ := h₁.dealloc (r := .decompressBuf cpu) rfl
      obtain ⟨h₃, hheld₃⟩ := ih (cpu + 1) h₂
      refine ⟨h₃, ?_⟩
      rw [freeCpuBufs, hheld₃, hheld₂, hheld₁, cpuBufs_succ, Set.sdiff_sdiff, Set.sdiff_sdiff,
        ← Set.union_assoc, Set.insert_eq]

/-- All buffers can be had. -/
def LoadEnv.bufs (env : LoadEnv) (cpu n : Nat) : Prop :=
  ∀ i, cpu ≤ i → i < cpu + n → env.compressBuf i = true ∧ env.decompressBuf i = true

/-- All buffers are there when those of the first CPU and of the others are. -/
theorem LoadEnv.bufs_succ (env : LoadEnv) (cpu n : Nat) :
    env.bufs cpu (n + 1) ↔
      (env.compressBuf cpu = true ∧ env.decompressBuf cpu = true) ∧ env.bufs (cpu + 1) n := by
  constructor
  · intro h
    exact ⟨h cpu (le_refl _) (by omega), fun i hle hlt => h i (by omega) (by omega)⟩
  · intro ⟨hcpu, h⟩ i hle hlt
    by_cases hi : i = cpu
    · exact hi ▸ hcpu
    · exact h i (by omega) (by omega)

/-- What the loop over the CPUs does. -/
structure CompressInit (env : LoadEnv) (n cpu : Nat) (s : Module) (r : Bool × Module) :
    Prop where
  tracked : Tracked env r.2
  ok : r.1 = true ↔ env.bufs cpu n
  up : r.1 = true → heldSet r.2 = heldSet s ∪ cpuBufs cpu n
  before : heldSet s ⊆ heldSet r.2
  fails : heldSet r.2 ⊆ heldSet s ∪ cpuBufs cpu n

/-- `minimem_compress_init` has the buffers of all CPUs, or none of them. -/
theorem compressInitLoop_spec {env : LoadEnv} (n cpu : Nat) {s : Module} (hs : Tracked env s)
    (hfree : Disjoint (heldSet s) (cpuBufs cpu n)) :
    CompressInit env n cpu s (compressInitLoop env n cpu s) := by
  induction n generalizing cpu s with
  | zero =>
      rw [compressInitLoop]
      constructor
      · exact hs
      · simp only [LoadEnv.bufs, true_iff]
        omega
      · simp [cpuBufs_zero]
      · simp
      · simp
  | succ n ih =>
      rw [cpuBufs_succ, Set.disjoint_union_right] at hfree
      have hc := not_held hfree.1 (r := .compressBuf cpu) (by simp)
      have hd := not_held hfree.1 (r := .decompressBuf cpu) (by simp)
      have h₁ := hs.alloc (r := .compressBuf cpu) rfl hc (env.compressBuf cpu)
      have hheld₁ := heldSet_alloc s (.compressBuf cpu) (env.compressBuf cpu)
      cases hbuf : env.compressBuf cpu with
      | false =>
          rw [hbuf] at h₁ hheld₁
          simp only [compressInitLoop, hbuf, if_true]
          refine ⟨h₁, ?_, by simp, hheld₁.ge, hheld₁.le.trans Set.subset_union_left⟩
          simp [env.bufs_succ, hbuf]
      | true =>
          rw [hbuf] at h₁ hheld₁
          rw [if_pos rfl] at hheld₁
          have hd₁ : (s.alloc (.compressBuf cpu) true).held (.decompressBuf cpu) = false := by
            simpa [Module.alloc, Module.take, Module.setPtr] using hd
          have h₂ := h₁.alloc (r := .decompressBuf cpu) rfl hd₁ (env.decompressBuf cpu)
          have hheld₂ := heldSet_alloc (s.alloc (.compressBuf cpu) true) (.decompressBuf cpu)
            (env.decompressBuf cpu)
          cases hbuf' : env.decompressBuf cpu with
          | false =>
              rw [hbuf'] at h₂ hheld₂
              obtain ⟨h₃, hheld₃⟩ := h₂.dealloc (r := .compressBuf cpu) rfl
              rw [hheld₂, if_neg (by simp), hheld₁, Set.insert_sdiff_self_of_notMem
                (by simp [heldSet, hc])] at hheld₃
              simp only [compressInitLoop, hbuf, hbuf', Bool.true_eq_false, if_false, if_true]
              refine ⟨h₃, ?_, by simp, hheld₃.ge, hheld₃.le.trans Set.subset_union_left⟩
              simp [env.bufs_succ, hbuf']
          | true =>
              rw [hbuf'] at h₂ hheld₂
              rw [if_pos rfl, hheld₁] at hheld₂
              have hnow : heldSet ((s.alloc (.compressBuf cpu) true).alloc (.decompressBuf cpu)
                  true) = heldSet s ∪ {.compressBuf cpu, .decompressBuf cpu} := by
                rw [hheld₂]
                ext r
                simp
                tauto
              have hrest := ih (cpu + 1) h₂ (by
                rw [hnow, Set.disjoint_union_left]
                exact ⟨hfree.2, cpuBufs_disjoint cpu n⟩)
              simp only [compressInitLoop, hbuf, hbuf', Bool.true_eq_false, if_false]
              have hall : heldSet s ∪ cpuBufs cpu (n + 1) = heldSet ((s.alloc (.compressBuf cpu)
                  true).alloc (.decompressBuf cpu) true) ∪ cpuBufs (cpu + 1) n := by
                rw [cpuBufs_succ, ← Set.union_assoc, ← hnow]
              constructor
              · exact hrest.tracked
              · rw [hrest.ok, env.bufs_succ]
                simp [hbuf, hbuf']
              · rw [hall]
                exact hrest.up
              · exact (hnow ▸ Set.subset_union_left).trans hrest.before
              · rw [hall]
                exact hrest.fails

/-! ## The parts as stages -/

/-- A part with one variable, for which `minimem_*_init` makes one allocation. -/
@[simps]
def allocStage (env : LoadEnv) (r : Resource) (hp : r.pointed = true) (ok : Bool) :
    Stage (Tracked env) heldSet where
  owns := {r}
  needs := {r}
  init := allocInit r ok
  exit s := s.dealloc r
  needs_owns := subset_rfl
  init_ok s hs hfree := hs.alloc hp (not_held hfree rfl) ok
  init_held s hs hfree hret := by
    simp only [allocInit, heldSet_alloc]
    cases ok with
    | true => simp
    | false => simp [allocInit, enomem] at hret
  init_fails s hs hfree hret := by
    simp only [allocInit, heldSet_alloc]
    cases ok with
    | true => simp [allocInit] at hret
    | false => simp
  exit_ok s hs _ := (hs.dealloc hp).1
  exit_held s hs _ := (hs.dealloc hp).2

/-- A part without a variable. -/
@[simps]
def takeStage (env : LoadEnv) (r : Resource) (hp : r.pointed = false) (hhook : r.ofHook = false)
    (err : Int) (init : Module → Int × Module)
    (hinit : ∀ s, init s = if err ≠ 0 then (err, s) else (0, s.take r)) :
    Stage (Tracked env) heldSet where
  owns := {r}
  needs := {r}
  init := init
  exit s := s.give r
  needs_owns := subset_rfl
  init_ok s hs hfree := by
    rw [hinit]
    split
    · exact hs
    · exact hs.take hhook hp (not_held hfree rfl)
  init_held s hs hfree hret := by
    rw [hinit] at hret ⊢
    split at hret
    next herr => exact absurd hret herr
    next herr => simp [herr, heldSet_take]
  init_fails s hs hfree hret := by
    rw [hinit] at hret ⊢
    split at hret
    next herr => simp [herr]
    next herr => exact absurd rfl hret
  exit_ok s hs hheld := hs.give hhook hp (hheld rfl)
  exit_held s hs _ := heldSet_give s r

/-- What the buffers of `n` CPUs do, once they are there or not. -/
theorem minimemCompressInit_spec {env : LoadEnv} {n : Nat} {s : Module} (hs : Tracked env s)
    (hfree : Disjoint (heldSet s) (cpuBufs 0 n)) :
    Tracked env (minimemCompressInit env n s).2 ∧
      ((minimemCompressInit env n s).1 = 0 ↔ env.bufs 0 n) ∧
      heldSet (minimemCompressInit env n s).2 =
        heldSet s ∪ {r | env.bufs 0 n ∧ r ∈ cpuBufs 0 n} := by
  have h := compressInitLoop_spec n 0 hs hfree
  rw [minimemCompressInit]
  cases hr : compressInitLoop env n 0 s with
  | mk ok s' =>
      rw [hr] at h
      cases ok with
      | true =>
          have hok := h.ok.1 rfl
          exact ⟨h.tracked, by simp [hok], by simp [hok, h.up rfl]⟩
      | false =>
          have hok : ¬env.bufs 0 n := by simp [← h.ok]
          obtain ⟨hexit, hheld⟩ := freeCpuBufs_spec n 0 h.tracked
          refine ⟨hexit, by simp [hok, enomem], ?_⟩
          simp only [hheld, hok, false_and, Set.ofPred_false, Set.union_empty]
          apply Set.Subset.antisymm
          · rw [Set.sdiff_subset_iff, Set.union_comm]
            exact h.fails
          · intro r hr
            exact ⟨h.before hr, Set.disjoint_left.1 hfree hr⟩

/-- The buffers of `n` CPUs. -/
@[simps]
def compressStage (env : LoadEnv) (n : Nat) : Stage (Tracked env) heldSet where
  owns := cpuBufs 0 n
  needs := cpuBufs 0 n
  init := minimemCompressInit env n
  exit := minimemCompressExit n
  needs_owns := subset_rfl
  init_ok s hs hfree := (minimemCompressInit_spec hs hfree).1
  init_held s hs hfree hret := by
    obtain ⟨_, hok, hheld⟩ := minimemCompressInit_spec hs hfree
    simp [hheld, hok.1 hret]
  init_fails s hs hfree hret := by
    obtain ⟨_, hok, hheld⟩ := minimemCompressInit_spec hs hfree
    simp [hheld, hok.not.1 hret]
  exit_ok s hs _ := (freeCpuBufs_spec n 0 hs).1
  exit_held s hs _ := (freeCpuBufs_spec n 0 hs).2

/-- `minimem_zswap_exit` gives back the pool and the cache of the entries. -/
theorem minimemZswapExit_spec {env : LoadEnv} {s : Module} (hs : Tracked env s) :
    Tracked env (minimemZswapExit s) ∧
      heldSet (minimemZswapExit s) = heldSet s \ {.pool, .entryCache} := by
  obtain ⟨h₁, hheld₁⟩ := hs.dealloc (r := .entryCache) rfl
  obtain ⟨h₂, hheld₂⟩ := h₁.dealloc (r := .pool) rfl
  refine ⟨h₂, ?_⟩
  rw [minimemZswapExit, hheld₂, hheld₁, Set.sdiff_sdiff, Set.union_comm, Set.insert_eq]

/-- `minimem_zswap_init` has the pool and the cache; the pool stays behind when the cache fails. -/
theorem minimemZswapInit_spec {env : LoadEnv} {s : Module} (hs : Tracked env s)
    (hfree : Disjoint (heldSet s) {.pool, .entryCache}) :
    Tracked env (minimemZswapInit env s).2 ∧
      ((minimemZswapInit env s).1 = 0 ↔ env.pool = true ∧ env.entryCache = true) ∧
      heldSet (minimemZswapInit env s).2 = heldSet s ∪
        {r | env.pool = true ∧ (r = .pool ∨ env.entryCache = true ∧ r = .entryCache)} := by
  have hp := not_held hfree (r := .pool) (by simp)
  have hc := not_held hfree (r := .entryCache) (by simp)
  have h₁ := hs.alloc (r := .pool) rfl hp env.pool
  have hc₁ : (s.alloc .pool env.pool).held .entryCache = false := by
    simp only [Module.alloc]
    split <;> simpa [Module.take, Module.setPtr] using hc
  have h₂ := h₁.alloc (r := .entryCache) rfl hc₁ env.entryCache
  simp only [minimemZswapInit, allocInit]
  split
  next hpool =>
    rw [hpool] at h₁ ⊢
    exact ⟨h₁, by simp [enomem], by simp [heldSet_alloc]⟩
  next hpool =>
    simp only [Bool.not_eq_false] at hpool
    refine ⟨h₂, by simp [hpool, enomem], ?_⟩
    ext r
    cases hcache : env.entryCache with
    | false => simp [heldSet_alloc, hpool]
    | true =>
        simp [heldSet_alloc, hpool]
        tauto

/-- The storage; the cache is made with `SLAB_PANIC`. -/
@[simps]
def zswapStage (env : LoadEnv) (hcache : env.entryCache = true) :
    Stage (Tracked env) heldSet where
  owns := {.pool, .entryCache}
  needs := {.pool, .entryCache}
  init := minimemZswapInit env
  exit := minimemZswapExit
  needs_owns := subset_rfl
  init_ok s hs hfree := (minimemZswapInit_spec hs hfree).1
  init_held s hs hfree hret := by
    obtain ⟨_, hok, hheld⟩ := minimemZswapInit_spec hs hfree
    have hpool := hok.1 hret
    simp [hheld, hpool, Set.insert_def]
  init_fails s hs hfree hret := by
    obtain ⟨_, hok, hheld⟩ := minimemZswapInit_spec hs hfree
    have hpool : env.pool = false := by simpa [hok, hcache] using hret
    simp [hheld, hpool]
  exit_ok s hs _ := (minimemZswapExit_spec hs).1
  exit_held s hs _ := (minimemZswapExit_spec hs).2

/-- What the hook takes. -/
def hookOwns : Set Resource := {r | r.ofHook = true}

/-- `minimem_scanner_init` has its thread, or returns the error of its creation. -/
theorem minimemScannerInit_spec {env : LoadEnv} {s : Module} (hs : Tracked env s)
    (hfree : Disjoint (heldSet s) {.scanner}) :
    Tracked env (minimemScannerInit env s).2 ∧ (minimemScannerInit env s).1 = env.kthread ∧
      heldSet (minimemScannerInit env s).2 =
        heldSet s ∪ {r | env.kthread = 0 ∧ r = .scanner} := by
  have hheld := not_held hfree (r := .scanner) rfl
  rw [minimemScannerInit]
  split
  next hret =>
    have := hs.update (r := .scanner) rfl false s.misused .err hs.unmisused (by simp)
    rw [← hheld, Function.update_eq_self] at this
    exact ⟨this, rfl, by simp [hret, heldSet, Module.setPtr]⟩
  next hret =>
    have hret := not_not.1 hret
    have := hs.alloc (r := .scanner) rfl hheld true
    have hset := heldSet_alloc s .scanner true
    exact ⟨by simpa [Module.alloc] using this, hret.symm, by simpa [Module.alloc, hret] using hset⟩

/-- `minimem_scanner_exit` stops the thread. -/
theorem minimemScannerExit_spec {env : LoadEnv} {s : Module} (hs : Tracked env s) :
    Tracked env (minimemScannerExit s) ∧
      heldSet (minimemScannerExit s) = heldSet s \ {.scanner} := by
  have hptr := hs.pointed .scanner rfl
  rw [minimemScannerExit]
  split
  next h =>
    have hheld : .scanner ∉ heldSet s := by simp [heldSet, ← hptr, h]
    exact ⟨hs, (Set.sdiff_singleton_eq_self hheld).symm⟩
  next h =>
    have hheld : .scanner ∉ heldSet s := by simp [heldSet, ← hptr, h]
    have := hs.dealloc (r := .scanner) rfl
    simpa [Module.dealloc, h] using this
  next h =>
    have := hs.dealloc (r := .scanner) rfl
    rw [Module.dealloc, if_pos h] at this
    exact this

/-- The scanner thread. -/
@[simps]
def scannerStage (env : LoadEnv) : Stage (Tracked env) heldSet where
  owns := {.scanner}
  needs := {.scanner}
  init := minimemScannerInit env
  exit := minimemScannerExit
  needs_owns := subset_rfl
  init_ok s hs hfree := (minimemScannerInit_spec hs hfree).1
  init_held s hs hfree hret := by
    obtain ⟨_, hok, hheld⟩ := minimemScannerInit_spec hs hfree
    simp [hheld, hok.symm.trans hret]
  init_fails s hs hfree hret := by
    obtain ⟨_, hok, hheld⟩ := minimemScannerInit_spec hs hfree
    rw [hok] at hret
    simp [hheld, hret]
  exit_ok s hs _ := (minimemScannerExit_spec hs).1
  exit_held s hs _ := (minimemScannerExit_spec hs).2

/-- The hook takes and gives back nothing that a variable points to. -/
theorem update_ofHook (held : Resource → Bool) (b : Bool) {r : Resource}
    (hr : r.pointed = true) (r' : Resource) (hr' : r'.ofHook = true) :
    Function.update held r' b r = held r := by
  apply Function.update_of_ne
  intro h
  have := ofHook_of_pointed hr
  simp [h, hr'] at this

/-- The return probe is registered, or not. -/
theorem registerKretprobe_spec {env : LoadEnv} {s : Module} (hs : Tracked env s)
    (hfree : s.held .kretprobe = false) :
    Tracked env (registerKretprobe env s).2 ∧
      heldSet s ⊆ heldSet (registerKretprobe env s).2 ∧
      heldSet (registerKretprobe env s).2 ⊆ insert .kretprobe (heldSet s) := by
  rw [registerKretprobe]
  split
  · exact ⟨hs, subset_rfl, Set.subset_insert _ _⟩
  · split
    · exact ⟨hs, subset_rfl, Set.subset_insert _ _⟩
    · have hset := heldSet_take s .kretprobe
      refine ⟨?_, (Set.subset_insert _ _).trans hset.ge, hset.le⟩
      constructor
      · simp [Module.take, hs.unmisused, hfree]
      · intro r hr
        simpa [Module.take, update_ofHook _ true hr .kretprobe rfl] using hs.pointed r hr
      · simp [Module.take]
      · simpa [Module.take] using hs.patches
      · simpa [Module.take] using hs.zapCallback

/-- The fault handler is registered, and the callback where the kernel has a place for it. -/
theorem registerFaultHandler_spec {env : LoadEnv} {s : Module} (hs : Tracked env s)
    (hf : s.held .faultHandler = false) {s' : Module}
    (hs' : s' = if env.zapCbSymbol = true then
        { s.take .faultHandler with kernelPatchesDetected := true }.take .zapCallback
      else { s.take .faultHandler with kernelPatchesDetected := true }) :
    Tracked env s' ∧ heldSet s ⊆ heldSet s' ∧
      heldSet s' ⊆ heldSet s ∪ {.faultHandler, .zapCallback} := by
  have hz : s.held .zapCallback = false := by simp [hs.zapCallback, hf]
  have hset : heldSet { s.take .faultHandler with kernelPatchesDetected := true }
      = insert .faultHandler (heldSet s) := heldSet_take s .faultHandler
  subst hs'
  split
  next hzap =>
    rw [heldSet_take, hset]
    refine ⟨?_, (Set.subset_insert _ _).trans (Set.subset_insert _ _), ?_⟩
    · constructor
      · simp [Module.take, hs.unmisused, hf, hz]
      · intro r hr
        simpa [Module.take, update_ofHook _ true hr .zapCallback rfl,
          update_ofHook _ true hr .faultHandler rfl] using hs.pointed r hr
      · simpa [Module.take] using hs.hookRegistered
      · simp [Module.take]
      · simp [Module.take, hzap]
    · intro r hr
      simp only [Set.mem_insert_iff, Set.mem_union, Set.mem_singleton_iff] at hr ⊢
      tauto
  next hzap =>
    rw [hset]
    refine ⟨?_, Set.subset_insert _ _, ?_⟩
    · constructor
      · simp [Module.take, hs.unmisused, hf]
      · intro r hr
        simpa [Module.take, update_ofHook _ true hr .faultHandler rfl]
          using hs.pointed r hr
      · simpa [Module.take] using hs.hookRegistered
      · simp [Module.take]
      · simp [Module.take, hzap, hz]
    · intro r hr
      simp only [Set.mem_insert_iff, Set.mem_union, Set.mem_singleton_iff] at hr ⊢
      tauto

/-- `minimem_hook_init` takes no more than its own, whatever it finds in the kernel. -/
theorem minimemHookInit_spec {env : LoadEnv} {s : Module} (hs : Tracked env s)
    (hfree : Disjoint (heldSet s) hookOwns) :
    Tracked env (minimemHookInit env s).2 ∧
      insert .hook (heldSet s) ⊆ heldSet (minimemHookInit env s).2 ∧
      heldSet (minimemHookInit env s).2 ⊆ heldSet s ∪ hookOwns := by
  have hh := not_held hfree (r := .hook) rfl
  have hf := not_held hfree (r := .faultHandler) rfl
  have hk := not_held hfree (r := .kretprobe) rfl
  have hown : insert .hook (heldSet s) ⊆ heldSet s ∪ hookOwns :=
    Set.insert_subset (.inr rfl) Set.subset_union_left
  -- the module with the hook up, and nothing registered
  have h₁ : Tracked env { s.take .hook with kernelPatchesDetected := false } := by
    constructor
    · simp [Module.take, hs.unmisused, hh]
    · intro r hr
      simpa [Module.take, update_ofHook _ true hr .hook rfl] using hs.pointed r hr
    · simpa [Module.take] using hs.hookRegistered
    · simp [Module.take, hf]
    · simpa [Module.take] using hs.zapCallback
  have hset₁ : heldSet { s.take .hook with kernelPatchesDetected := false }
      = insert .hook (heldSet s) := heldSet_take s .hook
  have hle₁ := hset₁.le.trans hown
  obtain ⟨h₂, hge₂, hle₂⟩ := registerKretprobe_spec h₁ (by simpa [Module.take] using hk)
  have hle₂ : heldSet (registerKretprobe env
      { s.take .hook with kernelPatchesDetected := false }).2 ⊆ heldSet s ∪ hookOwns :=
    hle₂.trans (Set.insert_subset (.inr rfl) hle₁)
  simp only [minimemHookInit]
  split
  · exact ⟨h₁, hset₁.ge, hle₁⟩
  · split
    · exact ⟨h₂, hset₁.ge.trans hge₂, hle₂⟩
    · split
      · exact ⟨h₂, hset₁.ge.trans hge₂, hle₂⟩
      · obtain ⟨h₃, hge₃, hle₃⟩ :=
          registerFaultHandler_spec h₁ (by simpa [Module.take] using hf) rfl
        have hk₃ : .kretprobe ∉ heldSet _ := fun h => by
          simpa [heldSet, Module.take, hk] using hle₃ h
        obtain ⟨h₄, hge₄, hle₄⟩ := registerKretprobe_spec h₃ (Bool.eq_false_iff.2 hk₃)
        refine ⟨h₄, hset₁.ge.trans (hge₃.trans hge₄), hle₄.trans ?_⟩
        refine Set.insert_subset (.inr rfl) (hle₃.trans (Set.union_subset hle₁ ?_))
        exact Set.insert_subset (.inr rfl) (Set.singleton_subset_iff.2 (.inr rfl))

/-- `minimem_hook_exit` gives back all that the hook has, and nothing that it has not. -/
theorem minimemHookExit_eq {env : LoadEnv} {s : Module} (hs : Tracked env s)
    (hheld : s.held .hook = true) :
    minimemHookExit env s = { s with
      hookRegistered := false
      held := fun r => s.held r && !r.ofHook } := by
  have hpatches := hs.patches hheld
  have hzap := hs.zapCallback
  have hregistered := hs.hookRegistered
  have hmisused := hs.unmisused
  obtain ⟨ptr, patches, registered, held, misused⟩ := s
  simp only at hheld hpatches hzap hregistered hmisused
  subst hpatches hregistered hmisused
  cases hf : held .faultHandler <;> cases hz : env.zapCbSymbol <;> cases hk : held .kretprobe <;>
    simp only [hf, hz, Bool.and_true, Bool.and_false] at hzap <;>
    simp [minimemHookExit, Module.give, hf, hz, hk, hheld, hzap] <;>
    · funext r
      cases r <;> simp_all [Function.update, Resource.ofHook]

/-- `minimem_hook_exit` gives all of that back. -/
theorem minimemHookExit_spec {env : LoadEnv} {s : Module} (hs : Tracked env s)
    (hheld : s.held .hook = true) :
    Tracked env (minimemHookExit env s) ∧
      heldSet (minimemHookExit env s) = heldSet s \ hookOwns := by
  rw [minimemHookExit_eq hs hheld]
  refine ⟨?_, by ext r; simp [heldSet, hookOwns]⟩
  constructor
  · exact hs.unmisused
  · intro r hr
    simpa [ofHook_of_pointed hr] using hs.pointed r hr
  · simp [Resource.ofHook]
  · simp [Resource.ofHook]
  · simp [Resource.ofHook]

/-- The hook, whose failure is not fatal. -/
@[simps]
def hookStage (env : LoadEnv) : Stage (Tracked env) heldSet where
  owns := hookOwns
  needs := {.hook}
  init s := (0, (minimemHookInit env s).2)
  exit := minimemHookExit env
  needs_owns := Set.singleton_subset_iff.2 rfl
  init_ok s hs hfree := (minimemHookInit_spec hs hfree).1
  init_held s hs hfree _ := by
    obtain ⟨_, hge, hle⟩ := minimemHookInit_spec hs hfree
    exact ⟨by simpa using hge, hle⟩
  init_fails s hs hfree hret := absurd rfl hret
  exit_ok s hs hheld := (minimemHookExit_spec hs (hheld rfl)).1
  exit_held s hs hheld := (minimemHookExit_spec hs (hheld rfl)).2

/-- The fault handling, which has nothing. -/
@[simps]
def faultStage (env : LoadEnv) : Stage (Tracked env) heldSet where
  owns := ∅
  needs := ∅
  init := minimemFaultInit
  exit := minimemFaultExit
  needs_owns := subset_rfl
  init_ok s hs _ := hs
  init_held s hs _ _ := by simp [minimemFaultInit]
  init_fails s hs _ hret := absurd rfl hret
  exit_ok s hs _ := hs
  exit_held s hs _ := by simp [minimemFaultExit]

/-- The directory in debugfs. -/
@[simps]
def debugfsStage (env : LoadEnv) : Stage (Tracked env) heldSet where
  owns := {.debugfsDir}
  needs := ∅
  init := debugfsInit env
  exit s := s.drop .debugfsDir
  needs_owns := Set.empty_subset _
  init_ok s hs hfree := by
    simp only [debugfsInit]
    split
    · exact hs.take rfl rfl (not_held hfree rfl)
    · exact hs
  init_held s hs hfree _ := by
    simp only [debugfsInit]
    split
    · simp [heldSet_take]
    · simp
  init_fails s hs _ hret := absurd rfl hret
  exit_ok s hs _ := hs.drop rfl rfl
  exit_held s hs _ := heldSet_drop s _

/-- The files of the statistics. -/
def procFileOwns (files : List Nat) : Set Resource := {r | ∃ i ∈ files, r = .procFile i}

/-- The files that were created are removed, by induction on the list. -/
theorem procFilesExit_spec {env : LoadEnv} (files : List Nat) {s : Module} (hs : Tracked env s) :
    Tracked env (files.foldl (fun s i => s.drop (.procFile i)) s) ∧
      heldSet (files.foldl (fun s i => s.drop (.procFile i)) s)
        = heldSet s \ procFileOwns files := by
  induction files generalizing s with
  | nil => simp [hs, procFileOwns]
  | cons i files ih =>
      obtain ⟨h, hheld⟩ := ih (hs.drop (r := .procFile i) rfl rfl)
      refine ⟨h, hheld.trans ?_⟩
      rw [heldSet_drop, Set.sdiff_sdiff]
      congr 1
      ext r
      simp [procFileOwns]

/-- Each file is created or not, by induction on the list. -/
theorem procFilesInit_spec {env : LoadEnv} (files : List Nat) (hnodup : files.Nodup)
    {s : Module} (hs : Tracked env s) (hfree : Disjoint (heldSet s) (procFileOwns files))
    {s' : Module} (hs' : s' = files.foldl
      (fun s i => if env.procFile i = true then s.take (.procFile i) else s) s) :
    Tracked env s' ∧ heldSet s ⊆ heldSet s' ∧ heldSet s' ⊆ heldSet s ∪ procFileOwns files := by
  induction files generalizing s with
  | nil => simp [hs, hs', procFileOwns]
  | cons i files ih =>
      obtain ⟨hi, hnodup⟩ := List.nodup_cons.1 hnodup
      have hcons : procFileOwns (i :: files) = insert (.procFile i) (procFileOwns files) := by
        ext r
        simp [procFileOwns]
      rw [hcons, Set.disjoint_insert_right] at hfree
      rw [hcons, Set.union_insert]
      rw [List.foldl_cons] at hs'
      split at hs'
      next hfile =>
        have htake := heldSet_take s (.procFile i)
        have hfree' : Disjoint (heldSet (s.take (.procFile i))) (procFileOwns files) := by
          rw [htake, Set.disjoint_insert_left]
          exact ⟨by simp [procFileOwns, hi], hfree.2⟩
        obtain ⟨h, hge, hle⟩ :=
          ih hnodup (hs.take rfl rfl (Bool.eq_false_iff.2 hfree.1)) hfree' hs'
        rw [htake] at hge hle
        exact ⟨h, (Set.subset_insert _ _).trans hge, hle.trans (by rw [Set.insert_union])⟩
      next hfile =>
        obtain ⟨h, hge, hle⟩ := ih hnodup hs hfree.2 hs'
        exact ⟨h, hge, hle.trans (Set.subset_insert _ _)⟩

/-- The files of the statistics, whose failures are only reported. -/
@[simps]
def procFilesStage (env : LoadEnv) : Stage (Tracked env) heldSet where
  owns := procFileOwns procFiles
  needs := ∅
  init := procFilesInit env
  exit := procFilesExit
  needs_owns := Set.empty_subset _
  init_ok s hs hfree := (procFilesInit_spec procFiles (by decide) hs hfree rfl).1
  init_held s hs hfree _ := by
    obtain ⟨_, hge, hle⟩ := procFilesInit_spec procFiles (by decide) hs hfree rfl
    exact ⟨Set.union_empty _ ▸ hge, hle⟩
  init_fails s hs _ hret := absurd rfl hret
  exit_ok s hs _ := (procFilesExit_spec procFiles hs).1
  exit_held s hs _ := (procFilesExit_spec procFiles hs).2

/-- The directory in sysfs. -/
def kobjectStage (env : LoadEnv) : Stage (Tracked env) heldSet :=
  takeStage env .kobject (by decide) (by decide) (if env.kobject = true then 0 else enomem)
    (kobjectInit env) fun s => by
      by_cases h : env.kobject = true <;> simp [kobjectInit, h, enomem]

/-- The attributes of the module. -/
def sysfsStage (env : LoadEnv) : Stage (Tracked env) heldSet :=
  takeStage env .sysfsGroup (by decide) (by decide) env.sysfsGroup (sysfsInit env)
    fun s => by rw [sysfsInit]

/-! ## The module as a start in stages -/

/-- All parts, as `minimem_init` brings them up. -/
def parts (env : LoadEnv) (n : Nat) (hcache : env.entryCache = true) :
    List (Stage (Tracked env) heldSet) :=
  [compressStage env n, zswapStage env hcache,
    allocStage env .parallelWq (by decide) env.parallelWq, faultStage env,
    allocStage env .shrinker (by decide) env.shrinker,
    allocStage env .mmuWq (by decide) env.mmuWq, scannerStage env, hookStage env, kobjectStage env,
    sysfsStage env, procFilesStage env, debugfsStage env]

/-- All parts, as `minimem_exit` takes them down. -/
def partsDown (env : LoadEnv) (n : Nat) (hcache : env.entryCache = true) :
    List (Stage (Tracked env) heldSet) :=
  [procFilesStage env, debugfsStage env, sysfsStage env, kobjectStage env, scannerStage env,
    hookStage env, allocStage env .mmuWq (by decide) env.mmuWq,
    allocStage env .shrinker (by decide) env.shrinker, faultStage env,
    allocStage env .parallelWq (by decide) env.parallelWq, zswapStage env hcache,
    compressStage env n]

/-- `minimem_exit` is the exits of the stages from the last to the first. -/
theorem minimemExit_eq {env : LoadEnv} (n : Nat) (hcache : env.entryCache = true) (s : Module) :
    minimemExit env n s = stopStages (partsDown env n hcache) s := by
  simp [minimemExit, stopStages, partsDown, minimemParallelExit, minimemShrinkerExit,
    minimemMmuExit, kobjectStage, sysfsStage]

/-- What the hook may hold. -/
theorem mem_hookOwns {r : Resource} : r ∈ hookOwns ↔ r.ofHook = true := Iff.rfl

/-- The buffers of the CPUs from `cpu` on. -/
theorem mem_cpuBufs {cpu n : Nat} {r : Resource} :
    r ∈ cpuBufs cpu n ↔ ∃ i, cpu ≤ i ∧ i < cpu + n ∧ (r = .compressBuf i ∨ r = .decompressBuf i) :=
  Iff.rfl

/-- The files of a list. -/
theorem mem_procFileOwns {files : List Nat} {r : Resource} :
    r ∈ procFileOwns files ↔ ∃ i ∈ files, r = .procFile i := Iff.rfl

/-- What holds no buffer is disjoint from the buffers. -/
theorem cpuBufs_disjoint_of {n : Nat} {A : Set Resource}
    (h : ∀ i, .compressBuf i ∉ A ∧ .decompressBuf i ∉ A) : Disjoint (cpuBufs 0 n) A := by
  rw [Set.disjoint_left]
  intro r ⟨i, _, _, hr⟩
  cases hr with
  | inl hr => exact hr ▸ (h i).1
  | inr hr => exact hr ▸ (h i).2

/-- No two stages own the same resource. -/
theorem parts_disjoint {env : LoadEnv} (n : Nat) (hcache : env.entryCache = true) :
    (parts env n hcache).Pairwise fun st st' => Disjoint st.owns st'.owns := by
  have hbufs : Disjoint (cpuBufs 0 n) hookOwns :=
    cpuBufs_disjoint_of (by simp [mem_hookOwns, Resource.ofHook])
  have hbufs' : Disjoint (cpuBufs 0 n) (procFileOwns procFiles) :=
    cpuBufs_disjoint_of (by simp [mem_procFileOwns])
  have hhook : Disjoint hookOwns (procFileOwns procFiles) := by
    rw [Set.disjoint_right]
    intro r ⟨i, _, hr⟩
    simp [hr, mem_hookOwns, Resource.ofHook]
  simp [parts, kobjectStage, sysfsStage, mem_cpuBufs, mem_procFileOwns, mem_hookOwns,
    Resource.ofHook, hbufs, hbufs', hhook]

/-- `minimem_exit` has an order of its own. -/
theorem partsDown_perm {env : LoadEnv} (n : Nat) (hcache : env.entryCache = true) :
    (partsDown env n hcache).Perm (parts env n hcache) := by
  refine List.Perm.trans ?_ (List.reverse_perm _)
  have hscanner := (List.Perm.swap (hookStage env) (scannerStage env)
    [allocStage env .mmuWq (by decide) env.mmuWq,
      allocStage env .shrinker (by decide) env.shrinker, faultStage env,
      allocStage env .parallelWq (by decide) env.parallelWq, zswapStage env hcache,
      compressStage env n])
  exact (List.Perm.swap (debugfsStage env) (procFilesStage env) _).trans
    ((((hscanner.cons _).cons _).cons _).cons _)

/-- Nor do they in the order of the exit. -/
theorem partsDown_disjoint {env : LoadEnv} (n : Nat) (hcache : env.entryCache = true) :
    (partsDown env n hcache).Pairwise fun st st' => Disjoint st.owns st'.owns :=
  ((partsDown_perm n hcache).pairwise_iff fun h => h.symm).2 (parts_disjoint n hcache)

/-- What a module has that is up. -/
def loaded (n : Nat) : Set Resource :=
  cpuBufs 0 n ∪ {.pool, .entryCache, .parallelWq, .shrinker, .mmuWq, .scanner, .hook, .kobject,
    .sysfsGroup}

/-- Together the stages need what a loaded module holds. -/
theorem stagesNeed_parts {env : LoadEnv} (n : Nat) (hcache : env.entryCache = true) :
    stagesNeed (parts env n hcache) = loaded n := by
  ext r
  simp [stagesNeed, parts, kobjectStage, sysfsStage, loaded, or_assoc]
  tauto

/-- The entries of the statistics. -/
def procEntries : Set Resource := {r | ∃ pid, r = .procEntry pid}

/-- No stage owns an entry of procfs. -/
theorem stagesOwn_parts_disjoint {env : LoadEnv} (n : Nat) (hcache : env.entryCache = true) :
    Disjoint procEntries (stagesOwn (parts env n hcache)) := by
  rw [Set.disjoint_left]
  rintro _ ⟨pid, rfl⟩
  simp [stagesOwn, parts, kobjectStage, sysfsStage, mem_cpuBufs, mem_procFileOwns, mem_hookOwns,
    Resource.ofHook]

/-! ## Loading and unloading -/

/-- What changes between `minimem_init` and `minimem_exit`: entries of the statistics come and
go. -/
inductive ModuleStep : Module → Module → Prop where
  | newEntry (s : Module) (pid : Nat) :
      s.held (.procEntry pid) = false → ModuleStep s (s.take (.procEntry pid))
  | freeEntry (s : Module) (pid : Nat) :
      s.held (.procEntry pid) = true → ModuleStep s (s.give (.procEntry pid))

/-- A module that is up. -/
structure Up (env : LoadEnv) (n : Nat) (hcache : env.entryCache = true) (s : Module) : Prop where
  tracked : Tracked env s
  needs : loaded n ⊆ heldSet s
  owns : heldSet s ⊆ stagesOwn (parts env n hcache) ∪ procEntries

/-- An entry of a process that comes or goes leaves the module up. -/
theorem Up.step {env : LoadEnv} {n : Nat} {hcache : env.entryCache = true} {s s' : Module}
    (hs : Up env n hcache s) (hstep : ModuleStep s s') : Up env n hcache s' := by
  cases hstep with
  | newEntry pid h =>
      refine ⟨hs.tracked.take rfl rfl h, ?_, ?_⟩
      · rw [heldSet_take]
        exact hs.needs.trans (Set.subset_insert _ _)
      · rw [heldSet_take]
        exact Set.insert_subset (.inr ⟨pid, rfl⟩) hs.owns
  | freeEntry pid h =>
      refine ⟨hs.tracked.give rfl rfl h, ?_, ?_⟩
      · rw [heldSet_give]
        intro r hr
        refine ⟨hs.needs hr, ?_⟩
        rintro rfl
        simp [loaded, mem_cpuBufs] at hr
      · rw [heldSet_give]
        exact Set.sdiff_subset.trans hs.owns

/-- So does any number of them. -/
theorem Up.run {env : LoadEnv} {n : Nat} {hcache : env.entryCache = true} {s s' : Module}
    (hs : Up env n hcache s) (hrun : Relation.ReflTransGen ModuleStep s s') :
    Up env n hcache s' := by
  induction hrun with
  | refl => exact hs
  | tail _ hstep ih => exact ih.step hstep

/-- A module that is up is taken down, but for the entries. -/
theorem Up.exit {env : LoadEnv} {n : Nat} {hcache : env.entryCache = true} {s : Module}
    (hs : Up env n hcache s) :
    Tracked env (minimemExit env n s) ∧
      heldSet (minimemExit env n s) = heldSet s ∩ procEntries := by
  have hperm := partsDown_perm n hcache
  have hneeds : stagesNeed (partsDown env n hcache) = loaded n := by
    rw [← stagesNeed_parts n hcache]
    ext r
    simp [stagesNeed, hperm.mem_iff]
  have howns : stagesOwn (partsDown env n hcache) = stagesOwn (parts env n hcache) := by
    ext r
    simp [stagesOwn, hperm.mem_iff]
  obtain ⟨hok, hheld⟩ := stopped (partsDown_disjoint n hcache) hs.tracked (hneeds ▸ hs.needs)
  rw [minimemExit_eq n hcache, hheld, howns]
  refine ⟨hok, ?_⟩
  ext r
  have hdisj := stagesOwn_parts_disjoint n hcache
  constructor
  · intro h
    exact ⟨h.1, (hs.owns h.1).resolve_left h.2⟩
  · intro h
    exact ⟨h.1, Set.disjoint_left.1 hdisj h.2⟩

end MiniMem
