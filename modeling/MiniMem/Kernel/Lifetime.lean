import MiniMem.Kernel.AddressSpaces
import MiniMem.Kernel.Threads

/-!
# MiniMem.Kernel.Lifetime

How long a zsmalloc handle lives while several threads are at work.  A
thread that has its copy of an entry goes on to read and free its object
whatever happens to the map meanwhile; only `minimem_zswap_remove` frees on
the condition that it took the entry out itself.  A handle is safe as long
as no two threads have it at the same time.
-/

namespace MiniMem

/-! ## What a thread has -/

/-- The address whose entry a task works on. -/
def Task.target : Task → Nat
  | .fault _ _ vmf => pageMask vmf.address
  | .restore _ vaddr _ => vaddr
  | .remove vaddr => vaddr
  | .zapCb addr => pageMask addr
  | .shrink _ => 0

/-- `minimem_zswap_remove` frees only what it has taken out of the map itself. -/
def Task.freesOwn : Task → Bool
  | .remove _ => true
  | _ => false

/-- The copy of an entry that a thread has not yet removed. -/
def TaskPc.copy : TaskPc → Option MapEntry
  | .looked entry => some entry
  | .decompressed entry _ => some entry
  | _ => none

/-- The entry that a thread has removed and not yet freed. -/
def TaskPc.owned : TaskPc → Option MapEntry
  | .removed entry _ => some entry
  | .fetched _ _ entry => some entry
  | _ => none

/-- The handle that a thread has: it goes on to read or to free it. -/
def heldHandle (task : Task) (pc : TaskPc) : Option Nat :=
  match pc.owned with
  | some entry => some entry.zsHandle
  | none => if task.freesOwn then none else pc.copy.map MapEntry.zsHandle

/-- Whether a task goes on to read or free the object of the entry that it looks up. -/
def Task.looks (k : Kernel) : Task → Bool
  | .fault _ env vmf =>
      k.symbolsResolved && vmf.origPte.isMinimem && env.page && env.srcBuf
  | .restore env _ _ => env.localBuf
  | .remove _ => false
  | .zapCb _ => true
  | .shrink _ => false

/-- The handle that a thread gets hold of with its next step: with its lookup, for
`minimem_zswap_remove` with its removal, for a drain with each entry that it erases. -/
def takenHandle (k : Kernel) (task : Task) : TaskPc → Option Nat
  | .start =>
      if task.looks k then (mapLookup k.map task.target).map MapEntry.zsHandle else none
  | .looked _ =>
      if task.freesOwn then (mapLookup k.map task.target).map MapEntry.zsHandle else none
  | .draining (_ + 1) cursor => (k.map.entries.findFrom cursor).map fun p => p.2.zsHandle
  | _ => none

/-- No other thread has the handle that thread `i` takes with its next step. -/
def TakesAlone (tasks : List Task) (s : ThreadState) (i : Nat) : Prop :=
  ∀ task, tasks[i]? = some task → ∀ h, takenHandle s.kernel task (s.pcs i) = some h →
    ∀ j task', tasks[j]? = some task' → heldHandle task' (s.pcs j) = some h → j = i

/-- Whether a thread takes its handle alone, by looking at each of the threads. -/
theorem takesAlone_iff (tasks : List Task) (s : ThreadState) (i : Nat) :
    TakesAlone tasks s i ↔ ∀ j < tasks.length, j ≠ i →
      ∀ h ∈ tasks[i]?.bind fun task => takenHandle s.kernel task (s.pcs i),
        (tasks[j]?.bind fun task => heldHandle task (s.pcs j)) ≠ some h := by
  simp only [TakesAlone, Option.mem_def, Option.bind_eq_some_iff, ne_eq]
  constructor
  · rintro halone j - hne h ⟨task, htask, htaken⟩ ⟨task', htask', hheld⟩
    exact hne (halone task htask h htaken j task' htask' hheld)
  · intro halone task htask h htaken j task' htask' hheld
    by_contra hne
    have hj : j < tasks.length := (List.getElem?_eq_some_iff.1 htask').1
    exact halone j hj hne h ⟨task, htask, htaken⟩ ⟨task', htask', hheld⟩

instance decidableTakesAlone (tasks : List Task) (s : ThreadState) (i : Nat) :
    Decidable (TakesAlone tasks s i) :=
  decidable_of_iff' _ (takesAlone_iff tasks s i)

/-- The handle of an event. -/
def PoolEvent.handle : PoolEvent → Nat
  | .read h => h
  | .free h => h

/-- Latest first: nothing is done with a handle after it was freed. -/
def TraceOk : List PoolEvent → Prop
  | [] => True
  | event :: trace => .free event.handle ∉ trace ∧ TraceOk trace

/-! ## What a step can do -/

/-- Every step of a thread is one of these: it lets go of what it had; it copies an entry;
it reads the object of its copy; it removes the entry of its copy; it removes the entry of
its address, for itself; it erases the next entry of a drain; it frees what it owns. -/
inductive TurnKind (k : Kernel) (task : Task) (pc : TaskPc) (t : Turn) : Prop
  | rest (hmap : ∀ x, t.kernel.map.entries.load x = k.map.entries.load x) (hevent : t.event = none)
      (hcopy : t.pc.copy = none) (howned : t.pc.owned = none)
  | look (entry : MapEntry) (hmap : ∀ x, t.kernel.map.entries.load x = k.map.entries.load x)
      (hevent : t.event = none) (hlookup : mapLookup k.map task.target = some entry)
      (htaken : task.freesOwn = false → takenHandle k task pc = some entry.zsHandle)
      (hcopy : t.pc.copy = some entry) (howned : t.pc.owned = none)
  | read (entry : MapEntry) (hmap : ∀ x, t.kernel.map.entries.load x = k.map.entries.load x)
      (hevent : t.event = some (.read entry.zsHandle)) (hown : task.freesOwn = false)
      (hhad : pc.copy = some entry) (hnone : pc.owned = none)
      (hcopy : t.pc.copy = none ∨ t.pc.copy = some entry) (howned : t.pc.owned = none)
  | remove (entry : MapEntry) (hmap : ∀ x, t.kernel.map.entries.load x =
        if x = vaddrToIndex task.target then none else k.map.entries.load x)
      (hevent : t.event = none) (hown : task.freesOwn = false) (hhad : pc.copy = some entry)
      (hnone : pc.owned = none) (hcopy : t.pc.copy = none) (howned : t.pc.owned = some entry)
  | removeOwn (entry : MapEntry) (hmap : ∀ x, t.kernel.map.entries.load x =
        if x = vaddrToIndex task.target then none else k.map.entries.load x)
      (hevent : t.event = none) (hhad : pc.copy = some entry)
      (hmapped : mapLookup k.map task.target ≠ none)
      (htaken : takenHandle k task pc = (mapLookup k.map task.target).map MapEntry.zsHandle)
      (hcopy : t.pc.copy = none) (howned : t.pc.owned = some entry)
  | erase (index : Nat) (entry : MapEntry) (hmap : ∀ x, t.kernel.map.entries.load x =
        if x = index then none else k.map.entries.load x)
      (hevent : t.event = none) (hload : k.map.entries.load index = some entry)
      (htaken : takenHandle k task pc = some entry.zsHandle)
      (hcopy : t.pc.copy = none) (howned : t.pc.owned = some entry)
  | free (entry : MapEntry) (hmap : ∀ x, t.kernel.map.entries.load x = k.map.entries.load x)
      (hevent : t.event = some (.free entry.zsHandle)) (hhad : pc.owned = some entry)
      (hcopy : t.pc.copy = none) (howned : t.pc.owned = none)

/-- A thread that ends without having done anything to the map. -/
theorem TurnKind.stop {k k' : Kernel} {task : Task} {pc : TaskPc} {rwsem : Option Nat}
    {fault : Option VmFault} {t : Turn}
    (h : some (Turn.mk k' rwsem (.done fault) none) = some t)
    (hmap : ∀ x, k'.map.entries.load x = k.map.entries.load x) : TurnKind k task pc t := by
  injection h with h
  subst h
  exact .rest hmap rfl rfl rfl

/-- A thread that ends after it has read the object of its copy. -/
theorem TurnKind.stopRead {k k' : Kernel} {task : Task} {entry : MapEntry} {rwsem : Option Nat}
    {fault : Option VmFault} {t : Turn}
    (h : some (Turn.mk k' rwsem (.done fault) (some (.read entry.zsHandle))) = some t)
    (hown : task.freesOwn = false) (hmap : ∀ x, k'.map.entries.load x = k.map.entries.load x) :
    TurnKind k task (.looked entry) t := by
  injection h with h
  subst h
  exact .read entry hmap rfl hown rfl rfl (.inl rfl) rfl

theorem lookupTurn_kind {rwsem : Option Nat} {i : Nat} {k : Kernel} {task : Task} {t : Turn}
    (h : lookupTurn rwsem i k task = some t) : TurnKind k task .start t := by
  cases task with
  | fault stock env vmf =>
      simp only [lookupTurn] at h
      split at h
      · exact .stop h fun _ => rfl
      next hsym =>
        split at h
        · exact .stop h fun _ => rfl
        next hmarker =>
          split at h
          · exact .stop h fun _ => rfl
          next entry hlookup =>
            split at h
            · exact .stop h fun _ => rfl
            next hpage =>
              split at h
              · exact .stop h fun _ => rfl
              next hbuf =>
                injection h with h
                subst h
                refine .look entry (fun _ => rfl) rfl hlookup (fun _ => ?_) rfl rfl
                simp [takenHandle, Task.looks, hsym, hmarker, hpage, hbuf, Task.target, hlookup]
  | restore env vaddr pfn =>
      simp only [lookupTurn] at h
      split at h
      · exact .stop h fun _ => rfl
      next entry hlookup =>
        split at h
        · exact .stop h fun _ => rfl
        next hbuf =>
          injection h with h
          subst h
          refine .look entry (fun _ => rfl) rfl hlookup (fun _ => ?_) rfl rfl
          simp [takenHandle, Task.looks, hbuf, Task.target, hlookup]
  | remove vaddr =>
      simp only [lookupTurn] at h
      split at h
      · exact .stop h fun _ => rfl
      next entry hlookup =>
        injection h with h
        subst h
        exact .look entry (fun _ => rfl) rfl hlookup (fun hown => by cases hown) rfl rfl
  | zapCb addr =>
      simp only [lookupTurn] at h
      split at h
      · exact .stop h fun _ => rfl
      next entry hlookup =>
        injection h with h
        subst h
        refine .look entry (fun _ => rfl) rfl hlookup (fun _ => ?_) rfl rfl
        simp [takenHandle, Task.looks, Task.target, hlookup]
  | shrink nrToScan =>
      simp only [lookupTurn] at h
      split at h
      · exact .stop h fun _ => rfl
      split at h
      · cases h
      · injection h with h
        subst h
        exact .rest (fun _ => rfl) rfl rfl rfl

/-- What `minimem_map_remove` does to the entries. -/
theorem removeTurn_some {rwsem : Option Nat} {k : Kernel} {vaddr : Nat} {pc : Bool → TaskPc}
    {t : Turn} (h : removeTurn rwsem k vaddr pc = some t) :
    (∀ x, t.kernel.map.entries.load x =
      if x = vaddrToIndex vaddr then none else k.map.entries.load x) ∧
    t.event = none ∧ t.pc = pc (mapRemove k.map vaddr).1 := by
  unfold removeTurn at h
  split at h
  · cases h
  · injection h with h
    subst h
    exact ⟨fun x => load_mapRemove _ _ _, rfl, rfl⟩

theorem lookedTurn_kind {codec : Codec} {rwsem : Option Nat} {k : Kernel} {task : Task}
    {entry : MapEntry} {t : Turn} (h : lookedTurn codec rwsem k entry task = some t) :
    TurnKind k task (.looked entry) t := by
  cases task with
  | fault stock env vmf =>
      simp only [lookedTurn] at h
      split at h
      · exact .stopRead h rfl fun _ => rfl
      split at h
      · exact .stopRead h rfl fun _ => rfl
      · injection h with h
        subst h
        exact .read entry (fun _ => rfl) rfl rfl rfl rfl (.inr rfl) rfl
  | restore env vaddr pfn =>
      simp only [lookedTurn] at h
      split at h
      · exact .stopRead h rfl fun _ => rfl
      split at h
      · exact .stopRead h rfl fun _ => rfl
      split at h
      · exact .stopRead h rfl fun _ => rfl
      split at h
      · exact .stopRead h rfl fun _ => rfl
      · injection h with h
        subst h
        cases pfn <;> exact .read entry (fun _ => rfl) rfl rfl rfl rfl (.inr rfl) rfl
  | remove vaddr =>
      simp only [lookedTurn] at h
      obtain ⟨hmap, hevent, hpc⟩ := removeTurn_some h
      cases hlookup : mapLookup k.map vaddr with
      | none =>
          have hmiss : (mapRemove k.map vaddr).1 = false := by
            unfold mapLookup at hlookup
            rw [mapRemove, hlookup]
          rw [hmiss] at hpc
          refine .rest ?_ hevent (by rw [hpc]; rfl) (by rw [hpc]; rfl)
          intro x
          rw [hmap x]
          split
          next hx => rw [hx, ← mapLookup, hlookup]
          · rfl
      | some entry' =>
          rw [mapRemove_of_lookup hlookup] at hpc
          have hmapped : mapLookup k.map vaddr ≠ none := by simp [hlookup]
          exact .removeOwn entry hmap hevent rfl hmapped rfl (by rw [hpc]; rfl) (by rw [hpc]; rfl)
  | zapCb addr =>
      simp only [lookedTurn] at h
      obtain ⟨hmap, hevent, hpc⟩ := removeTurn_some h
      exact .remove entry hmap hevent rfl rfl rfl (by rw [hpc]; rfl) (by rw [hpc]; rfl)
  | shrink nrToScan => cases h

theorem turnKind {codec : Codec} {rwsem : Option Nat} {i : Nat} {k : Kernel} {task : Task}
    {pc : TaskPc} {t : Turn} (h : turn codec rwsem i k task pc = some t) :
    TurnKind k task pc t := by
  cases pc with
  | start => exact lookupTurn_kind h
  | looked entry => exact lookedTurn_kind h
  | decompressed entry page =>
      cases task with
      | fault stock env vmf =>
          simp only [turn] at h
          obtain ⟨hmap, hevent, hpc⟩ := removeTurn_some h
          exact .remove entry hmap hevent rfl rfl rfl (by rw [hpc]; rfl) (by rw [hpc]; rfl)
      | restore env vaddr pfn =>
          simp only [turn] at h
          obtain ⟨hmap, hevent, hpc⟩ := removeTurn_some h
          exact .remove entry hmap hevent rfl rfl rfl (by rw [hpc]; rfl) (by rw [hpc]; rfl)
      | _ => cases h
  | removed entry page =>
      simp only [turn] at h
      split at h
      · injection h with h
        subst h
        exact .free entry (fun _ => rfl) rfl rfl rfl rfl
      · injection h with h
        subst h
        exact .free entry (fun _ => rfl) rfl rfl rfl rfl
  | freed page =>
      cases task with
      | fault stock env vmf =>
          injection h with h
          subst h
          refine .rest (fun x => ?_) rfl rfl rfl
          show (k.installPage vmf.vma vmf.mm vmf.address vmf.origPte page env.relock).map.entries.load
            x = _
          rw [map_installPage]
      | _ => cases h
  | draining left cursor =>
      cases left with
      | zero =>
          injection h with h
          subst h
          exact .rest (fun _ => rfl) rfl rfl rfl
      | succ left =>
          simp only [turn] at h
          split at h
          · exact .stop h fun _ => rfl
          next index entry hfind =>
            injection h with h
            subst h
            obtain ⟨hload, -, -⟩ := XArray.findFrom_eq_some hfind
            refine .erase index entry (fun x => XArray.load_erase _ _ _) rfl hload ?_ rfl rfl
            simp [takenHandle, hfind]
  | fetched left cursor entry =>
      injection h with h
      subst h
      exact .free entry (fun _ => rfl) rfl rfl rfl rfl
  | done fault => cases h

/-! ## The invariant -/

/-- A thread's copy is the entry that is mapped (or, for `minimem_zswap_remove`, gone), what
it owns is mapped nowhere, and what it has is not freed. -/
structure ThreadLife (k : Kernel) (trace : List PoolEvent) (task : Task) (pc : TaskPc) : Prop where
  copy : ∀ entry, pc.copy = some entry → mapLookup k.map task.target = some entry ∨
    (task.freesOwn = true ∧ mapLookup k.map task.target = none)
  owned : ∀ entry, pc.owned = some entry → ∀ x e, k.map.entries.load x = some e →
    e.zsHandle ≠ entry.zsHandle
  unfreed : ∀ h, heldHandle task pc = some h → .free h ∉ trace

theorem heldHandle_of_owned {task : Task} {pc : TaskPc} {entry : MapEntry}
    (h : pc.owned = some entry) : heldHandle task pc = some entry.zsHandle := by
  rw [heldHandle, h]

theorem heldHandle_of_copy {task : Task} {pc : TaskPc} {entry : MapEntry}
    (hown : task.freesOwn = false) (h : pc.copy = some entry) :
    heldHandle task pc = some entry.zsHandle := by
  cases pc with
  | looked e =>
      injection h with h
      simp [heldHandle, TaskPc.owned, hown, TaskPc.copy, h]
  | decompressed e page =>
      injection h with h
      simp [heldHandle, TaskPc.owned, hown, TaskPc.copy, h]
  | _ => cases h

theorem heldHandle_of_none {task : Task} {pc : TaskPc} (hcopy : pc.copy = none)
    (howned : pc.owned = none) : heldHandle task pc = none := by
  simp [heldHandle, hcopy, howned]

namespace ThreadLife

variable {k k' : Kernel} {trace : List PoolEvent} {task : Task} {pc : TaskPc}

/-- A thread that has nothing. -/
theorem rest (hcopy : pc.copy = none) (howned : pc.owned = none) :
    ThreadLife k trace task pc where
  copy entry h := by
    rw [hcopy] at h
    cases h
  owned entry h := by
    rw [howned] at h
    cases h
  unfreed handle h := by
    rw [heldHandle_of_none hcopy howned] at h
    cases h

theorem congr (h : ThreadLife k trace task pc)
    (hmap : ∀ x, k'.map.entries.load x = k.map.entries.load x) :
    ThreadLife k' trace task pc where
  copy := by
    simp only [mapLookup, hmap]
    exact h.copy
  owned := by
    simp only [hmap]
    exact h.owned
  unfreed := h.unfreed

/-- An event on a handle that the thread does not have. -/
theorem event (h : ThreadLife k trace task pc) {event : PoolEvent}
    (hne : ∀ handle, event = .free handle → heldHandle task pc ≠ some handle) :
    ThreadLife k (event :: trace) task pc where
  copy := h.copy
  owned := h.owned
  unfreed := by
    intro handle hheld hmem
    rcases List.mem_cons.1 hmem with heq | hmem
    · exact hne handle heq.symm hheld
    · exact h.unfreed handle hheld hmem

/-- Erasing an entry whose handle the thread does not have. -/
theorem erase (h : ThreadLife k trace task pc) {index : Nat} {erased : MapEntry}
    (hload : k.map.entries.load index = some erased)
    (hmap : ∀ x, k'.map.entries.load x = if x = index then none else k.map.entries.load x)
    (hne : heldHandle task pc ≠ some erased.zsHandle) : ThreadLife k' trace task pc where
  copy := by
    intro entry hcopy
    rw [mapLookup, hmap]
    by_cases hidx : vaddrToIndex task.target = index
    · right
      refine ⟨?_, if_pos hidx⟩
      rcases h.copy entry hcopy with hlookup | ⟨hown, -⟩
      · by_contra hown
        rw [Bool.not_eq_true] at hown
        rw [mapLookup, hidx, hload] at hlookup
        injection hlookup with hlookup
        rw [heldHandle_of_copy hown hcopy, hlookup] at hne
        exact hne rfl
      · exact hown
    · rw [if_neg hidx]
      exact h.copy entry hcopy
  owned := by
    intro entry howned x e hx
    rw [hmap] at hx
    split at hx
    · cases hx
    · exact h.owned entry howned x e hx
  unfreed := h.unfreed

end ThreadLife

/-- The entries have distinct handles, none of them freed; every thread is in order; no two
threads have one handle; and the trace is in order. -/
structure LifeInv (tasks : List Task) (s : ThreadState) : Prop where
  unique : ∀ x y e e', s.kernel.map.entries.load x = some e → s.kernel.map.entries.load y = some e' →
    e.zsHandle = e'.zsHandle → x = y
  mapped : ∀ x e, s.kernel.map.entries.load x = some e → .free e.zsHandle ∉ s.trace
  threads : ∀ j task, tasks[j]? = some task → ThreadLife s.kernel s.trace task (s.pcs j)
  alone : ∀ j j' task task' h, tasks[j]? = some task → tasks[j']? = some task' →
    heldHandle task (s.pcs j) = some h → heldHandle task' (s.pcs j') = some h → j = j'
  trace : TraceOk s.trace

/-- What one thread's step must respect. -/
theorem LifeInv.advance {tasks : List Task} {s : ThreadState} (h : LifeInv tasks s) {i : Nat}
    {task : Task} (hi : tasks[i]? = some task) {k' : Kernel} (rwsem' : Option Nat) {pc' : TaskPc}
    {trace' : List PoolEvent}
    (hmap : ∀ x e, k'.map.entries.load x = some e → s.kernel.map.entries.load x = some e)
    (hmapped : ∀ x e, k'.map.entries.load x = some e → .free e.zsHandle ∉ trace')
    (hself : ThreadLife k' trace' task pc')
    (hothers : ∀ j task', j ≠ i → tasks[j]? = some task' → ThreadLife k' trace' task' (s.pcs j))
    (halone : ∀ handle, heldHandle task pc' = some handle → ∀ j task', tasks[j]? = some task' →
      heldHandle task' (s.pcs j) = some handle → j = i)
    (htrace : TraceOk trace') :
    LifeInv tasks ⟨k', rwsem', Function.update s.pcs i pc', trace'⟩ where
  unique x y e e' hx hy := h.unique x y e e' (hmap x e hx) (hmap y e' hy)
  mapped := hmapped
  threads := by
    intro j task' hj
    dsimp only
    by_cases hji : j = i
    · subst hji
      rw [hi] at hj
      injection hj with hj
      rw [Function.update_self, ← hj]
      exact hself
    · rw [Function.update_of_ne hji]
      exact hothers j task' hji hj
  alone := by
    intro j j' task₁ task₂ handle hj hj' hheld hheld'
    dsimp only at hheld hheld'
    by_cases hji : j = i
    · subst hji
      rw [hi] at hj
      injection hj with hj
      rw [Function.update_self, ← hj] at hheld
      by_contra hne
      rw [Function.update_of_ne (Ne.symm hne)] at hheld'
      exact hne (halone handle hheld j' task₂ hj' hheld').symm
    · rw [Function.update_of_ne hji] at hheld
      by_cases hji' : j' = i
      · subst hji'
        rw [hi] at hj'
        injection hj' with hj'
        rw [Function.update_self, ← hj'] at hheld'
        exact halone handle hheld' j task₁ hj hheld
      · rw [Function.update_of_ne hji'] at hheld'
        exact h.alone j j' task₁ task₂ handle hj hj' hheld hheld'
  trace := htrace

/-- A thread takes an entry out of the map that no other thread has. -/
theorem LifeInv.take {tasks : List Task} {s : ThreadState} (h : LifeInv tasks s) {i : Nat}
    {task : Task} (hi : tasks[i]? = some task) {t : Turn} {index : Nat} {entry : MapEntry}
    (hload : s.kernel.map.entries.load index = some entry)
    (hmap : ∀ x, t.kernel.map.entries.load x =
      if x = index then none else s.kernel.map.entries.load x)
    (hcopy : t.pc.copy = none) (howned : t.pc.owned = some entry)
    (halone : ∀ j task', tasks[j]? = some task' →
      heldHandle task' (s.pcs j) = some entry.zsHandle → j = i) :
    LifeInv tasks ⟨t.kernel, t.rwsem, Function.update s.pcs i t.pc, s.trace⟩ := by
  have hsub : ∀ x e, t.kernel.map.entries.load x = some e →
      x ≠ index ∧ s.kernel.map.entries.load x = some e := by
    intro x e hx
    rw [hmap] at hx
    split at hx
    · cases hx
    next hne => exact ⟨hne, hx⟩
  apply h.advance hi t.rwsem
  · exact fun x e hx => (hsub x e hx).2
  · exact fun x e hx => h.mapped x e (hsub x e hx).2
  · constructor
    · intro e he
      rw [hcopy] at he
      cases he
    · intro e he x e' hx heq
      rw [howned] at he
      injection he with he
      rw [← he] at heq
      obtain ⟨hne, hx⟩ := hsub x e' hx
      exact hne (h.unique x index e' entry hx hload heq)
    · intro handle hheld
      rw [heldHandle_of_owned howned] at hheld
      injection hheld with hheld
      rw [← hheld]
      exact h.mapped index entry hload
  · intro j task' hji hj
    exact (h.threads j task' hj).erase hload hmap fun hheld => hji (halone j task' hj hheld)
  · intro handle hheld
    rw [heldHandle_of_owned howned] at hheld
    injection hheld with hheld
    rw [← hheld]
    exact halone
  · exact h.trace

section Turns

variable {tasks : List Task} {s : ThreadState} {i : Nat} {task : Task} {t : Turn}
  {entry : MapEntry}

/-- A thread lets go of what it had. -/
theorem LifeInv.rest (h : LifeInv tasks s) (hi : tasks[i]? = some task)
    (hmap : ∀ x, t.kernel.map.entries.load x = s.kernel.map.entries.load x)
    (hcopy : t.pc.copy = none) (howned : t.pc.owned = none) :
    LifeInv tasks ⟨t.kernel, t.rwsem, Function.update s.pcs i t.pc, s.trace⟩ := by
  apply h.advance hi t.rwsem
  · exact fun x e hx => by rwa [hmap] at hx
  · exact fun x e hx => h.mapped x e (by rwa [hmap] at hx)
  · exact .rest hcopy howned
  · exact fun j task' _ hj => (h.threads j task' hj).congr hmap
  · intro handle hheld
    rw [heldHandle_of_none hcopy howned] at hheld
    cases hheld
  · exact h.trace

/-- A thread copies the entry of its address. -/
theorem LifeInv.look (h : LifeInv tasks s) (hi : tasks[i]? = some task)
    (hG : TakesAlone tasks s i)
    (hmap : ∀ x, t.kernel.map.entries.load x = s.kernel.map.entries.load x)
    (hlookup : mapLookup s.kernel.map task.target = some entry)
    (htaken : task.freesOwn = false → takenHandle s.kernel task (s.pcs i) = some entry.zsHandle)
    (hcopy : t.pc.copy = some entry) (howned : t.pc.owned = none) :
    LifeInv tasks ⟨t.kernel, t.rwsem, Function.update s.pcs i t.pc, s.trace⟩ := by
  have hheld : ∀ handle, heldHandle task t.pc = some handle →
      task.freesOwn = false ∧ handle = entry.zsHandle := by
    intro handle hheld
    rw [heldHandle, howned, hcopy] at hheld
    cases hown : task.freesOwn with
    | true => simp [hown] at hheld
    | false => exact ⟨rfl, by simpa [hown] using hheld.symm⟩
  apply h.advance hi t.rwsem
  · exact fun x e hx => by rwa [hmap] at hx
  · exact fun x e hx => h.mapped x e (by rwa [hmap] at hx)
  · constructor
    · intro e he
      rw [hcopy] at he
      rw [mapLookup, hmap, ← he]
      exact .inl hlookup
    · intro e he
      rw [howned] at he
      cases he
    · intro handle hh
      rw [(hheld handle hh).2]
      exact h.mapped _ entry hlookup
  · exact fun j task' _ hj => (h.threads j task' hj).congr hmap
  · intro handle hh j task' hj hother
    obtain ⟨hown, rfl⟩ := hheld handle hh
    exact hG task hi _ (htaken hown) j task' hj hother
  · exact h.trace

/-- A thread reads the object of its copy. -/
theorem LifeInv.read (h : LifeInv tasks s) (hi : tasks[i]? = some task)
    (hmap : ∀ x, t.kernel.map.entries.load x = s.kernel.map.entries.load x)
    (hown : task.freesOwn = false) (hhad : (s.pcs i).copy = some entry)
    (hcopy : t.pc.copy = none ∨ t.pc.copy = some entry) (howned : t.pc.owned = none) :
    LifeInv tasks ⟨t.kernel, t.rwsem, Function.update s.pcs i t.pc,
      .read entry.zsHandle :: s.trace⟩ := by
  have hself := h.threads i task hi
  have hbefore := heldHandle_of_copy hown hhad
  have hheld : ∀ handle, heldHandle task t.pc = some handle →
      heldHandle task (s.pcs i) = some handle := by
    intro handle hh
    rcases hcopy with hcopy | hcopy
    · rw [heldHandle_of_none hcopy howned] at hh
      cases hh
    · rwa [heldHandle_of_copy hown hcopy, ← hbefore] at hh
  apply h.advance hi t.rwsem
  · exact fun x e hx => by rwa [hmap] at hx
  · intro x e hx
    rw [hmap] at hx
    simpa using h.mapped x e hx
  · constructor
    · intro e he
      rcases hcopy with hcopy | hcopy
      · rw [hcopy] at he
        cases he
      · rw [hcopy] at he
        rw [mapLookup, hmap]
        exact hself.copy e (hhad.trans he)
    · intro e he
      rw [howned] at he
      cases he
    · intro handle hh
      simpa using hself.unfreed handle (hheld handle hh)
  · intro j task' _ hj
    refine ((h.threads j task' hj).congr hmap).event ?_
    intro handle heq
    cases heq
  · intro handle hh j task' hj hother
    exact h.alone j i task' task handle hj hi hother (hheld handle hh)
  · exact ⟨hself.unfreed _ hbefore, h.trace⟩

/-- A thread frees what it owns. -/
theorem LifeInv.free (h : LifeInv tasks s) (hi : tasks[i]? = some task)
    (hmap : ∀ x, t.kernel.map.entries.load x = s.kernel.map.entries.load x)
    (hhad : (s.pcs i).owned = some entry) (hcopy : t.pc.copy = none) (howned : t.pc.owned = none) :
    LifeInv tasks ⟨t.kernel, t.rwsem, Function.update s.pcs i t.pc,
      .free entry.zsHandle :: s.trace⟩ := by
  have hself := h.threads i task hi
  have hbefore : heldHandle task (s.pcs i) = some entry.zsHandle := heldHandle_of_owned hhad
  apply h.advance hi t.rwsem
  · exact fun x e hx => by rwa [hmap] at hx
  · intro x e hx
    rw [hmap] at hx
    simpa using ⟨hself.owned entry hhad x e hx, h.mapped x e hx⟩
  · exact .rest hcopy howned
  · intro j task' hji hj
    refine ((h.threads j task' hj).congr hmap).event ?_
    intro handle heq hother
    injection heq with heq
    rw [← heq] at hother
    exact hji (h.alone j i task' task _ hj hi hother hbefore)
  · intro handle hh
    rw [heldHandle_of_none hcopy howned] at hh
    cases hh
  · exact ⟨hself.unfreed _ hbefore, h.trace⟩

end Turns

/-- A step that takes a handle that no other thread has keeps the invariant. -/
theorem LifeInv.step {codec : Codec} {tasks : List Task} {s s' : ThreadState} {i : Nat}
    (h : LifeInv tasks s) (hG : TakesAlone tasks s i)
    (hstep : threadStep codec tasks s i = some s') : LifeInv tasks s' := by
  unfold threadStep at hstep
  split at hstep
  · cases hstep
  next task hi =>
    split at hstep
    · cases hstep
    next t ht =>
      injection hstep with hstep
      subst hstep
      have hself := h.threads i task hi
      cases turnKind ht with
      | rest hmap hevent hcopy howned =>
          rw [hevent]
          exact h.rest hi hmap hcopy howned
      | look entry hmap hevent hlookup htaken hcopy howned =>
          rw [hevent]
          exact h.look hi hG hmap hlookup htaken hcopy howned
      | read entry hmap hevent hown hhad hnone hcopy howned =>
          rw [hevent]
          exact h.read hi hmap hown hhad hcopy howned
      | remove entry hmap hevent hown hhad hnone hcopy howned =>
          rw [hevent]
          have hlookup : mapLookup s.kernel.map task.target = some entry := by
            rcases hself.copy entry hhad with hlookup | ⟨hfree, -⟩
            · exact hlookup
            · rw [hown] at hfree
              cases hfree
          exact h.take hi hlookup hmap hcopy howned fun j task' hj hother =>
            h.alone j i task' task _ hj hi hother (heldHandle_of_copy hown hhad)
      | removeOwn entry hmap hevent hhad hmapped htaken hcopy howned =>
          rw [hevent]
          have hlookup : mapLookup s.kernel.map task.target = some entry := by
            rcases hself.copy entry hhad with hlookup | ⟨-, hnone⟩
            · exact hlookup
            · exact absurd hnone hmapped
          rw [hlookup] at htaken
          exact h.take hi hlookup hmap hcopy howned (hG task hi _ htaken)
      | erase index entry hmap hevent hload htaken hcopy howned =>
          rw [hevent]
          exact h.take hi hload hmap hcopy howned (hG task hi _ htaken)
      | free entry hmap hevent hhad hcopy howned =>
          rw [hevent]
          exact h.free hi hmap hhad hcopy howned

/-! ## Handles are freed once and not read afterwards -/

theorem lifeInv_init (tasks : List Task) {k : Kernel} (hk : StorageOk k) :
    LifeInv tasks (.init k) where
  unique := hk.unique
  mapped _ _ _ := List.not_mem_nil
  threads _ _ _ := .rest rfl rfl
  alone j j' task task' h hj hj' hheld := by
    rw [ThreadState.init, heldHandle_of_none rfl rfl] at hheld
    cases hheld
  trace := trivial

/-- From any state whose storage is in order, any number of threads free each handle at most
once and never read it afterwards, as long as no thread takes a handle that another one
has. -/
theorem handles_safe {codec : Codec} {tasks : List Task} {k : Kernel} (hk : StorageOk k)
    {schedule : List Nat} {s : ThreadState}
    (hrun : Run (threadStep codec tasks) (TakesAlone tasks) (.init k) schedule s) :
    TraceOk s.trace :=
  (hrun.invariant (fun _ _ _ h hG hstep => LifeInv.step h hG hstep) (lifeInv_init tasks hk)).trace

/-! ## Two threads on one page -/

theorem storageOk_firstReplaced : StorageOk firstReplaced.kernel := by
  have hloaded : StorageOk twoSpaces.kernel := storageOk_loaded _ _ _ _ _
  have hdone : compressAndReplacePte samePageCodec .ok twoSpaces.kernel 0 0x1000
      = (0, firstReplaced.kernel) :=
    compressAndReplacePte_fill (wf_loaded _ _ _ _ _) rfl rfl rfl rfl
  have hexec : exec samePageCodec twoSpaces.kernel (.replace .ok 0 0x1000)
      = firstReplaced.kernel := by rw [exec, hdone]
  rw [← hexec]
  exact storageOk_exec hloaded _

/-- A fault and `minimem_zswap_remove` on one page: both look the entry up, the fault reads
the object and removes the entry, the other's removal finds nothing, and the fault frees the
handle and maps the page. -/
theorem handles_safe_faultRemove :
    ∃ s, Run (threadStep samePageCodec [.fault true .ok firstFault, .remove 0x1000])
        (TakesAlone [.fault true .ok firstFault, .remove 0x1000]) (.init firstReplaced.kernel)
        [0, 1, 0, 0, 1, 0, 0] s ∧
      s.trace = [.free 1, .read 1] ∧ TraceOk s.trace := by
  have heval : ([0, 1, 0, 0, 1, 0, 0].foldlM
      (threadStep samePageCodec [.fault true .ok firstFault, .remove 0x1000])
      (.init firstReplaced.kernel)).map ThreadState.trace = some [.free 1, .read 1] := by rfl
  have halone : Guarded (threadStep samePageCodec [.fault true .ok firstFault, .remove 0x1000])
      (TakesAlone [.fault true .ok firstFault, .remove 0x1000]) (.init firstReplaced.kernel)
      [0, 1, 0, 0, 1, 0, 0] := by decide +kernel
  obtain ⟨s, hs, htrace⟩ := Option.map_eq_some_iff.1 heval
  have hrun := halone.run hs
  exact ⟨s, hrun, htrace, handles_safe storageOk_firstReplaced hrun⟩

/-- Two faults that both look the entry up before either has removed it free its handle
twice. -/
theorem not_handles_safe_pair :
    ∃ s, Run (threadStep samePageCodec [.fault true .ok firstFault, .fault true .ok firstFault])
        (fun _ _ => True) (.init firstReplaced.kernel) [0, 1, 0, 1, 0, 1, 0, 1] s ∧
      s.trace = [.free 1, .free 1, .read 1, .read 1] ∧ ¬TraceOk s.trace := by
  have heval : ([0, 1, 0, 1, 0, 1, 0, 1].foldlM
      (threadStep samePageCodec [.fault true .ok firstFault, .fault true .ok firstFault])
      (.init firstReplaced.kernel)).map ThreadState.trace
        = some [.free 1, .free 1, .read 1, .read 1] := by rfl
  obtain ⟨s, hs, htrace⟩ := Option.map_eq_some_iff.1 heval
  refine ⟨s, run_of_foldlM hs, htrace, ?_⟩
  rw [htrace]
  simp [TraceOk, PoolEvent.handle]

end MiniMem
