import MiniMem.Kernel.Parallel

/-!
# MiniMem.Kernel.SerialDecompress

A cluster decompressed in parallel, compared with its addresses decompressed
one by one.  Every address comes with the page it is decompressed to.

Whatever the order of the workers, an item's status depends on its own entry
and its own worker only.  Where two items share a page, the order decides
which of the two the page holds at the end.  An item whose address has no
entry is never filled in, so that its result carries the address zero.
-/

namespace MiniMem

/-! ## One address on its own -/

section Serial

variable (codec : Codec) (env : ClusterEnv) (k : Kernel)

/-- The arguments `vaddrs` and `pages` of a caller that supplies a page for each address. -/
def withPages (targets : List (Nat × Nat)) : List (Nat × Option Nat) :=
  targets.map fun target => (target.1, some target.2)

/-- The bytes that `minimem_decompress_page` yields for the entry of an address. -/
def serialPage (vaddr : Nat) : Option Page :=
  (mapLookup k.map vaddr).bind (k.decode codec)

/-- The item as the loop of the dispatcher leaves it. -/
def preparedItem (target : Nat × Nat) : ClusterWork :=
  match mapLookup k.map target.1 with
  | none => { ClusterWork.zero with status := enoent }
  | some entry => ⟨target.1, some target.2, entry, 0, false⟩

/-- The status that item `i` ends with. -/
def serialStatus (i : Nat) (target : Nat × Nat) : Int :=
  match mapLookup k.map target.1 with
  | none => enoent
  | some _ => (clusterWork codec (env.workers i) k (preparedItem k target)).1

/-- The result that item `i` ends with. -/
def serialResult (i : Nat) (target : Nat × Nat) : ClusterResult :=
  let item := preparedItem k target
  ⟨item.vaddr, item.entry.algoId, item.entry.compressedLen, item.entry.zsHandle,
    serialStatus codec env k i target⟩

/-- No step of a worker fails before the decompressor. -/
def WorkerEnv.reaches (env : WorkerEnv) : Bool :=
  env.pool && env.localBuf && env.zsRead && env.kmap

/-- Some item of the cluster makes its worker decompress to the page `pfn`, with this
outcome. -/
def Writes (targets : List (Nat × Nat)) (pfn : Nat) (out : Option Page) : Prop :=
  ∃ i target, targets[i]? = some target ∧ target.2 = pfn ∧ (env.workers i).reaches = true ∧
    (mapLookup k.map target.1).isSome ∧ serialPage codec k target.1 = out

/-- Every address has an entry, or is zero. -/
def AddressesMapped (targets : List (Nat × Nat)) : Prop :=
  ∀ target ∈ targets, target.1 = 0 ∨ (mapLookup k.map target.1).isSome

/-- The pages tell which items went through: of an item whose worker gets to the decompressor
the page is shared with items of the same bytes only, and of an item whose worker does not the
page neither holds its bytes from the start nor gets them, or remains of a failed
decompression, through another item. -/
def PagesTell (targets : List (Nat × Nat)) : Prop :=
  ∀ (i : Nat) (target : Nat × Nat) (page : Page), targets[i]? = some target →
    serialPage codec k target.1 = some page →
    if (env.workers i).reaches then
      ∀ out, Writes codec env k targets target.2 out → out = some page
    else
      (∀ out, Writes codec env k targets target.2 out → out ≠ none ∧ out ≠ some page) ∧
        (k.frames.data target.2 = page → ∃ out, Writes codec env k targets target.2 out)

/-- What the caller finds at the end is what decompressing the addresses one by one
yields. -/
structure SerialOutcome (targets : List (Nat × Nat)) (t : ClusterState) (ret : Int) : Prop where
  vaddrs : t.results.map ClusterResult.vaddr = targets.map Prod.fst
  status : ∀ (i : Nat) (target : Nat × Nat), targets[i]? = some target →
    ∃ result, t.results[i]? = some result ∧
      (result.status = 0 ↔ ∃ page, serialPage codec k target.1 = some page ∧
        t.kernel.frames.data target.2 = page)
  ret : ret = 0 ↔ ∀ result ∈ t.results, result.status = 0
  map : t.kernel.map = k.map
  pool : t.kernel.pool = k.pool

end Serial

/-! ## What a worker makes of its item -/

section Work

variable {codec : Codec} {env : ClusterEnv} {k k' : Kernel} {i : Nat} {target : Nat × Nat}
  {entry : MapEntry}

/-- An address with an entry gets an item with it. -/
theorem preparedItem_of_some (h : mapLookup k.map target.1 = some entry) :
    preparedItem k target = ⟨target.1, some target.2, entry, 0, false⟩ := by
  rw [preparedItem, h]

/-- Without an entry its item keeps the error. -/
theorem preparedItem_of_none (h : mapLookup k.map target.1 = none) :
    preparedItem k target = { ClusterWork.zero with status := enoent } := by
  rw [preparedItem, h]

/-- In a row, an address with an entry gives what it decodes to. -/
theorem serialPage_of_some (h : mapLookup k.map target.1 = some entry) :
    serialPage codec k target.1 = k.decode codec entry := by
  rw [serialPage, h, Option.bind_some]

/-- In a row, an address without an entry gives `-ENOENT`. -/
theorem serialStatus_of_none (h : mapLookup k.map target.1 = none) :
    serialStatus codec env k i target = enoent := by
  rw [serialStatus, h]

/-- A worker looks at the pool alone: it writes the page exactly when its status is zero, and
the status is zero exactly when the worker reaches the decompressor and that yields a page. -/
theorem clusterWork_spec (codec : Codec) (env : ClusterEnv) (i : Nat)
    (h : mapLookup k.map target.1 = some entry) (hpool : k'.pool = k.pool) :
    (∃ page, serialPage codec k target.1 = some page ∧ (env.workers i).reaches = true ∧
        serialStatus codec env k i target = 0 ∧
        clusterWork codec (env.workers i) k' (preparedItem k target)
          = (0, k'.writeFrame target.2 page)) ∨
      (¬((env.workers i).reaches = true ∧ (serialPage codec k target.1).isSome) ∧
        serialStatus codec env k i target ≠ 0 ∧
        clusterWork codec (env.workers i) k' (preparedItem k target)
          = (serialStatus codec env k i target, k')) := by
  have hdecode : k'.decode codec entry = k.decode codec entry := by
    rw [Kernel.decode, Kernel.decode, hpool]
  have hstatus : serialStatus codec env k i target
      = (clusterWork codec (env.workers i) k (preparedItem k target)).1 := by
    rw [serialStatus, h]
  rw [hstatus, serialPage_of_some h, preparedItem_of_some h]
  unfold clusterWork WorkerEnv.reaches
  cases (env.workers i).pool with
  | false => exact .inr ⟨by simp, by simp [enodev], rfl⟩
  | true =>
      cases (env.workers i).localBuf with
      | false => exact .inr ⟨by simp, by simp [enomem], rfl⟩
      | true =>
          cases (env.workers i).zsRead with
          | false => exact .inr ⟨by simp, by simp [eio], rfl⟩
          | true =>
              cases (env.workers i).kmap with
              | false => exact .inr ⟨by simp, by simp [efault], rfl⟩
              | true =>
                  dsimp only
                  rw [hdecode]
                  cases k.decode codec entry with
                  | none => exact .inr ⟨by simp, by simp [Status.code], rfl⟩
                  | some page => exact .inl ⟨page, rfl, rfl, rfl, rfl⟩

/-- A status is zero exactly when the worker reaches the decompressor and that yields a
page. -/
theorem serialStatus_eq_zero_iff : serialStatus codec env k i target = 0 ↔
    (env.workers i).reaches = true ∧ ∃ page, serialPage codec k target.1 = some page := by
  cases h : mapLookup k.map target.1 with
  | none =>
      rw [serialStatus_of_none h, serialPage, h]
      simp [enoent]
  | some entry =>
      rcases clusterWork_spec codec env i h rfl with ⟨page, hpage, hreach, hzero, -⟩ |
        ⟨hnot, hne, -⟩
      · exact ⟨fun _ => ⟨hreach, page, hpage⟩, fun _ => hzero⟩
      · rw [← Option.isSome_iff_exists]
        exact ⟨fun hzero => absurd hzero hne, fun hboth => absurd hboth hnot⟩

end Work

/-! ## What a step can do -/

/-- Each address comes with its page. -/
theorem getElem?_withPages {targets : List (Nat × Nat)} {i : Nat} :
    (withPages targets)[i]? = targets[i]?.map fun target => (target.1, some target.2) := by
  rw [withPages, List.getElem?_map]

theorem length_withPages (targets : List (Nat × Nat)) :
    (withPages targets).length = targets.length := by
  rw [withPages, List.length_map]

/-- What holds of the targets before `i + 1` holds of those before `i` and of target `i`. -/
theorem forall_target_succ {targets : List (Nat × Nat)} {i : Nat} {target : Nat × Nat}
    (htarget : targets[i]? = some target) {P : Nat → Nat × Nat → Prop} :
    (∀ (j : Nat) (other : Nat × Nat), targets[j]? = some other → j < i + 1 → P j other) ↔
      (∀ (j : Nat) (other : Nat × Nat), targets[j]? = some other → j < i → P j other) ∧
        P i target := by
  constructor
  · intro hall
    refine ⟨fun j other hother hj => hall j other hother (by omega), ?_⟩
    exact hall i target htarget (Nat.lt_succ_self i)
  · rintro ⟨hall, hlast⟩ j other hother hj
    by_cases hji : j = i
    · subst hji
      rw [htarget] at hother
      injection hother with hother
      rw [← hother]
      exact hlast
    · exact hall j other hother (by omega)

/-- Every step of the dispatcher is one of these where each address has its page. -/
inductive SuppliedMove (env : ClusterEnv) (targets : List (Nat × Nat)) (s s' : ClusterState) :
    Prop
  | missing (i : Nat) (target : Nat × Nat) (hpc : s.pc = .prepare i)
      (htarget : targets[i]? = some target) (hentry : mapLookup s.kernel.map target.1 = none)
      (hs' : s' = { s.fail enoent with
        items := Function.update s.items i
          { s.items i with status := enoent, decompressBuf := false },
        pc := .prepare (i + 1) })
  | found (i : Nat) (target : Nat × Nat) (entry : MapEntry) (hpc : s.pc = .prepare i)
      (htarget : targets[i]? = some target) (hentry : mapLookup s.kernel.map target.1 = some entry)
      (hs' : s' = { s with
        items := Function.update s.items i ⟨target.1, some target.2, entry, (s.items i).status,
          false⟩,
        pc := .inc i })
  | prepared (i : Nat) (hpc : s.pc = .prepare i) (hi : targets.length ≤ i)
      (hs' : s' = { s with pc := .poll })
  | inc (i : Nat) (hpc : s.pc = .inc i)
      (hs' : s' = { s with remaining := s.remaining + 1, pc := .queue i })
  | queue (i : Nat) (hpc : s.pc = .queue i)
      (hs' : s' = { s with
        workers := Function.update s.workers i .queued, pc := .prepare (i + 1) })
  | joining (done : Nat) (pc : DispatchPc) (hpc : s.pc = .poll ∨ s.pc = .wait)
      (hpc' : pc = .wait ∨ pc = .collect 0) (hs' : s' = { s with done := done, pc := pc })
  | collect (i : Nat) (hpc : s.pc = .collect i) (hi : i < targets.length)
      (hs' : s' = { (if (s.items i).status ≠ 0 then s.fail (s.items i).status else s) with
        items := Function.update s.items i { s.items i with decompressBuf := false },
        results := if env.results then s.results ++ [⟨(s.items i).vaddr,
          (s.items i).entry.algoId, (s.items i).entry.compressedLen, (s.items i).entry.zsHandle,
          (s.items i).status⟩] else s.results,
        pc := .collect (i + 1) })
  | collected (i : Nat) (hpc : s.pc = .collect i) (hi : targets.length ≤ i)
      (hs' : s' = { s with pc := .free })
  | free (hpc : s.pc = .free) (hs' : s' = { s with pc := .unlock s.firstError })
  | unlock (ret : Int) (hpc : s.pc = .unlock ret) (hs' : s' = { s with pc := .finished ret })

/-- What a step of the dispatcher does when each address has its page, one case for each program
counter. -/
theorem dispatchStep_supplied {env : ClusterEnv} {targets : List (Nat × Nat)}
    {s s' : ClusterState} (h : dispatchStep env (withPages targets) s = some s') :
    SuppliedMove env targets s s' := by
  unfold dispatchStep at h
  split at h
  next i hpc =>
    rw [getElem?_withPages] at h
    cases htarget : targets[i]? with
    | none =>
        rw [htarget] at h
        injection h with h
        exact .prepared i hpc (List.getElem?_eq_none_iff.1 htarget) h.symm
    | some target =>
        rw [htarget, Option.map_some] at h
        dsimp only at h
        cases hentry : mapLookup s.kernel.map target.1 with
        | none =>
            rw [hentry] at h
            injection h with h
            exact .missing i target hpc htarget hentry h.symm
        | some entry =>
            rw [hentry] at h
            dsimp only at h
            rw [if_neg (by simp)] at h
            injection h with h
            exact .found i target entry hpc htarget hentry h.symm
  next i hpc =>
    injection h with h
    exact .inc i hpc h.symm
  next i hpc =>
    injection h with h
    exact .queue i hpc h.symm
  next hpc =>
    injection h with h
    refine .joining s.done _ (.inl hpc) ?_ h.symm
    split
    · exact .inl rfl
    · exact .inr rfl
  next hpc =>
    split at h
    · cases h
    · injection h with h
      exact .joining _ _ (.inr hpc) (.inr rfl) h.symm
  next i hpc =>
    rw [length_withPages] at h
    split at h
    next hi =>
      injection h with h
      refine .collect i hpc hi ?_
      rw [← h]
      by_cases hstatus : (s.items i).status ≠ 0
      · rw [if_pos hstatus]
        rfl
      · rw [if_neg hstatus]
    next hi =>
      injection h with h
      exact .collected i hpc (by omega) h.symm
  next hpc =>
    injection h with h
    exact .free hpc h.symm
  next ret hpc =>
    injection h with h
    exact .unlock ret hpc h.symm
  next ret hpc => cases h

/-- Every step of worker `i` is one of these: it makes something of its item, it writes the
status, or it is past that. -/
inductive WorkerEffect (codec : Codec) (env : ClusterEnv) (i : Nat) (s s' : ClusterState) : Prop
  | run (hold : s.workers i = .queued)
      (hs' : s' = { s with
        kernel := (clusterWork codec (env.workers i) s.kernel (s.items i)).2,
        workers := Function.update s.workers i
          (.ran (clusterWork codec (env.workers i) s.kernel (s.items i)).1) })
  | report (status : Int) (hold : s.workers i = .ran status)
      (hs' : s' = { s with
        items := Function.update s.items i { s.items i with status := status },
        workers := Function.update s.workers i .stored })
  | past (pc : WorkerPc) (remaining : Int) (done : Nat)
      (hold : s.workers i = .stored ∨ s.workers i = .completing)
      (hpc : pc = .completing ∨ pc = .finished)
      (hs' : s' = { s with
        remaining := remaining, done := done, workers := Function.update s.workers i pc })

/-- What a step of a worker does, one case for each of its states. -/
theorem workerStep_effect {codec : Codec} {env : ClusterEnv} {s s' : ClusterState} {i : Nat}
    (h : workerStep codec env s i = some s') : WorkerEffect codec env i s s' := by
  unfold workerStep at h
  split at h
  next hold =>
    injection h with h
    exact .run hold h.symm
  next status hold =>
    injection h with h
    exact .report status hold h.symm
  next hold =>
    injection h with h
    refine .past _ _ _ (.inl hold) ?_ h.symm
    split
    · exact .inl rfl
    · exact .inr rfl
  next hold =>
    injection h with h
    exact .past _ _ _ (.inr hold) (.inr rfl) h.symm
  · cases h

/-! ## The items -/

/-- How many items the dispatcher has filled in. -/
def DispatchPc.filled (n : Nat) : DispatchPc → Nat
  | .prepare i => i
  | .inc i => i + 1
  | .queue i => i + 1
  | _ => n

/-- The status of the item is that of the worker. -/
def WorkerPc.reported : WorkerPc → Bool
  | .stored => true
  | .completing => true
  | .finished => true
  | _ => false

/-- The worker has been at the page. -/
def WorkerPc.hasRun : WorkerPc → Bool
  | .idle => false
  | .queued => false
  | _ => true

/-- Item `i` of the cluster, filled in, with its worker at `pc`. -/
def filledItem (codec : Codec) (env : ClusterEnv) (k : Kernel) (i : Nat) (target : Nat × Nat)
    (pc : WorkerPc) : ClusterWork :=
  match pc.reported with
  | true => { preparedItem k target with status := serialStatus codec env k i target }
  | false => preparedItem k target

/-- The items are filled in order, those with an entry are queued, and a worker reports the
status that its item would have on its own. -/
structure ItemInv (codec : Codec) (env : ClusterEnv) (k : Kernel) (targets : List (Nat × Nat))
    (s : ClusterState) : Prop where
  count : CountInv targets.length s
  map : s.kernel.map = k.map
  pool : s.kernel.pool = k.pool
  filled : ∀ (i : Nat) (target : Nat × Nat), targets[i]? = some target →
    i < s.pc.filled targets.length → s.items i = filledItem codec env k i target (s.workers i)
  fresh : ∀ i, s.pc.filled targets.length ≤ i → s.items i = .zero
  ran : ∀ (i : Nat) (target : Nat × Nat) (status : Int), targets[i]? = some target →
    s.workers i = .ran status → status = serialStatus codec env k i target
  queued : ∀ (i : Nat) (target : Nat × Nat), targets[i]? = some target →
    i < s.pc.next targets.length →
      (s.workers i ≠ .idle ↔ (mapLookup k.map target.1).isSome = true)
  current : ∀ (i : Nat) (target : Nat × Nat), targets[i]? = some target →
    s.pc = .inc i ∨ s.pc = .queue i → (mapLookup k.map target.1).isSome = true

section Items

variable {codec : Codec} {env : ClusterEnv} {k : Kernel} {targets : List (Nat × Nat)}
  {s s' : ClusterState} {i : Nat}

/-- The dispatcher fills items in order. -/
theorem DispatchPc.next_le_filled (n : Nat) (pc : DispatchPc) : pc.next n ≤ pc.filled n := by
  cases pc <;> simp [DispatchPc.next, DispatchPc.filled]

/-- A worker that is not idle works on an item that is filled in and has an entry. -/
theorem ItemInv.of_work (h : ItemInv codec env k targets s) (hi : s.workers i ≠ .idle) :
    ∃ target entry, targets[i]? = some target ∧ mapLookup k.map target.1 = some entry ∧
      i < s.pc.next targets.length ∧ i < s.pc.filled targets.length := by
  have hlt := h.count.lt hi
  have hnext : i < s.pc.next targets.length := by
    by_contra hge
    exact hi (h.count.idle i (by omega))
  obtain ⟨entry, hentry⟩ := Option.isSome_iff_exists.1
    ((h.queued i _ (List.getElem?_eq_getElem hlt) hnext).1 hi)
  exact ⟨targets[i], entry, List.getElem?_eq_getElem hlt, hentry, hnext,
    hnext.trans_le (DispatchPc.next_le_filled _ _)⟩

/-- The dispatcher goes on without touching an item. -/
theorem ItemInv.advance (h : ItemInv codec env k targets s) (hcount : CountInv targets.length s')
    (hkernel : s'.kernel = s.kernel) (hitems : s'.items = s.items)
    (hworkers : s'.workers = s.workers)
    (hfilled : s'.pc.filled targets.length = s.pc.filled targets.length)
    (hnext : s'.pc.next targets.length = s.pc.next targets.length)
    (hcurrent : ∀ i, s'.pc = .inc i ∨ s'.pc = .queue i → s.pc = .inc i ∨ s.pc = .queue i) :
    ItemInv codec env k targets s' where
  count := hcount
  map := by rw [hkernel, h.map]
  pool := by rw [hkernel, h.pool]
  filled := by
    rw [hfilled, hitems, hworkers]
    exact h.filled
  fresh := by
    rw [hfilled, hitems]
    exact h.fresh
  ran := by
    rw [hworkers]
    exact h.ran
  queued := by
    rw [hworkers, hnext]
    exact h.queued
  current i target htarget hpc := h.current i target htarget (hcurrent i hpc)

/-- Behind the queueing all items are filled. -/
theorem DispatchPc.filled_of_behind (n : Nat) {pc : DispatchPc}
    (h : pc = .poll ∨ pc = .wait ∨ pc.joined = true) : pc.filled n = n := by
  cases pc with
  | prepare i => simp [DispatchPc.joined] at h
  | inc i => simp [DispatchPc.joined] at h
  | queue i => simp [DispatchPc.joined] at h
  | _ => rfl

/-- Behind the loop the dispatcher touches no item any more. -/
theorem ItemInv.behind (h : ItemInv codec env k targets s) (hcount : CountInv targets.length s')
    (hkernel : s'.kernel = s.kernel) (hitems : s'.items = s.items)
    (hworkers : s'.workers = s.workers)
    (hpc : s.pc = .poll ∨ s.pc = .wait ∨ s.pc.joined = true)
    (hpc' : s'.pc = .poll ∨ s'.pc = .wait ∨ s'.pc.joined = true) :
    ItemInv codec env k targets s' := by
  obtain ⟨hnext, -, -⟩ := DispatchPc.behind_loop targets.length hpc
  obtain ⟨hnext', -, hitem'⟩ := DispatchPc.behind_loop targets.length hpc'
  apply h.advance hcount hkernel hitems hworkers
  · rw [DispatchPc.filled_of_behind _ hpc', DispatchPc.filled_of_behind _ hpc]
  · rw [hnext', hnext]
  · intro i hi
    exact absurd hi (hitem' i)

/-- The dispatcher fills in the next item. -/
theorem ItemInv.fill (h : ItemInv codec env k targets s) {target : Nat × Nat}
    (hpc : s.pc = .prepare i) (htarget : targets[i]? = some target)
    (hcount : CountInv targets.length s') (hkernel : s'.kernel = s.kernel)
    (hitems : s'.items = Function.update s.items i (preparedItem k target))
    (hworkers : s'.workers = s.workers)
    (hpc' : mapLookup k.map target.1 = none ∧ s'.pc = .prepare (i + 1) ∨
      (mapLookup k.map target.1).isSome = true ∧ s'.pc = .inc i) :
    ItemInv codec env k targets s' := by
  have hidle : s.workers i = .idle := h.count.idle i (by rw [hpc]; exact Nat.le_refl i)
  have hfilled : s'.pc.filled targets.length = i + 1 := by
    rcases hpc' with ⟨-, hpc'⟩ | ⟨-, hpc'⟩ <;> rw [hpc'] <;> rfl
  have hold : s.pc.filled targets.length = i := by rw [hpc]; rfl
  refine ⟨hcount, by rw [hkernel, h.map], by rw [hkernel, h.pool], ?_, ?_, ?_, ?_, ?_⟩
  · rw [hfilled, hitems, hworkers]
    refine (forall_target_succ htarget).2 ⟨fun j other hother hj => ?_, ?_⟩
    · rw [Function.update_of_ne (by omega)]
      exact h.filled j other hother (by omega)
    · rw [Function.update_self, hidle]
      rfl
  · intro j hj
    rw [hfilled] at hj
    rw [hitems, Function.update_of_ne (by omega)]
    exact h.fresh j (by omega)
  · rw [hworkers]
    exact h.ran
  · have hbefore : ∀ (j : Nat) (other : Nat × Nat), targets[j]? = some other → j < i →
        (s.workers j ≠ .idle ↔ (mapLookup k.map other.1).isSome = true) :=
      fun j other hother hj => h.queued j other hother (by rw [hpc]; exact hj)
    rw [hworkers]
    rcases hpc' with ⟨hnone, hpc'⟩ | ⟨hsome, hpc'⟩ <;> rw [hpc']
    · refine (forall_target_succ htarget).2 ⟨hbefore, ?_⟩
      rw [hidle, hnone]
      simp
    · exact hbefore
  · intro j other hother hj
    rcases hpc' with ⟨hnone, hpc'⟩ | ⟨hsome, hpc'⟩ <;> rw [hpc'] at hj
    · rcases hj with hj | hj <;> cases hj
    · rcases hj with hj | hj <;> cases hj
      rw [htarget] at hother
      injection hother with hother
      rw [← hother]
      exact hsome

/-- The dispatcher queues the work of the item that it has filled in. -/
theorem ItemInv.enqueue (h : ItemInv codec env k targets s) (hpc : s.pc = .queue i)
    (hcount : CountInv targets.length s') (hkernel : s'.kernel = s.kernel)
    (hitems : s'.items = s.items) (hworkers : s'.workers = Function.update s.workers i .queued)
    (hpc' : s'.pc = .prepare (i + 1)) : ItemInv codec env k targets s' := by
  have hidle : s.workers i = .idle := h.count.idle i (by rw [hpc]; exact Nat.le_refl i)
  refine ⟨hcount, by rw [hkernel, h.map], by rw [hkernel, h.pool], ?_, ?_, ?_, ?_, ?_⟩
  · intro j target htarget hj
    rw [hpc'] at hj
    have hitem := h.filled j target htarget (by rw [hpc]; exact hj)
    rw [hitems, hworkers]
    by_cases hji : j = i
    · subst hji
      rw [hidle] at hitem
      rw [Function.update_self, hitem]
      rfl
    · rw [Function.update_of_ne hji, hitem]
  · intro j hj
    rw [hpc'] at hj
    rw [hitems]
    exact h.fresh j (by rw [hpc]; exact hj)
  · intro j target status htarget hj
    rw [hworkers] at hj
    by_cases hji : j = i
    · subst hji
      rw [Function.update_self] at hj
      cases hj
    · rw [Function.update_of_ne hji] at hj
      exact h.ran j target status htarget hj
  · intro j target htarget hj
    rw [hpc'] at hj
    rw [hworkers]
    by_cases hji : j = i
    · subst hji
      rw [Function.update_self]
      exact ⟨fun _ => h.current j target htarget (.inr hpc), fun _ => nofun⟩
    · have hlt : j < i + 1 := hj
      rw [Function.update_of_ne hji]
      exact h.queued j target htarget (by rw [hpc]; show j < i; omega)
  · rw [hpc']
    rintro j target htarget (hj | hj) <;> cases hj

/-- The buffer of an item that is collected is given back already. -/
theorem ItemInv.update_decompressBuf (h : ItemInv codec env k targets s) (hpc : s.pc = .collect i)
    (hi : i < targets.length) :
    Function.update s.items i { s.items i with decompressBuf := false } = s.items := by
  have hbuf : (s.items i).decompressBuf = false := by
    rw [h.filled i _ (List.getElem?_eq_getElem hi) (by rw [hpc]; exact hi)]
    unfold filledItem preparedItem
    split <;> split <;> rfl
  rw [← hbuf]
  exact Function.update_eq_self i s.items

/-- A step of the dispatcher keeps the items as they were prepared or finished. -/
theorem ItemInv.dispatch (h : ItemInv codec env k targets s)
    (hstep : dispatchStep env (withPages targets) s = some s') :
    ItemInv codec env k targets s' := by
  have hcount : CountInv targets.length s' := by
    have hmove := dispatchStep_move hstep
    rw [length_withPages] at hmove
    exact h.count.dispatch hmove
  cases dispatchStep_supplied hstep with
  | missing i target hpc htarget hentry hs' =>
      have hentry' : mapLookup k.map target.1 = none := by rw [← h.map, hentry]
      have hzero := h.fresh i (by rw [hpc]; exact Nat.le_refl i)
      apply h.fill hpc htarget hcount
      · rw [hs']
        rfl
      · rw [hs', preparedItem_of_none hentry', hzero]
        rfl
      · rw [hs']
        rfl
      · exact .inl ⟨hentry', by rw [hs']⟩
  | found i target entry hpc htarget hentry hs' =>
      have hentry' : mapLookup k.map target.1 = some entry := by rw [← h.map, hentry]
      have hzero := h.fresh i (by rw [hpc]; exact Nat.le_refl i)
      apply h.fill hpc htarget hcount
      · rw [hs']
      · rw [hs', preparedItem_of_some hentry', hzero]
        rfl
      · rw [hs']
      · exact .inr ⟨by rw [hentry', Option.isSome_some], by rw [hs']⟩
  | prepared i hpc hi hs' =>
      have hle := h.count.next
      rw [hpc] at hle
      have heq : i = targets.length := Nat.le_antisymm hle hi
      subst hs'
      apply h.advance hcount rfl rfl rfl
      · rw [hpc, heq]
        rfl
      · rw [hpc, heq]
        rfl
      · rintro j (hj | hj) <;> cases hj
  | inc i hpc hs' =>
      subst hs'
      apply h.advance hcount rfl rfl rfl
      · rw [hpc]
        rfl
      · rw [hpc]
        rfl
      · rintro j (hj | hj) <;> cases hj
        exact .inl hpc
  | queue i hpc hs' =>
      subst hs'
      exact h.enqueue hpc hcount rfl rfl rfl rfl
  | joining done pc hpc hpc' hs' =>
      subst hs'
      apply h.behind hcount rfl rfl rfl
      · rcases hpc with hpc | hpc
        · exact .inl hpc
        · exact .inr (.inl hpc)
      · rcases hpc' with rfl | rfl
        · exact .inr (.inl rfl)
        · exact .inr (.inr rfl)
  | collect i hpc hi hs' =>
      subst hs'
      apply h.behind hcount
      · dsimp only
        split <;> rfl
      · exact h.update_decompressBuf hpc hi
      · dsimp only
        split <;> rfl
      · exact .inr (.inr (by rw [hpc]; rfl))
      · exact .inr (.inr rfl)
  | collected i hpc hi hs' =>
      subst hs'
      exact h.behind hcount rfl rfl rfl (.inr (.inr (by rw [hpc]; rfl))) (.inr (.inr rfl))
  | free hpc hs' =>
      subst hs'
      exact h.behind hcount rfl rfl rfl (.inr (.inr (by rw [hpc]; rfl))) (.inr (.inr rfl))
  | unlock ret hpc hs' =>
      subst hs'
      exact h.behind hcount rfl rfl rfl (.inr (.inr (by rw [hpc]; rfl))) (.inr (.inr rfl))

/-- A worker goes on. -/
theorem ItemInv.move (h : ItemInv codec env k targets s) {pc : WorkerPc}
    (hold : s.workers i ≠ .idle) (hnew : pc ≠ .idle) (hcount : CountInv targets.length s')
    (hmap : s'.kernel.map = s.kernel.map) (hpool : s'.kernel.pool = s.kernel.pool)
    (hpc : s'.pc = s.pc) (hworkers : s'.workers = Function.update s.workers i pc)
    (hothers : ∀ j, j ≠ i → s'.items j = s.items j)
    (hitem : ∀ target, targets[i]? = some target →
      s'.items i = filledItem codec env k i target pc)
    (hran : ∀ target status, targets[i]? = some target → pc = .ran status →
      status = serialStatus codec env k i target) :
    ItemInv codec env k targets s' := by
  obtain ⟨-, -, -, -, -, hlt⟩ := h.of_work hold
  refine ⟨hcount, by rw [hmap, h.map], by rw [hpool, h.pool], ?_, ?_, ?_, ?_, ?_⟩
  · intro j target htarget hj
    rw [hpc] at hj
    rw [hworkers]
    by_cases hji : j = i
    · subst hji
      rw [Function.update_self]
      exact hitem target htarget
    · rw [Function.update_of_ne hji, hothers j hji]
      exact h.filled j target htarget hj
  · intro j hj
    rw [hpc] at hj
    rw [hothers j (by omega)]
    exact h.fresh j hj
  · intro j target status htarget hj
    rw [hworkers] at hj
    by_cases hji : j = i
    · subst hji
      rw [Function.update_self] at hj
      exact hran target status htarget hj
    · rw [Function.update_of_ne hji] at hj
      exact h.ran j target status htarget hj
  · intro j target htarget hj
    rw [hpc] at hj
    rw [hworkers]
    by_cases hji : j = i
    · subst hji
      rw [Function.update_self]
      exact ⟨fun _ => (h.queued j target htarget hj).1 hold, fun _ => hnew⟩
    · rw [Function.update_of_ne hji]
      exact h.queued j target htarget hj
  · intro j target htarget hj
    rw [hpc] at hj
    exact h.current j target htarget hj

/-- What a queued worker makes of its item. -/
theorem ItemInv.run_eq (h : ItemInv codec env k targets s) (hold : s.workers i = .queued) :
    ∃ target, targets[i]? = some target ∧
      ((∃ page, serialPage codec k target.1 = some page ∧
        serialStatus codec env k i target = 0 ∧
          clusterWork codec (env.workers i) s.kernel (s.items i)
            = (0, s.kernel.writeFrame target.2 page)) ∨
      (serialStatus codec env k i target ≠ 0 ∧
        clusterWork codec (env.workers i) s.kernel (s.items i)
          = (serialStatus codec env k i target, s.kernel))) := by
  obtain ⟨target, entry, htarget, hentry, -, hlt⟩ := h.of_work (by rw [hold]; exact nofun)
  have hitem : s.items i = preparedItem k target := by
    rw [h.filled i target htarget hlt, hold]
    rfl
  refine ⟨target, htarget, ?_⟩
  rw [hitem]
  rcases clusterWork_spec codec env i hentry h.pool with ⟨page, hpage, -, hzero, hwork⟩ |
    ⟨-, hne, hwork⟩
  · exact .inl ⟨page, hpage, hzero, hwork⟩
  · exact .inr ⟨hne, hwork⟩

/-- A worker finishes its own item and no other. -/
theorem ItemInv.work (h : ItemInv codec env k targets s)
    (hstep : workerStep codec env s i = some s') : ItemInv codec env k targets s' := by
  have hcount : CountInv targets.length s' := h.count.work (workerStep_move hstep)
  cases workerStep_effect hstep with
  | run hold hs' =>
      obtain ⟨target, htarget, hrun⟩ := h.run_eq hold
      obtain ⟨-, -, -, -, -, hlt⟩ := h.of_work (i := i) (by rw [hold]; exact nofun)
      have hstatus : (clusterWork codec (env.workers i) s.kernel (s.items i)).1
          = serialStatus codec env k i target := by
        rcases hrun with ⟨page, -, hzero, hwork⟩ | ⟨-, hwork⟩
        · rw [hwork, hzero]
        · rw [hwork]
      have hkernel : (clusterWork codec (env.workers i) s.kernel (s.items i)).2.map = s.kernel.map ∧
          (clusterWork codec (env.workers i) s.kernel (s.items i)).2.pool = s.kernel.pool := by
        rcases hrun with ⟨page, -, -, hwork⟩ | ⟨-, hwork⟩ <;> rw [hwork] <;> exact ⟨rfl, rfl⟩
      subst hs'
      apply h.move (by rw [hold]; exact nofun) (by exact nofun) hcount hkernel.1 hkernel.2 rfl rfl
      · intro j _
        rfl
      · intro other hother
        rw [h.filled i other hother hlt, hold]
        rfl
      · intro other status hother hran
        rw [htarget] at hother
        injection hother with hother
        injection hran with hran
        rw [← hran, hstatus, hother]
  | report status hold hs' =>
      obtain ⟨-, -, -, -, -, hlt⟩ := h.of_work (i := i) (by rw [hold]; exact nofun)
      subst hs'
      apply h.move (by rw [hold]; exact nofun) (by exact nofun) hcount rfl rfl rfl rfl
      · intro j hji
        exact Function.update_of_ne hji _ _
      · intro target htarget
        dsimp only
        rw [Function.update_self, h.filled i target htarget hlt, hold,
          h.ran i target status htarget hold]
        rfl
      · intro _ _ _ hran
        cases hran
  | past pc remaining done hold hpc hs' =>
      have hne : s.workers i ≠ .idle := by
        rcases hold with hold | hold <;> rw [hold] <;> exact nofun
      have hreported : pc.reported = true ∧ (s.workers i).reported = true := by
        constructor
        · rcases hpc with rfl | rfl <;> rfl
        · rcases hold with hold | hold <;> rw [hold] <;> rfl
      obtain ⟨-, -, -, -, -, hlt⟩ := h.of_work hne
      subst hs'
      apply h.move hne (by rcases hpc with rfl | rfl <;> exact nofun) hcount rfl rfl rfl rfl
      · intro j _
        rfl
      · intro target htarget
        dsimp only
        rw [h.filled i target htarget hlt, filledItem, filledItem, hreported.1, hreported.2]
      · intro _ _ _ hran
        rcases hpc with rfl | rfl <;> cases hran

/-- Every step keeps the items as they are to be. -/
theorem ItemInv.step (h : ItemInv codec env k targets s) {label : ClusterLabel}
    (hstep : clusterStep codec env (withPages targets) s label = some s') :
    ItemInv codec env k targets s' := by
  cases label with
  | dispatcher => exact h.dispatch hstep
  | worker i => exact h.work hstep

/-- The state in which the dispatcher starts. -/
theorem parallelDecompress_eq_ok {vaddrs : List (Nat × Option Nat)}
    (h : parallelDecompress env k vaddrs = .ok s) :
    s = ⟨k, 0, 0, 0, fun _ => .zero, fun _ => .idle, [], .prepare 0⟩ := by
  unfold parallelDecompress at h
  split at h
  · cases h
  split at h
  · cases h
  split at h
  · cases h
  injection h with h
  exact h.symm

/-- No item is filled at the start. -/
theorem itemInv_start (codec : Codec) (h : parallelDecompress env k (withPages targets) = .ok s) :
    ItemInv codec env k targets s := by
  have hcount := countInv_start h
  rw [length_withPages] at hcount
  have hs := parallelDecompress_eq_ok h
  subst hs
  refine ⟨hcount, rfl, rfl, ?_, ?_, ?_, ?_, ?_⟩
  · intro i target _ hi
    exact absurd hi (Nat.not_lt_zero i)
  · intro _ _
    rfl
  · intro _ _ _ _ hran
    cases hran
  · intro i target _ hi
    exact absurd hi (Nat.not_lt_zero i)
  · rintro i target _ (hi | hi) <;> cases hi

end Items

/-! ## The pages -/

/-- Each page holds what the last successful item on it wrote, or what it held at the start. -/
def FrameInv (codec : Codec) (env : ClusterEnv) (k : Kernel) (targets : List (Nat × Nat))
    (s : ClusterState) : Prop :=
  ∀ pfn, (∃ i target page, targets[i]? = some target ∧ target.2 = pfn ∧
      serialStatus codec env k i target = 0 ∧ serialPage codec k target.1 = some page ∧
      s.kernel.frames.data pfn = page) ∨
    (s.kernel.frames.data pfn = k.frames.data pfn ∧
      ∀ (i : Nat) (target : Nat × Nat), targets[i]? = some target → target.2 = pfn →
        (s.workers i).hasRun = true → serialStatus codec env k i target ≠ 0)

section Pages

variable {codec : Codec} {env : ClusterEnv} {k : Kernel} {targets : List (Nat × Nat)}
  {s s' : ClusterState} {i : Nat}

/-- A step that writes no page and gives no worker its first run. -/
theorem FrameInv.of_same (h : FrameInv codec env k targets s) (hkernel : s'.kernel = s.kernel)
    (hrun : ∀ i, (s'.workers i).hasRun = true → (s.workers i).hasRun = true) :
    FrameInv codec env k targets s' := by
  intro pfn
  rw [hkernel]
  rcases h pfn with hwritten | ⟨hdata, hnone⟩
  · exact .inl hwritten
  · exact .inr ⟨hdata, fun i target htarget hpfn hi => hnone i target htarget hpfn (hrun i hi)⟩

/-- The dispatcher writes no frame. -/
theorem FrameInv.dispatch (h : FrameInv codec env k targets s)
    (hstep : dispatchStep env (withPages targets) s = some s') :
    FrameInv codec env k targets s' := by
  have hsame : s'.kernel = s.kernel ∧
      ∀ i, (s'.workers i).hasRun = true → (s.workers i).hasRun = true := by
    cases dispatchStep_supplied hstep
    case queue i hpc hs' =>
      subst hs'
      refine ⟨rfl, fun j hj => ?_⟩
      by_cases hji : j = i
      · subst hji
        dsimp only at hj
        rw [Function.update_self] at hj
        cases hj
      · dsimp only at hj
        rwa [Function.update_of_ne hji] at hj
    case collect i hpc hi hs' =>
      subst hs'
      dsimp only
      split
      · exact ⟨rfl, fun _ hj => hj⟩
      · exact ⟨rfl, fun _ hj => hj⟩
    all_goals
      subst_vars
      exact ⟨rfl, fun _ hj => hj⟩
  exact h.of_same hsame.1 hsame.2

/-- A worker writes the page of its item and no other. -/
theorem FrameInv.work (h : FrameInv codec env k targets s) (hitems : ItemInv codec env k targets s)
    (hstep : workerStep codec env s i = some s') : FrameInv codec env k targets s' := by
  cases workerStep_effect hstep with
  | run hold hs' =>
      obtain ⟨target, htarget, hrun⟩ := hitems.run_eq hold
      subst hs'
      rcases hrun with ⟨page, hpage, hzero, hwork⟩ | ⟨hne, hwork⟩
      · intro pfn
        dsimp only
        rw [hwork]
        by_cases hpfn : pfn = target.2
        · refine .inl ⟨i, target, page, htarget, hpfn.symm, hzero, hpage, ?_⟩
          rw [hpfn]
          exact Function.update_self _ _ _
        · have hdata : (s.kernel.writeFrame target.2 page).frames.data pfn
              = s.kernel.frames.data pfn := Function.update_of_ne hpfn _ _
          rw [hdata]
          rcases h pfn with hwritten | ⟨hsame, hnone⟩
          · exact .inl hwritten
          · refine .inr ⟨hsame, fun j other hother hj hran => ?_⟩
            have hji : j ≠ i := by
              rintro rfl
              rw [htarget] at hother
              injection hother with hother
              exact hpfn (by rw [← hj, hother])
            rw [Function.update_of_ne hji] at hran
            exact hnone j other hother hj hran
      · intro pfn
        dsimp only
        rw [hwork]
        rcases h pfn with hwritten | ⟨hsame, hnone⟩
        · exact .inl hwritten
        · refine .inr ⟨hsame, fun j other hother hj hran => ?_⟩
          by_cases hji : j = i
          · subst hji
            rw [htarget] at hother
            injection hother with hother
            rw [← hother]
            exact hne
          · rw [Function.update_of_ne hji] at hran
            exact hnone j other hother hj hran
  | report status hold hs' =>
      subst hs'
      refine h.of_same rfl fun j hj => ?_
      by_cases hji : j = i
      · subst hji
        rw [hold]
        rfl
      · dsimp only at hj
        rwa [Function.update_of_ne hji] at hj
  | past pc remaining done hold hpc hs' =>
      subst hs'
      refine h.of_same rfl fun j hj => ?_
      by_cases hji : j = i
      · subst hji
        rcases hold with hold | hold <;> rw [hold] <;> rfl
      · dsimp only at hj
        rwa [Function.update_of_ne hji] at hj

end Pages

/-! ## The results -/

/-- How many results the dispatcher has collected. -/
def DispatchPc.collected (n : Nat) : DispatchPc → Nat
  | .collect i => i
  | .free => n
  | .unlock _ => n
  | .finished _ => n
  | _ => 0

/-- The results collected so far are those of the items, and the first error is zero as long as
every item was found and every status collected is zero. -/
structure CollectInv (codec : Codec) (env : ClusterEnv) (k : Kernel) (targets : List (Nat × Nat))
    (s : ClusterState) : Prop where
  le : s.pc.collected targets.length ≤ targets.length
  length : s.results.length = s.pc.collected targets.length
  results : ∀ (i : Nat) (target : Nat × Nat), targets[i]? = some target →
    i < s.pc.collected targets.length → s.results[i]? = some (serialResult codec env k i target)
  error : s.firstError = 0 ↔
    (∀ (i : Nat) (target : Nat × Nat), targets[i]? = some target →
      i < s.pc.filled targets.length → (mapLookup k.map target.1).isSome = true) ∧
    ∀ (i : Nat) (target : Nat × Nat), targets[i]? = some target →
      i < s.pc.collected targets.length → serialStatus codec env k i target = 0
  ret : ∀ ret, s.pc = .unlock ret ∨ s.pc = .finished ret → ret = s.firstError

section Results

variable {codec : Codec} {env : ClusterEnv} {k : Kernel} {targets : List (Nat × Nat)}
  {s s' : ClusterState} {i : Nat}

/-- An item whose worker is not going to touch it any more. -/
theorem ItemInv.settled (h : ItemInv codec env k targets s) (hpc : s.pc.joined = true)
    {target : Nat × Nat} (htarget : targets[i]? = some target)
    (hsettled : (s.workers i).active = false) :
    s.items i = { preparedItem k target with status := serialStatus codec env k i target } := by
  have hbehind : s.pc = .poll ∨ s.pc = .wait ∨ s.pc.joined = true := .inr (.inr hpc)
  have hi := (List.getElem?_eq_some_iff.1 htarget).1
  have hnext := (DispatchPc.behind_loop targets.length hbehind).1
  rw [h.filled i target htarget (by rw [DispatchPc.filled_of_behind _ hbehind]; exact hi)]
  have hqueued := h.queued i target htarget (by rw [hnext]; exact hi)
  cases hworker : s.workers i with
  | idle =>
      have hnone : mapLookup k.map target.1 = none := by
        rw [hworker] at hqueued
        rw [← Option.not_isSome_iff_eq_none]
        exact fun hsome => hqueued.2 hsome rfl
      rw [serialStatus_of_none hnone, preparedItem_of_none hnone]
      show preparedItem k target = _
      rw [preparedItem_of_none hnone]
  | finished => rfl
  | _ =>
      rw [hworker] at hsettled
      cases hsettled

/-- A step that collects nothing and finds nothing missing. -/
theorem CollectInv.keep (h : CollectInv codec env k targets s) {pc pc' : DispatchPc}
    (hpc : s.pc = pc) (hpc' : s'.pc = pc') (hresults : s'.results = s.results)
    (herror : s'.firstError = s.firstError)
    (hcollected : pc'.collected targets.length = pc.collected targets.length)
    (hfilled : pc'.filled targets.length = pc.filled targets.length)
    (hret : ∀ ret, pc' = .unlock ret ∨ pc' = .finished ret → ret = s.firstError) :
    CollectInv codec env k targets s' := by
  subst hpc hpc'
  exact {
    le := by
      rw [hcollected]
      exact h.le
    length := by rw [hresults, hcollected, h.length]
    results := by
      rw [hresults, hcollected]
      exact h.results
    error := by
      rw [herror, hcollected, hfilled]
      exact h.error
    ret := by
      rw [herror]
      exact hret }

/-- A failure is remembered. -/
theorem firstError_fail {err : Int} (herr : err ≠ 0) : (s.fail err).firstError ≠ 0 := by
  unfold ClusterState.fail
  dsimp only
  split
  · exact herr
  next hne => exact hne

/-- An address without an entry is skipped, with its error. -/
theorem CollectInv.missing (h : CollectInv codec env k targets s) {target : Nat × Nat}
    (hpc : s.pc = .prepare i) (htarget : targets[i]? = some target)
    (hentry : mapLookup k.map target.1 = none) (hresults : s'.results = s.results)
    (herror : s'.firstError = (s.fail enoent).firstError) (hpc' : s'.pc = .prepare (i + 1)) :
    CollectInv codec env k targets s' := by
  have hlength := h.length
  rw [hpc] at hlength
  constructor <;> rw [hpc']
  · exact Nat.zero_le _
  · rw [hresults, hlength]
    rfl
  · intro j _ _ hj
    exact absurd hj (Nat.not_lt_zero j)
  · rw [herror]
    refine ⟨fun hzero => absurd hzero (firstError_fail (by simp [enoent])), ?_⟩
    rintro ⟨hfound, -⟩
    have hsome := hfound i target htarget (Nat.lt_succ_self i)
    rw [hentry] at hsome
    cases hsome
  · rintro ret (hret | hret) <;> cases hret

/-- An address with an entry goes to its worker. -/
theorem CollectInv.found (h : CollectInv codec env k targets s) {target : Nat × Nat}
    (hpc : s.pc = .prepare i) (htarget : targets[i]? = some target)
    (hentry : (mapLookup k.map target.1).isSome = true) (hresults : s'.results = s.results)
    (herror : s'.firstError = s.firstError) (hpc' : s'.pc = .inc i) :
    CollectInv codec env k targets s' := by
  have hlength := h.length
  have hzero := h.error
  rw [hpc] at hlength hzero
  constructor <;> rw [hpc']
  · exact Nat.zero_le _
  · rw [hresults, hlength]
    rfl
  · intro j _ _ hj
    exact absurd hj (Nat.not_lt_zero j)
  · rw [herror, hzero]
    refine and_congr_left' ⟨fun hall => ?_, fun hall => ?_⟩
    · exact (forall_target_succ htarget).2 ⟨hall, hentry⟩
    · exact ((forall_target_succ htarget).1 hall).1
  · rintro ret (hret | hret) <;> cases hret

/-- The result of an item is added behind the others. -/
theorem CollectInv.collect (h : CollectInv codec env k targets s) {target : Nat × Nat}
    (hpc : s.pc = .collect i) (htarget : targets[i]? = some target)
    (hresults : s'.results = s.results ++ [serialResult codec env k i target])
    (herror : s'.firstError = 0 ↔ s.firstError = 0 ∧ serialStatus codec env k i target = 0)
    (hpc' : s'.pc = .collect (i + 1)) : CollectInv codec env k targets s' := by
  have hlength := h.length
  have hold := h.results
  have hzero := h.error
  rw [hpc] at hlength hold hzero
  replace hlength : s.results.length = i := hlength
  constructor <;> rw [hpc']
  · exact (List.getElem?_eq_some_iff.1 htarget).1
  · rw [hresults, List.length_append, hlength]
    rfl
  · rw [hresults]
    refine (forall_target_succ htarget).2 ⟨fun j other hother hj => ?_, ?_⟩
    · rw [List.getElem?_append_left (by omega)]
      exact hold j other hother hj
    · rw [List.getElem?_append_right (by omega), hlength, Nat.sub_self]
      rfl
  · rw [herror, hzero, and_assoc]
    exact and_congr_right fun _ => (forall_target_succ htarget).symm
  · rintro ret (hret | hret) <;> cases hret

/-- The results are collected in the order of the addresses. -/
theorem CollectInv.dispatch (hresults : env.results = true)
    (h : CollectInv codec env k targets s) (hitems : ItemInv codec env k targets s)
    (hsound : JoinSound s) (hstep : dispatchStep env (withPages targets) s = some s') :
    CollectInv codec env k targets s' := by
  cases dispatchStep_supplied hstep with
  | missing i target hpc htarget hentry hs' =>
      rw [hitems.map] at hentry
      subst hs'
      exact h.missing hpc htarget hentry rfl rfl rfl
  | found i target entry hpc htarget hentry hs' =>
      rw [hitems.map] at hentry
      subst hs'
      exact h.found hpc htarget (by rw [hentry, Option.isSome_some]) rfl rfl rfl
  | prepared i hpc hi hs' =>
      have hle := hitems.count.next
      rw [hpc] at hle
      obtain rfl : i = targets.length := Nat.le_antisymm hle hi
      subst hs'
      refine h.keep hpc rfl rfl rfl rfl rfl ?_
      rintro ret (hret | hret) <;> cases hret
  | inc i hpc hs' =>
      subst hs'
      refine h.keep hpc rfl rfl rfl rfl rfl ?_
      rintro ret (hret | hret) <;> cases hret
  | queue i hpc hs' =>
      subst hs'
      refine h.keep hpc rfl rfl rfl rfl rfl ?_
      rintro ret (hret | hret) <;> cases hret
  | joining done pc hpc hpc' hs' =>
      subst hs'
      have hnone : ∀ ret, pc = .unlock ret ∨ pc = .finished ret → ret = s.firstError := by
        rcases hpc' with rfl | rfl <;> rintro ret (hret | hret) <;> cases hret
      rcases hpc with hpc | hpc <;> refine h.keep hpc rfl rfl rfl ?_ ?_ hnone <;>
        rcases hpc' with rfl | rfl <;> rfl
  | collect i hpc hi hs' =>
      have hjoined : s.pc.joined = true := by rw [hpc]; rfl
      have htarget := List.getElem?_eq_getElem hi
      have hitem := hitems.settled hjoined htarget (hsound hjoined i)
      subst hs'
      apply h.collect hpc htarget
      · dsimp only
        rw [if_pos hresults, hitem]
        rfl
      · dsimp only
        rw [hitem]
        dsimp only
        split
        next hne => simp [firstError_fail hne, hne]
        next heq =>
          rw [not_not] at heq
          simp [heq]
      · rfl
  | collected i hpc hi hs' =>
      have hle := h.le
      rw [hpc] at hle
      obtain rfl : i = targets.length := Nat.le_antisymm hle hi
      subst hs'
      refine h.keep hpc rfl rfl rfl rfl rfl ?_
      rintro ret (hret | hret) <;> cases hret
  | free hpc hs' =>
      subst hs'
      refine h.keep hpc rfl rfl rfl rfl rfl ?_
      rintro ret (hret | hret) <;> cases hret
      rfl
  | unlock ret hpc hs' =>
      have hret := h.ret ret (.inl hpc)
      subst hs'
      refine h.keep hpc rfl rfl rfl rfl rfl ?_
      rintro ret' (hret' | hret') <;> cases hret'
      exact hret

/-- The workers add no result. -/
theorem CollectInv.work (h : CollectInv codec env k targets s)
    (hstep : workerStep codec env s i = some s') : CollectInv codec env k targets s' := by
  have hsame : s'.results = s.results ∧ s'.firstError = s.firstError ∧ s'.pc = s.pc := by
    cases workerStep_effect hstep with
    | run hold hs' =>
        subst hs'
        exact ⟨rfl, rfl, rfl⟩
    | report status hold hs' =>
        subst hs'
        exact ⟨rfl, rfl, rfl⟩
    | past pc remaining done hold hpc hs' =>
        subst hs'
        exact ⟨rfl, rfl, rfl⟩
  obtain ⟨hresults, herror, hpc⟩ := hsame
  exact h.keep rfl hpc hresults herror rfl rfl h.ret

end Results

/-! ## The whole cluster -/

/-- The dispatcher has collected every result. -/
def DispatchPc.closing : DispatchPc → Bool
  | .free => true
  | .unlock _ => true
  | .finished _ => true
  | _ => false

/-- Items, pages and results are as they are to be, and whoever has collected every result has
waited for every worker. -/
structure SerialInv (codec : Codec) (env : ClusterEnv) (k : Kernel) (targets : List (Nat × Nat))
    (s : ClusterState) : Prop where
  items : ItemInv codec env k targets s
  pages : FrameInv codec env k targets s
  results : CollectInv codec env k targets s
  closing : s.pc.closing = true → ∀ i, (s.workers i).active = false

section Cluster

variable {codec : Codec} {env : ClusterEnv} {k : Kernel} {targets : List (Nat × Nat)}
  {s s' t : ClusterState} {i : Nat} {target : Nat × Nat} {page : Page}

/-- The cluster is closed behind the join. -/
theorem DispatchPc.joined_of_closing {pc : DispatchPc} (h : pc.closing = true) :
    pc.joined = true := by
  cases pc <;> first | rfl | cases h

/-- No worker is active when the cluster closes. -/
theorem closing_dispatch (hsound : JoinSound s)
    (hstep : dispatchStep env (withPages targets) s = some s') (hclosing : s'.pc.closing = true) :
    ∀ i, (s'.workers i).active = false := by
  cases dispatchStep_supplied hstep
  case collected i hpc hi hs' =>
    subst hs'
    exact hsound (by rw [hpc]; rfl)
  case free hpc hs' =>
    subst hs'
    exact hsound (by rw [hpc]; rfl)
  case unlock ret hpc hs' =>
    subst hs'
    exact hsound (by rw [hpc]; rfl)
  case joining done pc hpc hpc' hs' =>
    subst hs'
    rcases hpc' with rfl | rfl <;> cases hclosing
  all_goals
    subst_vars
    cases hclosing

/-- A step of the dispatcher or of a worker keeps all three. -/
theorem SerialInv.step (hresults : env.results = true) (h : SerialInv codec env k targets s)
    (hsound : JoinSound s) {label : ClusterLabel}
    (hstep : clusterStep codec env (withPages targets) s label = some s') :
    SerialInv codec env k targets s' := by
  cases label with
  | dispatcher =>
      exact ⟨h.items.dispatch hstep, h.pages.dispatch hstep,
        h.results.dispatch hresults h.items hsound hstep, closing_dispatch hsound hstep⟩
  | worker i =>
      refine ⟨h.items.work hstep, h.pages.work h.items hstep, h.results.work hstep, ?_⟩
      intro hclosing
      have hmove := workerStep_move hstep
      rw [hmove.pc_eq] at hclosing
      have hactive := hmove.active
      rw [hsound (DispatchPc.joined_of_closing hclosing) i] at hactive
      cases hactive

/-- All three hold at the start. -/
theorem serialInv_start (codec : Codec)
    (h : parallelDecompress env k (withPages targets) = .ok s) :
    SerialInv codec env k targets s := by
  have hs := parallelDecompress_eq_ok h
  have hitems := itemInv_start codec h
  subst hs
  refine ⟨hitems, ?_, ⟨Nat.zero_le _, rfl, ?_, ?_, ?_⟩, ?_⟩
  · refine fun pfn => .inr ⟨rfl, fun i target _ _ hran => ?_⟩
    cases hran
  · intro i target _ hi
    exact absurd hi (Nat.not_lt_zero i)
  · refine ⟨fun _ => ⟨?_, ?_⟩, fun _ => rfl⟩
    · intro i target _ hi
      exact absurd hi (Nat.not_lt_zero i)
    · intro i target _ hi
      exact absurd hi (Nat.not_lt_zero i)
  · rintro ret (hret | hret) <;> cases hret
  · intro hclosing
    cases hclosing

/-- At the end the worker of each item with an entry has been at its page. -/
theorem SerialInv.hasRun (h : SerialInv codec env k targets t) (hclosing : t.pc.closing = true)
    (htarget : targets[i]? = some target) (hentry : (mapLookup k.map target.1).isSome = true) :
    (t.workers i).hasRun = true := by
  have hjoined := DispatchPc.joined_of_closing hclosing
  have hnext := (DispatchPc.behind_loop targets.length (.inr (.inr hjoined))).1
  have hi := (List.getElem?_eq_some_iff.1 htarget).1
  have hne := (h.items.queued i target htarget (by rw [hnext]; exact hi)).2 hentry
  have hinactive := h.closing hclosing i
  cases hworker : t.workers i with
  | idle => exact absurd hworker hne
  | queued =>
      rw [hworker] at hinactive
      cases hinactive
  | _ => rfl

/-- What is decompressed was stored. -/
theorem isSome_of_serialPage (hpage : serialPage codec k target.1 = some page) :
    (mapLookup k.map target.1).isSome = true := by
  cases hlookup : mapLookup k.map target.1 with
  | none =>
      rw [serialPage, hlookup] at hpage
      cases hpage
  | some entry => rfl

/-- A status of 0 stands for a page that was written. -/
theorem writes_of_status (htarget : targets[i]? = some target)
    (hstatus : serialStatus codec env k i target = 0)
    (hpage : serialPage codec k target.1 = some page) :
    Writes codec env k targets target.2 (some page) :=
  ⟨i, target, htarget, rfl, (serialStatus_eq_zero_iff.1 hstatus).1, isSome_of_serialPage hpage,
    hpage⟩

/-- At the end a page holds the bytes of its address exactly when the item's status is zero. -/
theorem SerialInv.status_iff (h : SerialInv codec env k targets t)
    (hclosing : t.pc.closing = true) (htell : PagesTell codec env k targets)
    (htarget : targets[i]? = some target) : serialStatus codec env k i target = 0 ↔
      ∃ page, serialPage codec k target.1 = some page ∧ t.kernel.frames.data target.2 = page := by
  constructor
  · intro hstatus
    obtain ⟨hreach, page, hpage⟩ := serialStatus_eq_zero_iff.1 hstatus
    have htold := htell i target page htarget hpage
    rw [if_pos hreach] at htold
    refine ⟨page, hpage, ?_⟩
    rcases h.pages target.2 with ⟨j, other, page', hother, hpfn, hzero, hpage', hdata⟩ |
      ⟨-, hnone⟩
    · have hwrites := writes_of_status hother hzero hpage'
      rw [hpfn] at hwrites
      have heq := htold _ hwrites
      injection heq with heq
      rw [hdata, heq]
    · have hran := h.hasRun hclosing htarget (isSome_of_serialPage hpage)
      exact absurd hstatus (hnone i target htarget rfl hran)
  · rintro ⟨page, hpage, hdata⟩
    by_cases hreach : (env.workers i).reaches = true
    · exact serialStatus_eq_zero_iff.2 ⟨hreach, page, hpage⟩
    · have htold := htell i target page htarget hpage
      rw [if_neg hreach] at htold
      obtain ⟨hothers, hheld⟩ := htold
      rcases h.pages target.2 with ⟨j, other, page', hother, hpfn, hzero, hpage', hdata'⟩ |
        ⟨hsame, hnone⟩
      · have hwrites := writes_of_status hother hzero hpage'
        rw [hpfn] at hwrites
        have heq : page' = page := hdata'.symm.trans hdata
        exact absurd (by rw [heq]) (hothers _ hwrites).2
      · obtain ⟨out, hwrites⟩ := hheld (hsame.symm.trans hdata)
        have hout := (hothers out hwrites).1
        obtain ⟨j, other, hother, hpfn, hreach', hentry, hpage'⟩ := hwrites
        obtain ⟨page', hpage''⟩ := Option.ne_none_iff_exists'.1 hout
        have hzero : serialStatus codec env k j other = 0 :=
          serialStatus_eq_zero_iff.2 ⟨hreach', page', by rw [hpage', hpage'']⟩
        exact absurd hzero (hnone j other hother hpfn (h.hasRun hclosing hother hentry))

/-- At the end the result of each address is the one of the calls in a row. -/
theorem SerialInv.getElem?_results (h : SerialInv codec env k targets t) {ret : Int}
    (hpc : t.pc = .finished ret) (htarget : targets[i]? = some target) :
    t.results[i]? = some (serialResult codec env k i target) := by
  apply h.results.results i target htarget
  rw [hpc]
  exact (List.getElem?_eq_some_iff.1 htarget).1

theorem vaddr_preparedItem (k : Kernel) (target : Nat × Nat) : (preparedItem k target).vaddr
    = if (mapLookup k.map target.1).isSome then target.1 else 0 := by
  unfold preparedItem
  cases mapLookup k.map target.1 <;> rfl

/-- The results carry the addresses exactly when no address is missing. -/
theorem SerialInv.vaddrs_iff (h : SerialInv codec env k targets t) {ret : Int}
    (hpc : t.pc = .finished ret) :
    t.results.map ClusterResult.vaddr = targets.map Prod.fst ↔ AddressesMapped k targets := by
  have hlength : t.results.length = targets.length := by
    rw [h.results.length, hpc]
    rfl
  constructor
  · intro heq target hmem
    obtain ⟨i, hi⟩ := List.getElem?_of_mem hmem
    have hat : (t.results.map ClusterResult.vaddr)[i]? = (targets.map Prod.fst)[i]? := by
      rw [heq]
    rw [List.getElem?_map, List.getElem?_map, h.getElem?_results hpc hi, hi, Option.map_some,
      Option.map_some] at hat
    injection hat with hat
    have hvaddr : (preparedItem k target).vaddr = target.1 := hat
    rw [vaddr_preparedItem] at hvaddr
    split at hvaddr
    next hentry => exact .inr hentry
    next => exact .inl hvaddr.symm
  · intro hmapped
    apply List.ext_getElem?
    intro i
    rw [List.getElem?_map, List.getElem?_map]
    cases hi : targets[i]? with
    | none =>
        rw [List.getElem?_eq_none_iff] at hi
        rw [List.getElem?_eq_none (by omega)]
        rfl
    | some target =>
        rw [h.getElem?_results hpc hi, Option.map_some, Option.map_some]
        show some (preparedItem k target).vaddr = some target.1
        rw [vaddr_preparedItem]
        rcases hmapped target (List.mem_of_getElem? hi) with hzero | hentry
        · rw [hzero, ite_self]
        · rw [if_pos hentry]

/-- The cluster reports success exactly when every item does. -/
theorem SerialInv.ret_iff (h : SerialInv codec env k targets t) {ret : Int}
    (hpc : t.pc = .finished ret) : ret = 0 ↔ ∀ result ∈ t.results, result.status = 0 := by
  have hfilled : t.pc.filled targets.length = targets.length := by rw [hpc]; rfl
  have hcollected : t.pc.collected targets.length = targets.length := by rw [hpc]; rfl
  rw [h.results.ret ret (.inr hpc), h.results.error, hfilled, hcollected]
  constructor
  · rintro ⟨-, hzero⟩ result hmem
    obtain ⟨i, hi⟩ := List.getElem?_of_mem hmem
    have hlt : i < targets.length := by
      rw [← hcollected, ← h.results.length]
      exact (List.getElem?_eq_some_iff.1 hi).1
    have htarget := List.getElem?_eq_getElem hlt
    rw [h.getElem?_results hpc htarget] at hi
    injection hi with hi
    rw [← hi]
    exact hzero i _ htarget hlt
  · intro hall
    have hzero : ∀ (i : Nat) (target : Nat × Nat), targets[i]? = some target →
        serialStatus codec env k i target = 0 := by
      intro i target htarget
      exact hall _ (List.mem_of_getElem? (h.getElem?_results hpc htarget))
    refine ⟨fun i target htarget _ => ?_, fun i target htarget _ => hzero i target htarget⟩
    by_contra hnone
    rw [Option.not_isSome_iff_eq_none] at hnone
    have hstatus := hzero i target htarget
    rw [serialStatus_of_none hnone] at hstatus
    cases hstatus

/-- Whatever the order of the workers, a cluster whose dispatcher waits for all of them and
whose pages tell which items went through ends as if its addresses were decompressed one by
one, exactly when no address is missing. -/
theorem parallelDecompress_serial_iff {schedule : List ClusterLabel} {ret : Int}
    (hresults : env.results = true) (htell : PagesTell codec env k targets)
    (hstart : parallelDecompress env k (withPages targets) = .ok s)
    (hrun : Run (clusterStep codec env (withPages targets)) (fun s _ => JoinSound s) s schedule t)
    (hpc : t.pc = .finished ret) :
    SerialOutcome codec k targets t ret ↔ AddressesMapped k targets := by
  have hinv : SerialInv codec env k targets t :=
    hrun.invariant (fun _ _ _ h hsound hstep => h.step hresults hsound hstep)
      (serialInv_start codec hstart)
  constructor
  · intro houtcome
    exact (hinv.vaddrs_iff hpc).1 houtcome.vaddrs
  · intro hmapped
    refine ⟨(hinv.vaddrs_iff hpc).2 hmapped, ?_, hinv.ret_iff hpc, hinv.items.map,
      hinv.items.pool⟩
    intro i target htarget
    refine ⟨_, hinv.getElem?_results hpc htarget, ?_⟩
    exact hinv.status_iff (by rw [hpc]; rfl) htell htarget

end Cluster

/-- Two pages, of ones and of twos, whose workers take turns; the second counts itself out
before the dispatcher reads the count, the first while the dispatcher waits. -/
theorem parallelDecompress_serial_pair :
    ∃ s t, parallelDecompress .ok (.twoEntries true) (withPages [(0x1000, 0), (0x2000, 1)])
        = .ok s ∧
      Run (clusterStep samePageCodec .ok (withPages [(0x1000, 0), (0x2000, 1)]))
        (fun s _ => JoinSound s) s
        [.dispatcher, .dispatcher, .dispatcher, .worker 0, .dispatcher, .dispatcher, .dispatcher,
          .worker 1, .worker 0, .worker 1, .dispatcher, .worker 1, .dispatcher, .worker 0,
          .worker 0, .dispatcher, .dispatcher, .dispatcher, .dispatcher, .dispatcher,
          .dispatcher] t ∧
      t.pc = .finished 0 ∧
      SerialOutcome samePageCodec (.twoEntries true) [(0x1000, 0), (0x2000, 1)] t 0 := by
  have hdone : ∀ i, (Function.update (Function.update (Function.update (Function.update
      (Function.update (Function.update (Function.update (Function.update (Function.update
        (fun _ => WorkerPc.idle) 0 .queued) 0 (.ran 0)) 1 .queued) 1 (.ran 0)) 0 .stored)
          1 .stored) 1 .finished) 0 .completing) 0 .finished i).active = false := by
    intro i
    by_cases hi : i = 0
    · rw [hi]
      rfl
    by_cases hi' : i = 1
    · rw [hi']
      rfl
    · simp [Function.update_of_ne hi, Function.update_of_ne hi', WorkerPc.active]
  have htell : PagesTell samePageCodec .ok (.twoEntries true) [(0x1000, 0), (0x2000, 1)] := by
    intro i target page htarget hpage
    have hreach : (ClusterEnv.ok.workers i).reaches = true := rfl
    rw [if_pos hreach]
    rintro out ⟨j, other, hother, hpfn, -, -, hout⟩
    have htarget' := List.mem_of_getElem? htarget
    have hother' := List.mem_of_getElem? hother
    simp only [List.mem_cons, List.not_mem_nil, or_false] at htarget' hother'
    have heq : other = target := by
      rcases htarget' with rfl | rfl <;> rcases hother' with rfl | rfl <;>
        first | rfl | cases hpfn
    rw [← hout, heq, hpage]
  have hmapped : AddressesMapped (.twoEntries true) [(0x1000, 0), (0x2000, 1)] := by
    intro target hmem
    simp only [List.mem_cons, List.not_mem_nil, or_false] at hmem
    rcases hmem with rfl | rfl <;> exact .inr rfl
  have hrun : ∃ t, Run (clusterStep samePageCodec .ok (withPages [(0x1000, 0), (0x2000, 1)]))
      (fun s _ => JoinSound s)
      ⟨.twoEntries true, 0, 0, 0, fun _ => .zero, fun _ => .idle, [], .prepare 0⟩
      [.dispatcher, .dispatcher, .dispatcher, .worker 0, .dispatcher, .dispatcher, .dispatcher,
        .worker 1, .worker 0, .worker 1, .dispatcher, .worker 1, .dispatcher, .worker 0,
        .worker 0, .dispatcher, .dispatcher, .dispatcher, .dispatcher, .dispatcher,
        .dispatcher] t ∧ t.pc = .finished 0 := by
    refine ⟨?_, ?_, ?_⟩
    rotate_left
    · iterate 16
        refine .cons rfl (fun hjoined => ?_) ?_
        · cases hjoined
      -- both workers have finished when the dispatcher reads the first status
      iterate 5
        refine .cons rfl (fun _ => hdone) ?_
      exact .nil _
    · rfl
  obtain ⟨t, hrun, hpc⟩ := hrun
  exact ⟨_, t, rfl, hrun, hpc, (parallelDecompress_serial_iff rfl htell rfl hrun hpc).2 hmapped⟩

/-- An address that has no entry: its result carries the address zero. -/
theorem not_serialOutcome_missing :
    ∃ s t, parallelDecompress .ok .oneMarker (withPages [(0x2000, 0)]) = .ok s ∧
      Run (clusterStep samePageCodec .ok (withPages [(0x2000, 0)])) (fun s _ => JoinSound s) s
        [.dispatcher, .dispatcher, .dispatcher, .dispatcher, .dispatcher, .dispatcher,
          .dispatcher] t ∧
      t.pc = .finished enoent ∧ ¬SerialOutcome samePageCodec .oneMarker [(0x2000, 0)] t enoent := by
  have hrun : ∃ t, Run (clusterStep samePageCodec .ok (withPages [(0x2000, 0)]))
      (fun s _ => JoinSound s)
      ⟨.oneMarker, 0, 0, 0, fun _ => .zero, fun _ => .idle, [], .prepare 0⟩
      [.dispatcher, .dispatcher, .dispatcher, .dispatcher, .dispatcher, .dispatcher,
        .dispatcher] t ∧
      t.pc = .finished enoent ∧ t.results.map ClusterResult.vaddr = [0] := by
    refine ⟨?_, ?_, ?_, ?_⟩
    rotate_left
    · iterate 7
        refine .cons rfl (fun _ _ => rfl) ?_
      exact .nil _
    · rfl
    · rfl
  obtain ⟨t, hrun, hpc, hvaddrs⟩ := hrun
  refine ⟨_, t, rfl, hrun, hpc, fun h => ?_⟩
  have heq := hvaddrs.symm.trans h.vaddrs
  simp at heq

end MiniMem
