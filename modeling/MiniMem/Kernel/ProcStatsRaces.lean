import MiniMem.Kernel.ProcStats

/-!
# MiniMem.Kernel.ProcStatsRaces

What the statistics by process keep while threads interleave.  The count is
the number of entries whenever the lock is free, every entry is freed at most
once, and nothing is left when tracking is off and nobody is inside, as long
as three things do not happen: `xa_store` fails, the collector comes to erase
an entry that another thread has taken out in the meantime, or a recorder
that was let in before tracking was switched off stores its entry after the
others have been cleared.
-/

namespace MiniMem

/-! ## What a place says -/

namespace StatsPc

/-- The thread is inside the lock. -/
def locked : StatsPc → Bool
  | .allocLoad _ _ | .allocCount _ _ | .allocStore _ _ | .allocInc _ _ | .allocUnlock _ _ _ => true
  | .gcErase _ _ | .gcDec _ _ | .gcUnlock _ _ => true
  | .clearNext _ | .clearFree _ _ | .clearCount | .clearUnlock => true
  | _ => false

/-- The entry that is the thread's own to free. -/
def owns : StatsPc → Option Nat
  | .allocLock _ entry | .allocLoad _ entry => some entry
  | .allocCount _ entry | .allocStore _ entry => some entry
  | .allocUnlock _ entry .found | .allocUnlock _ entry .full | .allocFree _ entry _ => some entry
  | .gcDec _ entry | .gcUnlock _ entry | .gcFree _ entry | .clearFree _ entry => some entry
  | _ => none

/-- The thread is about to take every entry out. -/
def clearing : StatsPc → Bool
  | .clearLock | .clearNext _ | .clearFree _ _ => true
  | _ => false

/-- What holds between count and entries while the thread is here inside the lock. -/
def Section (count : Int) (xa : XArray Nat) : StatsPc → Prop
  | .allocCount r _ => count = xa.size ∧ xa.load r.pid = none
  | .allocStore r _ => count = xa.size ∧ count < procStatsMaxEntries ∧ xa.load r.pid = none
  | .allocInc _ _ => count + 1 = xa.size ∧ count < procStatsMaxEntries
  | .gcDec _ _ => count = xa.size + 1
  | .clearNext cursor => ∀ pid < cursor, xa.load pid = none
  | .clearFree pid _ => ∀ pid' ≤ pid, xa.load pid' = none
  | .clearCount => ∀ pid, xa.load pid = none
  | .clearUnlock => (∀ pid, xa.load pid = none) ∧ count = 0
  | _ => count = xa.size

end StatsPc

/-! ## Invariants -/

/-- The lock and what it protects. -/
structure LockInv (s : ProcStats) : Prop where
  lock : ∀ i, (s.pc i).locked = true ↔ s.lock = some i
  free : s.lock = none → s.count = s.xa.size
  held : ∀ i, s.lock = some i → (s.pc i).Section s.count s.xa
  bounds : 0 ≤ s.count ∧ s.count ≤ procStatsMaxEntries

/-- With tracking off, no entry is there, or somebody is about to take them out. -/
def OffInv (s : ProcStats) : Prop :=
  s.enabled = false → (∀ pid, s.xa.load pid = none) ∨ ∃ i, (s.pc i).clearing = true

/-- Who has to free an entry: nobody yet, a thread, whoever takes it out of its slot, or
nobody any more. -/
inductive EntryOwner where
  | unborn
  | thread (i : Nat)
  | slot (pid : Nat)
  | freed

/-- Every entry has the owner that the state says it has. -/
structure Owned (s : ProcStats) (owner : Nat → EntryOwner) : Prop where
  slots : ∀ pid entry, s.xa.load pid = some entry → owner entry = .slot pid
  threads : ∀ i entry, (s.pc i).owns = some entry → owner entry = .thread i
  freed : ∀ entry ∈ s.freed, owner entry = .freed
  once : s.freed.Nodup
  unborn : ∀ entry, s.next ≤ entry → owner entry = .unborn

variable {s s' : ProcStats} {i : Nat} {pc pc' : StatsPc} {owner : Nat → EntryOwner}

/-! ## How the lock's invariant goes on -/

section Lock

variable (h : LockInv s)
include h

/-- A step outside the lock that changes nothing that it protects. -/
theorem LockInv.outside (hpc : s.pc i = pc) (hpcs : s'.pc = Function.update s.pc i pc')
    (hout : pc.locked = false) (hout' : pc'.locked = false) (hlock : s'.lock = s.lock)
    (hcount : s'.count = s.count) (hxa : s'.xa = s.xa) : LockInv s' := by
  have hne : ∀ j, s.lock = some j → j ≠ i := by
    rintro j hj rfl
    rw [← hpc, (h.lock j).2 hj] at hout
    cases hout
  refine ⟨fun j => ?_, fun hfree => ?_, fun j hj => ?_, by rw [hcount]; exact h.bounds⟩
  · rw [hpcs, hlock]
    by_cases hji : j = i
    · subst hji
      rw [Function.update_self, hout']
      exact iff_of_false (by decide) fun hj => hne j hj rfl
    · rw [Function.update_of_ne hji]
      exact h.lock j
  · rw [hcount, hxa]
    exact h.free (hlock ▸ hfree)
  · rw [hlock] at hj
    rw [hpcs, hcount, hxa, Function.update_of_ne (hne j hj)]
    exact h.held j hj

/-- `spin_lock`. -/
theorem LockInv.spinLock (hstep : s.spinLock i pc' = some s') (hin' : pc'.locked = true)
    (hsection : s.count = s.xa.size → pc'.Section s.count s.xa) : LockInv s' := by
  unfold ProcStats.spinLock at hstep
  split at hstep
  · cases hstep
  next hnone =>
    rw [Option.not_isSome_iff_eq_none] at hnone
    cases hstep
    refine ⟨fun j => ?_, fun hfree => ?_, fun j hj => ?_, h.bounds⟩
    · dsimp only [ProcStats.goto]
      by_cases hji : j = i
      · subst hji
        rw [Function.update_self, hin']
        exact iff_of_true rfl rfl
      · rw [Function.update_of_ne hji, h.lock j, hnone]
        exact iff_of_false nofun fun heq => hji (Option.some.inj heq).symm
    · cases hfree
    · cases hj
      dsimp only [ProcStats.goto]
      rw [Function.update_self]
      exact hsection (h.free hnone)

/-- `spin_unlock`. -/
theorem LockInv.spinUnlock (hpc : s.pc i = pc) (hin : pc.locked = true)
    (hout' : pc'.locked = false) (hcount : s.count = s.xa.size) :
    LockInv (s.spinUnlock i pc') := by
  have hheld : s.lock = some i := (h.lock i).1 (hpc ▸ hin)
  refine ⟨fun j => ?_, fun _ => hcount, fun j hj => ?_, h.bounds⟩
  · dsimp only [ProcStats.spinUnlock, ProcStats.goto]
    by_cases hji : j = i
    · subst hji
      rw [Function.update_self, hout']
      exact iff_of_false (by decide) nofun
    · rw [Function.update_of_ne hji, h.lock j, hheld]
      exact iff_of_false (fun heq => hji (Option.some.inj heq).symm) nofun
  · cases hj

/-- A step inside the lock. -/
theorem LockInv.inside (hpc : s.pc i = pc) (hpcs : s'.pc = Function.update s.pc i pc')
    (hin : pc.locked = true) (hin' : pc'.locked = true) (hlock : s'.lock = s.lock)
    (hsection : pc'.Section s'.count s'.xa)
    (hbounds : 0 ≤ s'.count ∧ s'.count ≤ procStatsMaxEntries) : LockInv s' := by
  have hheld : s.lock = some i := (h.lock i).1 (hpc ▸ hin)
  refine ⟨fun j => ?_, fun hfree => ?_, fun j hj => ?_, hbounds⟩
  · rw [hpcs, hlock]
    by_cases hji : j = i
    · subst hji
      rw [Function.update_self, hin', hheld]
      exact iff_of_true rfl rfl
    · rw [Function.update_of_ne hji]
      exact h.lock j
  · rw [hlock, hheld] at hfree
    cases hfree
  · rw [hlock, hheld] at hj
    cases hj
    rw [hpcs, Function.update_self]
    exact hsection

end Lock

/-! ## What must not happen -/

/-- `xa_store` succeeds, and what it stores is tracked or is about to be cleared; what the
collector erases is the entry that it has looked up. -/
def StatsGuard (s : ProcStats) : StatsAct → Prop
  | .call _ _ => True
  | .step i ok =>
      match s.pc i with
      | .allocStore _ _ => ok = true ∧ (s.enabled = true ∨ ∃ j, s.pc j = .clearLock)
      | .gcErase pid entry => s.xa.load pid = some entry
      | _ => True

/-! ## The steps inside the lock -/

/-- The holder of the lock is where the invariant says. -/
theorem LockInv.section_of_locked (h : LockInv s) (hpc : s.pc i = pc) (hlocked : pc.locked = true) :
    pc.Section s.count s.xa :=
  hpc ▸ h.held i ((h.lock i).1 (hpc ▸ hlocked))

section Sections

variable (h : LockInv s) {ok : Bool} {r : Recorder} {entry pid cursor : Nat}
include h

/-- The second lookup of the pid, under the lock. -/
theorem LockInv.allocLoad (hpc : s.pc i = .allocLoad r entry)
    (hturn : s.turn i ok (.allocLoad r entry) = some s') : LockInv s' := by
  have hcount : s.count = s.xa.size := h.section_of_locked hpc rfl
  simp only [ProcStats.turn] at hturn
  split at hturn
  · cases hturn
    exact h.inside hpc rfl rfl rfl rfl hcount h.bounds
  next hvacant =>
    cases hturn
    exact h.inside hpc rfl rfl rfl rfl ⟨hcount, hvacant⟩ h.bounds

/-- The second look at the count. -/
theorem LockInv.allocCount (hpc : s.pc i = .allocCount r entry)
    (hturn : s.turn i ok (.allocCount r entry) = some s') : LockInv s' := by
  obtain ⟨hcount, hvacant⟩ := h.section_of_locked hpc rfl
  simp only [ProcStats.turn] at hturn
  split at hturn
  · cases hturn
    exact h.inside hpc rfl rfl rfl rfl hcount h.bounds
  next hroom =>
    cases hturn
    exact h.inside hpc rfl rfl rfl rfl ⟨hcount, Int.not_le.1 hroom, hvacant⟩ h.bounds

/-- A store that succeeds puts the table one ahead of the count. -/
theorem LockInv.allocStore (hpc : s.pc i = .allocStore r entry)
    (hturn : s.turn i true (.allocStore r entry) = some s') : LockInv s' := by
  obtain ⟨hcount, hroom, hvacant⟩ := h.section_of_locked hpc rfl
  cases hturn
  have hsize : s.count + 1 = (s.xa.store r.pid entry).size := by
    rw [XArray.size_store, if_pos hvacant, hcount]
    rfl
  exact h.inside hpc rfl rfl rfl rfl ⟨hsize, hroom⟩ h.bounds

/-- The count follows, below the limit that was checked before the store. -/
theorem LockInv.allocInc (hpc : s.pc i = .allocInc r entry)
    (hturn : s.turn i ok (.allocInc r entry) = some s') : LockInv s' := by
  obtain ⟨hcount, hroom⟩ := h.section_of_locked hpc rfl
  have hbounds := h.bounds
  cases hturn
  have hnext : 0 ≤ s.count + 1 ∧ s.count + 1 ≤ procStatsMaxEntries := by omega
  exact h.inside hpc rfl rfl rfl rfl hcount hnext

/-- The collector's erasure leaves the table one behind. -/
theorem LockInv.gcErase (hpc : s.pc i = .gcErase pid entry) (hload : s.xa.load pid = some entry)
    (hturn : s.turn i ok (.gcErase pid entry) = some s') : LockInv s' := by
  have hcount : s.count = s.xa.size := h.section_of_locked hpc rfl
  cases hturn
  have hpos := XArray.size_pos_of_load hload
  have hsize : s.count = (s.xa.erase pid).size + 1 := by
    rw [XArray.size_erase, if_neg (by rw [hload]; nofun)]
    omega
  exact h.inside hpc rfl rfl rfl rfl hsize h.bounds

/-- The count follows; an entry was there, so it was positive. -/
theorem LockInv.gcDec (hpc : s.pc i = .gcDec pid entry)
    (hturn : s.turn i ok (.gcDec pid entry) = some s') : LockInv s' := by
  have hcount : s.count = s.xa.size + 1 := h.section_of_locked hpc rfl
  have hbounds := h.bounds
  cases hturn
  have hnext : 0 ≤ s.count - 1 ∧ s.count - 1 ≤ procStatsMaxEntries := by omega
  exact h.inside hpc rfl rfl rfl rfl (show s.count - 1 = s.xa.size by omega) hnext

/-- The clearing has emptied the table up to its cursor. -/
theorem LockInv.clearNext (hpc : s.pc i = .clearNext cursor)
    (hturn : s.turn i ok (.clearNext cursor) = some s') : LockInv s' := by
  have hbelow : ∀ pid < cursor, s.xa.load pid = none := h.section_of_locked hpc rfl
  simp only [ProcStats.turn] at hturn
  split at hturn
  next pid entry hfind =>
    cases hturn
    refine h.inside hpc rfl rfl rfl rfl (fun pid' hle => ?_) h.bounds
    obtain ⟨-, -, hbetween⟩ := XArray.findFrom_eq_some hfind
    refine (XArray.load_erase _ _ _).trans ?_
    split
    · rfl
    next hne =>
      by_cases hlt : pid' < cursor
      · exact hbelow pid' hlt
      · exact hbetween pid' (by omega) (by omega)
  next hnone =>
    cases hturn
    refine h.inside hpc rfl rfl rfl rfl (fun pid => ?_) h.bounds
    by_cases hlt : pid < cursor
    · exact hbelow pid hlt
    · exact XArray.load_of_findFrom_eq_none hnone (by omega)

/-- It goes on behind the entry that it has freed. -/
theorem LockInv.clearFree (hpc : s.pc i = .clearFree pid entry)
    (hturn : s.turn i ok (.clearFree pid entry) = some s') : LockInv s' := by
  have hupto : ∀ pid' ≤ pid, s.xa.load pid' = none := h.section_of_locked hpc rfl
  cases hturn
  exact h.inside hpc rfl rfl rfl rfl (fun pid' hlt => hupto pid' (Nat.le_of_lt_succ hlt)) h.bounds

/-- The count of an empty table. -/
theorem LockInv.clearCount (hpc : s.pc i = .clearCount)
    (hturn : s.turn i ok .clearCount = some s') : LockInv s' := by
  have hempty : ∀ pid, s.xa.load pid = none := h.section_of_locked hpc rfl
  cases hturn
  have hzero : (0 : Int) ≤ 0 ∧ 0 ≤ procStatsMaxEntries := by decide
  exact h.inside hpc rfl rfl rfl rfl ⟨hempty, rfl⟩ hzero

/-- The end of the clearing. -/
theorem LockInv.clearUnlock (hpc : s.pc i = .clearUnlock)
    (hturn : s.turn i ok .clearUnlock = some s') : LockInv s' := by
  obtain ⟨hempty, hcount⟩ := h.section_of_locked hpc rfl
  cases hturn
  refine h.spinUnlock hpc rfl rfl ?_
  rw [hcount, XArray.size_eq_zero_of_load hempty]
  rfl

end Sections

/-- A step of a thread keeps the lock's invariant. -/
theorem LockInv.turn (h : LockInv s) {ok : Bool} (hpc : s.pc i = pc)
    (hG : StatsGuard s (.step i ok)) (hturn : s.turn i ok pc = some s') : LockInv s' := by
  simp only [StatsGuard, hpc] at hG
  cases pc with
  | idle => cases hturn
  | find r | allocCheck r | allocNew r | allocAgain r | gcNext cursor | gcCheck pid entry =>
      simp only [ProcStats.turn] at hturn
      split at hturn <;> cases hturn <;> exact h.outside hpc rfl rfl rfl rfl rfl rfl
  | update r entry | gcFree pid entry =>
      cases hturn
      exact h.outside hpc rfl rfl rfl rfl rfl rfl
  | allocFree r entry again =>
      cases again <;> cases hturn <;> exact h.outside hpc rfl rfl rfl rfl rfl rfl
  | allocLock r entry => exact h.spinLock hturn rfl id
  | allocLoad r entry => exact h.allocLoad hpc hturn
  | allocCount r entry => exact h.allocCount hpc hturn
  | allocStore r entry =>
      obtain ⟨rfl, -⟩ := hG
      exact h.allocStore hpc hturn
  | allocInc r entry => exact h.allocInc hpc hturn
  | allocUnlock r entry exit =>
      have hcount : s.count = s.xa.size := h.section_of_locked hpc rfl
      cases exit <;> cases hturn <;> exact h.spinUnlock hpc rfl rfl hcount
  | gcLock pid entry => exact h.spinLock hturn rfl id
  | gcErase pid entry => exact h.gcErase hpc hG hturn
  | gcDec pid entry => exact h.gcDec hpc hturn
  | gcUnlock pid entry =>
      have hcount : s.count = s.xa.size := h.section_of_locked hpc rfl
      cases hturn
      exact h.spinUnlock hpc rfl rfl hcount
  | clearLock => exact h.spinLock hturn rfl fun _ pid hpid => absurd hpid (Nat.not_lt_zero pid)
  | clearNext cursor => exact h.clearNext hpc hturn
  | clearFree pid entry => exact h.clearFree hpc hturn
  | clearCount => exact h.clearCount hpc hturn
  | clearUnlock => exact h.clearUnlock hpc hturn

/-! ## What a step does to the entries -/

/-- What a step of a thread does to the entries: nothing, or it makes a new one, stores its
own, takes one out of its slot, or frees its own. -/
inductive StatsEffect (s : ProcStats) (pc pc' : StatsPc) (s' : ProcStats) : Prop
  | quiet (hxa : s'.xa = s.xa) (hnext : s'.next = s.next) (hfreed : s'.freed = s.freed)
      (howns : pc'.owns = pc.owns)
      (hclearing : pc'.clearing = pc.clearing ∨ ∀ pid, s.xa.load pid = none)
  | new (hxa : s'.xa = s.xa) (hnext : s'.next = s.next + 1) (hfreed : s'.freed = s.freed)
      (howns : pc'.owns = some s.next) (hclearing : pc'.clearing = pc.clearing)
  | store (pid entry : Nat) (htracked : s.enabled = true ∨ ∃ j, s.pc j = .clearLock)
      (hxa : s'.xa = s.xa.store pid entry) (hnext : s'.next = s.next) (hfreed : s'.freed = s.freed)
      (howned : pc.owns = some entry) (howns : pc'.owns = none)
      (hclearing : pc'.clearing = pc.clearing)
  | erase (pid entry : Nat) (hload : s.xa.load pid = some entry)
      (hxa : s'.xa = s.xa.erase pid) (hnext : s'.next = s.next) (hfreed : s'.freed = s.freed)
      (howns : pc'.owns = some entry) (hclearing : pc'.clearing = pc.clearing)
  | free (entry : Nat) (hxa : s'.xa = s.xa) (hnext : s'.next = s.next)
      (hfreed : s'.freed = s.freed ++ [entry]) (howned : pc.owns = some entry)
      (howns : pc'.owns = none) (hclearing : pc'.clearing = pc.clearing)

theorem spinLock_eq_some (h : s.spinLock i pc' = some s') :
    s' = { s with lock := some i }.goto i pc' := by
  unfold ProcStats.spinLock at h
  split at h
  · cases h
  · injection h with h
    exact h.symm

/-- A step that only moves the thread. -/
theorem effect_goto (howns : pc'.owns = pc.owns) (hclearing : pc'.clearing = pc.clearing) :
    ∃ pc'', (s.goto i pc').pc = Function.update s.pc i pc'' ∧ (s.goto i pc').enabled = s.enabled ∧
      StatsEffect s pc pc'' (s.goto i pc') :=
  ⟨pc', rfl, rfl, .quiet rfl rfl rfl howns (.inl hclearing)⟩

/-- The clearing takes out the next entry, or nothing is left. -/
theorem effect_clearNext (h : LockInv s) {ok : Bool} {cursor : Nat}
    (hpc : s.pc i = .clearNext cursor) (hturn : s.turn i ok (.clearNext cursor) = some s') :
    ∃ pc', s'.pc = Function.update s.pc i pc' ∧ s'.enabled = s.enabled ∧
      StatsEffect s (.clearNext cursor) pc' s' := by
  have hbelow : ∀ pid < cursor, s.xa.load pid = none := h.section_of_locked hpc rfl
  simp only [ProcStats.turn] at hturn
  split at hturn
  next pid entry hfind =>
    cases hturn
    exact ⟨_, rfl, rfl, .erase pid entry (XArray.findFrom_eq_some hfind).1 rfl rfl rfl rfl rfl⟩
  next hnone =>
    cases hturn
    refine ⟨_, rfl, rfl, .quiet rfl rfl rfl rfl (.inr fun pid => ?_)⟩
    by_cases hlt : pid < cursor
    · exact hbelow pid hlt
    · exact XArray.load_of_findFrom_eq_none hnone (by omega)

/-- A step of a thread has one of these effects, and no other thread moves. -/
theorem turn_effect (h : LockInv s) {ok : Bool} (hpc : s.pc i = pc)
    (hG : StatsGuard s (.step i ok)) (hturn : s.turn i ok pc = some s') :
    ∃ pc', s'.pc = Function.update s.pc i pc' ∧ s'.enabled = s.enabled ∧
      StatsEffect s pc pc' s' := by
  simp only [StatsGuard, hpc] at hG
  cases pc with
  | idle => cases hturn
  | find r | allocCheck r | allocLoad r entry | allocCount r entry | allocAgain r | gcNext cursor
  | gcCheck pid entry =>
      simp only [ProcStats.turn] at hturn
      split at hturn <;> cases hturn <;> exact effect_goto rfl rfl
  | allocLock r entry | gcLock pid entry | clearLock =>
      obtain rfl := spinLock_eq_some hturn
      exact ⟨_, rfl, rfl, .quiet rfl rfl rfl rfl (.inl rfl)⟩
  | allocInc r entry | update r entry | gcDec pid entry | gcUnlock pid entry | clearCount
  | clearUnlock =>
      cases hturn
      exact ⟨_, rfl, rfl, .quiet rfl rfl rfl rfl (.inl rfl)⟩
  | allocUnlock r entry exit =>
      cases exit <;> cases hturn <;> exact ⟨_, rfl, rfl, .quiet rfl rfl rfl rfl (.inl rfl)⟩
  | allocNew r =>
      simp only [ProcStats.turn] at hturn
      split at hturn
      · cases hturn
        exact effect_goto rfl rfl
      · cases hturn
        exact ⟨_, rfl, rfl, .new rfl rfl rfl rfl rfl⟩
  | allocStore r entry =>
      obtain ⟨rfl, htracked⟩ := hG
      cases hturn
      exact ⟨_, rfl, rfl, .store r.pid entry htracked rfl rfl rfl rfl rfl rfl⟩
  | gcErase pid entry =>
      cases hturn
      exact ⟨_, rfl, rfl, .erase pid entry hG rfl rfl rfl rfl rfl⟩
  | allocFree r entry again =>
      cases again <;> cases hturn <;>
        exact ⟨_, rfl, rfl, .free entry rfl rfl rfl rfl rfl rfl⟩
  | gcFree pid entry | clearFree pid entry =>
      cases hturn
      exact ⟨_, rfl, rfl, .free entry rfl rfl rfl rfl rfl rfl⟩
  | clearNext cursor => exact effect_clearNext h hpc hturn

/-- With tracking off, somebody who is about to clear stays on the way to it until nothing is
left. -/
theorem OffInv.effect (h : OffInv s) (hpc : s.pc i = pc)
    (hpcs : s'.pc = Function.update s.pc i pc') (henabled : s'.enabled = s.enabled)
    (heffect : StatsEffect s pc pc' s') : OffInv s' := by
  intro hoff
  rw [henabled] at hoff
  have hkeep : pc'.clearing = pc.clearing → (∃ j, (s.pc j).clearing = true) →
      ∃ j, (s'.pc j).clearing = true := by
    rintro hclearing ⟨j, hj⟩
    refine ⟨j, ?_⟩
    rw [hpcs]
    by_cases hji : j = i
    · subst hji
      rw [Function.update_self, hclearing, ← hpc, hj]
    · rw [Function.update_of_ne hji, hj]
  cases heffect with
  | quiet hxa _ _ _ hclearing =>
      rw [hxa]
      rcases hclearing with hclearing | hempty
      · exact (h hoff).imp id (hkeep hclearing)
      · exact .inl hempty
  | new hxa _ _ _ hclearing =>
      rw [hxa]
      exact (h hoff).imp id (hkeep hclearing)
  | store pid entry htracked _ _ _ _ _ hclearing =>
      rcases htracked with hon | ⟨j, hj⟩
      · rw [hoff] at hon
        cases hon
      · exact .inr (hkeep hclearing ⟨j, by rw [hj]; rfl⟩)
  | erase pid entry hload _ _ _ _ hclearing =>
      rcases h hoff with hempty | hsome
      · rw [hempty pid] at hload
        cases hload
      · exact .inr (hkeep hclearing hsome)
  | free entry hxa _ _ _ _ hclearing =>
      rw [hxa]
      exact (h hoff).imp id (hkeep hclearing)

/-- What the threads own after a step of one of them. -/
theorem Owned.owns_step (h : Owned s owner) (hpcs : s'.pc = Function.update s.pc i pc')
    {j entry : Nat} (hentry : (s'.pc j).owns = some entry) :
    (j = i ∧ pc'.owns = some entry) ∨ (j ≠ i ∧ owner entry = .thread j) := by
  rw [hpcs] at hentry
  by_cases hji : j = i
  · subst hji
    rw [Function.update_self] at hentry
    exact .inl ⟨rfl, hentry⟩
  · rw [Function.update_of_ne hji] at hentry
    exact .inr ⟨hji, h.threads j entry hentry⟩

/-- A step that leaves the entries alone. -/
theorem Owned.quiet (h : Owned s owner) (hpc : s.pc i = pc)
    (hpcs : s'.pc = Function.update s.pc i pc') (hxa : s'.xa = s.xa) (hnext : s'.next = s.next)
    (hfreed : s'.freed = s.freed) (howns : pc'.owns = pc.owns) : Owned s' owner := by
  refine ⟨hxa ▸ h.slots, fun j entry hentry => ?_, hfreed ▸ h.freed, hfreed ▸ h.once,
    hnext ▸ h.unborn⟩
  rcases h.owns_step hpcs hentry with ⟨rfl, hown⟩ | ⟨-, hown⟩
  · exact h.threads j entry (hpc ▸ howns ▸ hown)
  · exact hown

theorem ne_of_owner {entry entry' : Nat} {o o' : EntryOwner} (h : owner entry = o)
    (h' : owner entry' = o') (hne : o' ≠ o) : entry' ≠ entry := by
  rintro rfl
  exact hne (h'.symm.trans h)

/-- One entry goes to a new owner, and the others stay where they are. -/
theorem Owned.transfer {entry : Nat} {o : EntryOwner}
    (hslots : ∀ pid e, s'.xa.load pid = some e →
      (e = entry ∧ o = .slot pid) ∨ (e ≠ entry ∧ owner e = .slot pid))
    (hthreads : ∀ j e, (s'.pc j).owns = some e →
      (e = entry ∧ o = .thread j) ∨ (e ≠ entry ∧ owner e = .thread j))
    (hfreed : ∀ e ∈ s'.freed, (e = entry ∧ o = .freed) ∨ (e ≠ entry ∧ owner e = .freed))
    (honce : s'.freed.Nodup) (hunborn : ∀ e, s'.next ≤ e → e ≠ entry ∧ owner e = .unborn) :
    Owned s' (Function.update owner entry o) := by
  have hupdate : ∀ {e o'}, (e = entry ∧ o = o') ∨ (e ≠ entry ∧ owner e = o') →
      Function.update owner entry o e = o' := by
    rintro e o' (⟨rfl, rfl⟩ | ⟨hne, h⟩)
    · exact Function.update_self _ _ _
    · rw [Function.update_of_ne hne, h]
  exact ⟨fun pid e h => hupdate (hslots pid e h), fun j e h => hupdate (hthreads j e h),
    fun e h => hupdate (hfreed e h), honce, fun e h => hupdate (.inr (hunborn e h))⟩

/-- A new entry is its thread's. -/
theorem Owned.new (h : Owned s owner) (hpcs : s'.pc = Function.update s.pc i pc')
    (hxa : s'.xa = s.xa) (hnext : s'.next = s.next + 1) (hfreed : s'.freed = s.freed)
    (howns : pc'.owns = some s.next) :
    Owned s' (Function.update owner s.next (.thread i)) := by
  have hold : owner s.next = .unborn := h.unborn s.next (Nat.le_refl _)
  refine .transfer (fun pid e hload => ?_) (fun j e hentry => ?_) (fun e he => ?_)
    (hfreed ▸ h.once) (fun e hle => ?_)
  · have hown := h.slots pid e (hxa ▸ hload)
    exact .inr ⟨ne_of_owner hold hown nofun, hown⟩
  · rcases h.owns_step hpcs hentry with ⟨rfl, hown⟩ | ⟨-, hown⟩
    · rw [howns] at hown
      exact .inl ⟨(Option.some.inj hown).symm, rfl⟩
    · exact .inr ⟨ne_of_owner hold hown nofun, hown⟩
  · have hown := h.freed e (hfreed ▸ he)
    exact .inr ⟨ne_of_owner hold hown nofun, hown⟩
  · rw [hnext] at hle
    exact ⟨by omega, h.unborn e (by omega)⟩

/-- A thread's entry goes into a slot. -/
theorem Owned.store (h : Owned s owner) {pid entry : Nat} (hold : owner entry = .thread i)
    (hpcs : s'.pc = Function.update s.pc i pc') (hxa : s'.xa = s.xa.store pid entry)
    (hnext : s'.next = s.next) (hfreed : s'.freed = s.freed) (howns : pc'.owns = none) :
    Owned s' (Function.update owner entry (.slot pid)) := by
  refine .transfer (fun pid' e hload => ?_) (fun j e hentry => ?_) (fun e he => ?_)
    (hfreed ▸ h.once) (fun e hle => ?_)
  · rw [hxa, XArray.load_store] at hload
    split at hload
    next heq => exact .inl ⟨(Option.some.inj hload).symm, by rw [heq]⟩
    · have hown := h.slots pid' e hload
      exact .inr ⟨ne_of_owner hold hown nofun, hown⟩
  · rcases h.owns_step hpcs hentry with ⟨rfl, hown⟩ | ⟨hji, hown⟩
    · rw [howns] at hown
      cases hown
    · exact .inr ⟨ne_of_owner hold hown fun heq => hji (EntryOwner.thread.inj heq), hown⟩
  · have hown := h.freed e (hfreed ▸ he)
    exact .inr ⟨ne_of_owner hold hown nofun, hown⟩
  · have hown := h.unborn e (hnext ▸ hle)
    exact ⟨ne_of_owner hold hown nofun, hown⟩

/-- The entry of a slot goes to the thread that takes it out. -/
theorem Owned.erase (h : Owned s owner) {pid entry : Nat} (hload : s.xa.load pid = some entry)
    (hpcs : s'.pc = Function.update s.pc i pc') (hxa : s'.xa = s.xa.erase pid)
    (hnext : s'.next = s.next) (hfreed : s'.freed = s.freed) (howns : pc'.owns = some entry) :
    Owned s' (Function.update owner entry (.thread i)) := by
  have hold := h.slots pid entry hload
  refine .transfer (fun pid' e hload' => ?_) (fun j e hentry => ?_) (fun e he => ?_)
    (hfreed ▸ h.once) (fun e hle => ?_)
  · rw [hxa, XArray.load_erase] at hload'
    split at hload'
    · cases hload'
    next hne =>
      have hown := h.slots pid' e hload'
      exact .inr ⟨ne_of_owner hold hown fun heq => hne (EntryOwner.slot.inj heq), hown⟩
  · rcases h.owns_step hpcs hentry with ⟨rfl, hown⟩ | ⟨-, hown⟩
    · rw [howns] at hown
      exact .inl ⟨(Option.some.inj hown).symm, rfl⟩
    · exact .inr ⟨ne_of_owner hold hown nofun, hown⟩
  · have hown := h.freed e (hfreed ▸ he)
    exact .inr ⟨ne_of_owner hold hown nofun, hown⟩
  · have hown := h.unborn e (hnext ▸ hle)
    exact ⟨ne_of_owner hold hown nofun, hown⟩

/-- A thread's entry is freed. -/
theorem Owned.free (h : Owned s owner) {entry : Nat} (hold : owner entry = .thread i)
    (hpcs : s'.pc = Function.update s.pc i pc') (hxa : s'.xa = s.xa) (hnext : s'.next = s.next)
    (hfreed : s'.freed = s.freed ++ [entry]) (howns : pc'.owns = none) :
    Owned s' (Function.update owner entry .freed) := by
  have hold' : ∀ e ∈ s.freed, e ≠ entry := fun e he => ne_of_owner hold (h.freed e he) nofun
  refine .transfer (fun pid e hload => ?_) (fun j e hentry => ?_) (fun e he => ?_) ?_
    (fun e hle => ?_)
  · have hown := h.slots pid e (hxa ▸ hload)
    exact .inr ⟨ne_of_owner hold hown nofun, hown⟩
  · rcases h.owns_step hpcs hentry with ⟨rfl, hown⟩ | ⟨hji, hown⟩
    · rw [howns] at hown
      cases hown
    · exact .inr ⟨ne_of_owner hold hown fun heq => hji (EntryOwner.thread.inj heq), hown⟩
  · rw [hfreed, List.mem_append, List.mem_singleton] at he
    rcases he with he | rfl
    · exact .inr ⟨hold' e he, h.freed e he⟩
    · exact .inl ⟨rfl, rfl⟩
  · rw [hfreed, List.nodup_append]
    refine ⟨h.once, List.nodup_singleton _, fun e he e' he' => ?_⟩
    rw [List.mem_singleton] at he'
    rw [he']
    exact hold' e he
  · have hown := h.unborn e (hnext ▸ hle)
    exact ⟨ne_of_owner hold hown nofun, hown⟩

/-- Every entry has one owner still. -/
theorem Owned.effect (h : Owned s owner) (hpc : s.pc i = pc)
    (hpcs : s'.pc = Function.update s.pc i pc') (heffect : StatsEffect s pc pc' s') :
    ∃ owner', Owned s' owner' := by
  have hself : ∀ entry, pc.owns = some entry → owner entry = .thread i := fun entry hentry =>
    h.threads i entry (hpc ▸ hentry)
  cases heffect with
  | quiet hxa hnext hfreed howns _ => exact ⟨_, h.quiet hpc hpcs hxa hnext hfreed howns⟩
  | new hxa hnext hfreed howns _ => exact ⟨_, h.new hpcs hxa hnext hfreed howns⟩
  | store pid entry _ hxa hnext hfreed howned howns _ =>
      exact ⟨_, h.store (hself entry howned) hpcs hxa hnext hfreed howns⟩
  | erase pid entry hload hxa hnext hfreed howns _ =>
      exact ⟨_, h.erase hload hpcs hxa hnext hfreed howns⟩
  | free entry hxa hnext hfreed howned howns _ =>
      exact ⟨_, h.free (hself entry howned) hpcs hxa hnext hfreed howns⟩

/-! ## Runs -/

/-- The books are in order: with the lock free the count is the number of entries, it stays
within its bounds, nothing is freed twice, and nothing is left when tracking is off and nobody
is inside. -/
structure StatsOk (s : ProcStats) : Prop where
  counted : s.lock = none → s.count = s.xa.size
  bounds : 0 ≤ s.count ∧ s.count ≤ 1024
  freedOnce : s.freed.Nodup
  cleared : s.enabled = false → (∀ i, s.pc i = .idle) → s.xa.size = 0

/-- What every step that meets the guard keeps. -/
structure StatsInv (s : ProcStats) : Prop where
  lock : LockInv s
  off : OffInv s
  owned : ∃ owner, Owned s owner

theorem StatsInv.ok (h : StatsInv s) : StatsOk s := by
  refine ⟨h.lock.free, h.lock.bounds, ?_, fun hoff hidle => ?_⟩
  · obtain ⟨owner, howned⟩ := h.owned
    exact howned.once
  · rcases h.off hoff with hempty | ⟨i, hi⟩
    · exact XArray.size_eq_zero_of_load hempty
    · rw [hidle i] at hi
      cases hi

theorem statsInv_init : StatsInv .init where
  lock := ⟨fun _ => iff_of_false Bool.false_ne_true nofun, fun _ => rfl, nofun, by decide⟩
  off _ := .inl fun _ => XArray.load_empty
  owned := by
    refine ⟨fun _ => .unborn, fun pid entry h => ?_, nofun, nofun, List.nodup_nil, fun _ _ => rfl⟩
    rw [ProcStats.init, XArray.load_empty] at h
    cases h

/-- Entering a function keeps the invariant. -/
theorem StatsInv.enter (h : StatsInv s) (hidle : s.pc i = .idle) (c : StatsCall) :
    StatsInv (s.enter i c) := by
  obtain ⟨owner, howned⟩ := h.owned
  have hgoto : ∀ pc, pc.locked = false → pc.owns = none → pc.clearing = false →
      StatsInv (s.goto i pc) := by
    intro pc hlocked howns hclearing
    have heffect : StatsEffect s .idle pc (s.goto i pc) :=
      .quiet rfl rfl rfl howns (.inl hclearing)
    exact ⟨h.lock.outside hidle rfl rfl hlocked rfl rfl rfl, h.off.effect hidle rfl rfl heffect,
      howned.effect hidle rfl heffect⟩
  cases c with
  | record r =>
      rw [ProcStats.enter]
      split
      · exact h
      · exact hgoto (.find r) rfl rfl rfl
  | gc =>
      rw [ProcStats.enter]
      split
      · exact h
      · exact hgoto (.gcNext 0) rfl rfl rfl
  | store val =>
      rw [ProcStats.enter]
      split
      · refine ⟨h.lock.outside hidle rfl rfl rfl rfl rfl rfl, fun _ => .inr ⟨i, ?_⟩,
          owner, howned.quiet hidle rfl rfl rfl rfl rfl⟩
        dsimp only [ProcStats.goto]
        rw [Function.update_self]
        rfl
      split
      · exact ⟨⟨h.lock.lock, h.lock.free, h.lock.held, h.lock.bounds⟩, nofun, owner,
          ⟨howned.slots, howned.threads, howned.freed, howned.once, howned.unborn⟩⟩
      · exact h

/-- A step of the machine keeps the invariant. -/
theorem StatsInv.step (h : StatsInv s) {a : StatsAct} (hG : StatsGuard s a)
    (hstep : statsStep s a = some s') : StatsInv s' := by
  cases a with
  | call i c =>
      simp only [statsStep] at hstep
      split at hstep
      next hidle =>
        cases hstep
        exact h.enter hidle c
      · cases hstep
  | step i ok =>
      obtain ⟨pc', hpcs, henabled, heffect⟩ := turn_effect h.lock rfl hG hstep
      obtain ⟨owner, howned⟩ := h.owned
      exact ⟨h.lock.turn rfl hG hstep, h.off.effect rfl hpcs henabled heffect,
        howned.effect rfl hpcs heffect⟩

/-- **Statistics by process**: in a run in which `xa_store` does not fail, the collector erases
the entries that it has looked up, and nothing is stored that is neither tracked nor about to
be cleared, the books are in order in every state. -/
theorem statsOk_along {acts : List StatsAct} (h : Guarded statsStep StatsGuard .init acts) :
    Along statsStep StatsOk .init acts :=
  Guarded.along (fun _ _ _ hinv hG hstep => StatsInv.step hinv hG hstep)
    (fun _ hinv => StatsInv.ok hinv) statsInv_init h

/-- The guard where nobody has to be looked for: what is stored is tracked. -/
def statsGuardNow (s : ProcStats) : StatsAct → Bool
  | .call _ _ => true
  | .step i ok =>
      match s.pc i with
      | .allocStore _ _ => ok && s.enabled
      | .gcErase pid entry => decide (s.xa.load pid = some entry)
      | _ => true

theorem statsGuard_of_now {a : StatsAct} (h : statsGuardNow s a = true) : StatsGuard s a := by
  cases a with
  | call i c => trivial
  | step i ok =>
      simp only [StatsGuard]
      simp only [statsGuardNow] at h
      split at h
      · rw [Bool.and_eq_true] at h
        exact ⟨h.1, .inl h.2⟩
      · exact of_decide_eq_true h
      · trivial

/-- Tracking is switched on, and thread 0 records an event of process 7 up to this many
steps. -/
def recorded (n : Nat) : List StatsAct :=
  [.call 0 (.store 1), .call 0 (.record ⟨7, 1000, .compress 100 5⟩)] ++
    List.replicate n (.step 0 true)

/-- Process 7 has been recorded, and the collector finds it gone. -/
def recordAndCollect : List StatsAct :=
  recorded 10 ++ [.call 1 .gc, .step 1 true, .step 1 false] ++ List.replicate 6 (.step 1 true)

theorem statsOk_recordAndCollect : Along statsStep StatsOk .init recordAndCollect := by
  have hnow : Guarded statsStep (fun s a => statsGuardNow s a = true) .init recordAndCollect := by
    decide +kernel
  exact statsOk_along (hnow.mono fun _ _ h => statsGuard_of_now h)

/-! ## Orders that go wrong -/

/-- No other thread moves. -/
theorem pc_turn_of_ne {ok : Bool} (h : s.turn i ok pc = some s') {j : Nat} (hj : j ≠ i) :
    s'.pc j = s.pc j := by
  cases pc <;> simp only [ProcStats.turn, ProcStats.spinLock] at h <;>
    (repeat' split at h) <;> cases h <;> exact Function.update_of_ne hj _ _

/-- The thread that a label is about. -/
def StatsAct.thread : StatsAct → Nat
  | .call i _ => i
  | .step i _ => i

theorem pc_step_of_ne {a : StatsAct} (h : statsStep s a = some s') {j : Nat}
    (hj : j ≠ a.thread) : s'.pc j = s.pc j := by
  cases a with
  | call i c =>
      simp only [statsStep] at h
      split at h
      · injection h with h
        subst h
        cases c <;> simp only [ProcStats.enter] <;> (repeat' split) <;>
          first | rfl | exact Function.update_of_ne hj _ _
      · cases h
  | step i ok => exact pc_turn_of_ne h hj

theorem pc_run_of_ne {acts : List StatsAct} (h : acts.foldlM statsStep s = some s') {j : Nat}
    (hj : ∀ a ∈ acts, j ≠ a.thread) : s'.pc j = s.pc j := by
  induction acts generalizing s with
  | nil =>
      injection h with h
      rw [h]
  | cons a acts ih =>
      obtain ⟨s₁, hstep, hrest⟩ := foldlM_cons_eq_some.1 h
      rw [ih hrest fun b hb => hj b (List.mem_cons_of_mem a hb),
        pc_step_of_ne hstep (hj a List.mem_cons_self)]

/-- Tracking is switched off, and all entries are cleared, between the collector's look at an
entry and its lock. -/
def collectAfterClear : List StatsAct :=
  recorded 10 ++ [.call 1 .gc, .step 1 true, .step 1 false, .call 2 (.store 0)] ++
    List.replicate 6 (.step 2 true) ++ List.replicate 5 (.step 1 true)

/-- `xa_store` finds no memory. -/
def storeFails : List StatsAct := recorded 6 ++ .step 0 false :: List.replicate 3 (.step 0 true)

/-- Tracking is switched off, and all entries are cleared, between the recorder's look at the
flag and its lock. -/
def storeAfterClear : List StatsAct :=
  recorded 1 ++ .call 1 (.store 0) :: List.replicate 4 (.step 1 true) ++
    List.replicate 9 (.step 0 true)

/-- The first of these orders makes the count negative and frees an entry twice, the second
counts an entry that is not there, the third leaves an entry behind. -/
theorem not_statsOk_runs :
    ¬Along statsStep StatsOk .init collectAfterClear ∧ ¬Along statsStep StatsOk .init storeFails ∧
      ¬Along statsStep StatsOk .init storeAfterClear := by
  refine ⟨fun h => ?_, fun h => ?_, fun h => ?_⟩
  · have hrun : (collectAfterClear.foldlM statsStep .init).map
        (fun s => (s.count, s.freed)) = some (-1, [0, 0]) := by
      decide +kernel
    obtain ⟨s, hs, heq⟩ := Option.map_eq_some_iff.1 hrun
    simp only [Prod.mk.injEq] at heq
    have hcount := (h.last hs).bounds.1
    rw [heq.1] at hcount
    exact absurd hcount (by decide)
  · have hrun : (storeFails.foldlM statsStep .init).map
        (fun s => (s.lock, s.count, s.xa.size)) = some (none, 1, 0) := by
      decide +kernel
    obtain ⟨s, hs, heq⟩ := Option.map_eq_some_iff.1 hrun
    simp only [Prod.mk.injEq] at heq
    have hcounted := (h.last hs).counted heq.1
    rw [heq.2.1, heq.2.2] at hcounted
    exact absurd hcounted (by decide)
  · have hrun : (storeAfterClear.foldlM statsStep .init).map
        (fun s => (s.enabled, s.pc 0, s.pc 1, s.xa.size)) = some (false, .idle, .idle, 1) := by
      decide +kernel
    obtain ⟨s, hs, heq⟩ := Option.map_eq_some_iff.1 hrun
    simp only [Prod.mk.injEq] at heq
    have hthreads : ∀ a ∈ storeAfterClear, a.thread ≤ 1 := by decide
    have hidle : ∀ j, s.pc j = .idle := by
      intro j
      match j with
      | 0 => exact heq.2.1
      | 1 => exact heq.2.2.1
      | j + 2 =>
          exact pc_run_of_ne hs fun a ha heq => by
            have hle := hthreads a ha
            omega
    have hsize := (h.last hs).cleared heq.1 hidle
    rw [heq.2.2.2] at hsize
    exact absurd hsize (by decide)

end MiniMem
