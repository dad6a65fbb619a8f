import MiniMem.Kernel.ScanThread

/-!
# MiniMem.Kernel.SkipDecay

How long a bit of the skip list stays set.  `scanner_thread` clears the whole
list behind the eighth cycle in a row with result 0, and what counts as a
result is also the number of pages that a mark pass has marked: while there
are pages to mark, every second cycle starts the count again, and a page that
has once failed to compress stays out for good.

The age of a bit is the number of cycles that have been completed since the
one in which it was set.  The counter of the loop is the length of the last
run of results 0,

```
empty_cycles  =  results of 0 since the last other result   (mod 8)
```

so the list is cleared when that run reaches a multiple of eight.
-/

namespace MiniMem

/-! ## The thread -/

/-- `skip_list_decay`. -/
def Scanner.skipListDecay (s : Scanner) : Scanner := { s with skipList := fun _ => false }

/-- What `minimem_scanner_set_enabled` does to the scanner when it is switched on. -/
def Scanner.switchedOn (s : Scanner) : Scanner :=
  { s with
    sweeping := false
    skipList := fun _ => false
    markCursor := { s.markCursor with valid := false }
    sweepCursor := { s.sweepCursor with valid := false } }

/-- The scanner, its thread, the age of every bit of the skip list, and the results of the
cycles so far, the latest first. -/
structure ScanThread where
  scan : Scanner
  enabled : Bool
  vars : ThreadVars
  age : Nat → Nat
  results : List Nat

/-- A round of the loop with the outcome of its question whether faults are handled; another
thread that sets what can be set in sysfs; and whatever processes and other threads do to the
kernel, the flags of its pages and the references. -/
inductive ThreadAct where
  | round (ready : Bool) (env : ScanEnv) (tasks : List ScanTask)
  | setEnabled (val : Bool)
  | setIntervalMs (ms : Int)
  | others (kernel : Kernel) (idle young : Nat → Bool) (users : Nat → Int)

variable (codec : Codec)

/-- What `minimem_scan_batch` returns in a round. -/
def ScanThread.result (t : ScanThread) (env : ScanEnv) (tasks : List ScanTask) : Nat :=
  (scanBatchVma codec env tasks t.scan).ret t.scan.sweeping

/-- A cycle: `minimem_scan_batch`, and what the loop makes of its result.  A sweep calls
`skip_list_add` for a page whose bit it has found clear, so a bit that was set before the
cycle has not been set again in it. -/
def ScanThread.cycle (t : ScanThread) (env : ScanEnv) (tasks : List ScanTask) : ScanThread :=
  let scan := (scanBatchVma codec env tasks t.scan).scan
  let result := t.result codec env tasks
  { t with
    scan := if t.vars.decays result then scan.skipListDecay else scan
    vars := t.vars.afterScan result
    age := fun bit => if t.scan.skipList bit then t.age bit + 1 else 0
    results := result :: t.results }

def scanThreadStep (t : ScanThread) : ThreadAct → Option ScanThread
  | .round ready env tasks =>
      if t.enabled = false then some t
      else if ready = false then some t
      else some (t.cycle codec env tasks)
  | .setEnabled val =>
      some { t with enabled := val, scan := if val then t.scan.switchedOn else t.scan }
  | .setIntervalMs ms => some { t with vars := t.vars.setIntervalMs ms }
  | .others kernel idle young users =>
      some { t with scan :=
        { t.scan with kernel := kernel, idle := idle, young := young, users := users } }

/-- The thread as it starts. -/
def ScanThread.fresh (k : Kernel) (ms : Int) : ScanThread :=
  ⟨.fresh k, true, .start ms, fun _ => 0, []⟩

/-- No bit of the skip list is older than eight cycles. -/
def SkipsDecay (t : ScanThread) : Prop :=
  ∀ bit, t.scan.skipList bit = true → t.age bit ≤ skipDecayCycles

/-! ## One cycle -/

/-- A cycle itself clears no bit. -/
theorem skipList_scanBatchVma (env : ScanEnv) (tasks : List ScanTask) {s : Scanner} {bit : Nat}
    (h : s.skipList bit = true) : (scanBatchVma codec env tasks s).scan.skipList bit = true := by
  have hclosed : ScanClosed codec fun s => s.skipList bit = true := by
    refine ⟨fun h _ _ hskip => by rw [hskip]; exact h, fun _ _ _ _ h => h, fun s addr h => ?_⟩
    unfold Scanner.skipListAdd
    by_cases hbit : bit = vaddrToIndex addr % skipListSize
    · rw [hbit]
      exact Function.update_self _ _ _
    · exact (Function.update_of_ne hbit _ _).trans h
  exact hclosed.scanBatchVma (fun _ _ h => h) env tasks h

theorem skipsDecay_cycle_iff {t : ScanThread} (h : SkipsDecay t) (env : ScanEnv)
    (tasks : List ScanTask) :
    SkipsDecay (t.cycle codec env tasks) ↔
      ((∃ bit, t.scan.skipList bit = true ∧ t.age bit = skipDecayCycles) →
        t.vars.decays (t.result codec env tasks) = true) := by
  constructor
  · rintro hnext ⟨bit, hbit, hage⟩
    by_contra hkept
    have hset : (t.cycle codec env tasks).scan.skipList bit = true := by
      simp only [ScanThread.cycle, if_neg hkept]
      exact skipList_scanBatchVma codec env tasks hbit
    have hold := hnext bit hset
    simp only [ScanThread.cycle, if_pos hbit, hage] at hold
    omega
  · intro hroom bit hset
    by_cases hdecay : t.vars.decays (t.result codec env tasks) = true
    · simp only [ScanThread.cycle, if_pos hdecay, Scanner.skipListDecay] at hset
      cases hset
    · dsimp only [ScanThread.cycle]
      split
      next hbit =>
        have hage := h bit hbit
        have hne : t.age bit ≠ skipDecayCycles := fun heq => hdecay (hroom ⟨bit, hbit, heq⟩)
        omega
      · exact Nat.zero_le _

/-! ## The counter and the results -/

/-- How many results of 0 there have been since the last other one; the latest comes first. -/
def emptyRun (results : List Nat) : Nat := (results.takeWhile fun result => result == 0).length

theorem emptyRun_cons (result : Nat) (results : List Nat) :
    emptyRun (result :: results) = if result = 0 then emptyRun results + 1 else 0 := by
  unfold emptyRun
  rw [List.takeWhile_cons]
  by_cases h : result = 0 <;> simp [h]

/-- The counter of the loop is the run of results 0, less the eights that have been cleared. -/
theorem emptyCycles_afterScan {v : ThreadVars} {results : List Nat}
    (h : v.emptyCycles = emptyRun results % skipDecayCycles) (result : Nat) :
    (v.afterScan result).emptyCycles = emptyRun (result :: results) % skipDecayCycles := by
  rw [emptyRun_cons]
  simp only [ThreadVars.afterScan, ThreadVars.decays, Bool.and_eq_true, decide_eq_true_eq]
  by_cases hzero : result = 0
  · simp only [hzero, if_true, true_and, skipDecayCycles] at h ⊢
    split <;> omega
  · simp [hzero]

/-- What the counter says of the results, and of those since a bit was set: the list has not
been cleared since then, so the counter has not been set back in a run of zeros. -/
structure CountsEmpty (t : ScanThread) : Prop where
  emptyCycles : t.vars.emptyCycles = emptyRun t.results % skipDecayCycles
  counted : ∀ bit, t.scan.skipList bit = true →
    min (t.age bit) (emptyRun t.results) ≤ t.vars.emptyCycles

theorem CountsEmpty.cycle {t : ScanThread} (h : CountsEmpty t) (env : ScanEnv)
    (tasks : List ScanTask) : CountsEmpty (t.cycle codec env tasks) := by
  refine ⟨emptyCycles_afterScan h.emptyCycles _, fun bit hset => ?_⟩
  by_cases hdecay : t.vars.decays (t.result codec env tasks) = true
  · simp only [ScanThread.cycle, if_pos hdecay, Scanner.skipListDecay] at hset
    cases hset
  · simp only [ScanThread.cycle, ThreadVars.afterScan, emptyRun_cons, if_neg hdecay]
    by_cases hzero : t.result codec env tasks = 0
    · rw [if_pos hzero, if_pos hzero]
      by_cases hbit : t.scan.skipList bit = true
      · have hcounted := h.counted bit hbit
        rw [if_pos hbit]
        omega
      · rw [if_neg hbit]
        omega
    · rw [if_neg hzero, if_neg hzero]
      omega

/-- A cycle that begins with a bit of age eight clears the list exactly when it has result 0
and so have the seven before it. -/
theorem CountsEmpty.decays_iff {t : ScanThread} (h : CountsEmpty t) {bit : Nat}
    (hbit : t.scan.skipList bit = true) (hage : t.age bit = skipDecayCycles) (result : Nat) :
    t.vars.decays result = true ↔ skipDecayCycles ≤ emptyRun (result :: t.results) := by
  have hcounted := h.counted bit hbit
  have hcycles := h.emptyCycles
  rw [emptyRun_cons, ThreadVars.decays, Bool.and_eq_true, decide_eq_true_eq, decide_eq_true_eq]
  simp only [hage, skipDecayCycles] at hcounted hcycles ⊢
  by_cases hzero : result = 0
  · rw [if_pos hzero]
    omega
  · rw [if_neg hzero]
    omega

/-- A cycle that begins with a bit as old as it may be has result 0, and so have the seven
cycles before it. -/
def DecaysInTime (t : ScanThread) : ThreadAct → Prop
  | .round ready env tasks =>
      t.enabled = true → ready = true →
        (∃ bit, t.scan.skipList bit = true ∧ t.age bit = skipDecayCycles) →
          skipDecayCycles ≤ emptyRun (t.result codec env tasks :: t.results)
  | _ => True

theorem SkipsDecay.cycle_iff {t : ScanThread} (h : SkipsDecay t) (hcounts : CountsEmpty t)
    (env : ScanEnv) (tasks : List ScanTask) :
    SkipsDecay (t.cycle codec env tasks) ↔
      ((∃ bit, t.scan.skipList bit = true ∧ t.age bit = skipDecayCycles) →
        skipDecayCycles ≤ emptyRun (t.result codec env tasks :: t.results)) := by
  rw [skipsDecay_cycle_iff codec h]
  refine forall_congr' fun hold => ?_
  obtain ⟨bit, hbit, hage⟩ := hold
  exact hcounts.decays_iff hbit hage _

/-- Switching on clears the list, switching off leaves it alone. -/
theorem skipList_setEnabled {t : ScanThread} {val : Bool} {bit : Nat}
    (h : (if val then t.scan.switchedOn else t.scan).skipList bit = true) :
    t.scan.skipList bit = true := by
  cases val with
  | true => cases h
  | false => exact h

theorem scanThreadStep_countsEmpty {t t' : ScanThread} {a : ThreadAct} (h : CountsEmpty t)
    (hstep : scanThreadStep codec t a = some t') : CountsEmpty t' := by
  cases a with
  | round ready env tasks =>
      simp only [scanThreadStep] at hstep
      split at hstep
      · cases hstep
        exact h
      split at hstep
      · cases hstep
        exact h
      · cases hstep
        exact h.cycle codec env tasks
  | setEnabled val =>
      cases hstep
      exact ⟨h.emptyCycles, fun bit hset => h.counted bit (skipList_setEnabled hset)⟩
  | setIntervalMs ms =>
      cases hstep
      exact ⟨h.emptyCycles, h.counted⟩
  | others kernel idle young users =>
      cases hstep
      exact ⟨h.emptyCycles, h.counted⟩

/-- **The skip list decays**: no bit is older than eight cycles in any state of a run exactly
when every cycle that begins with a bit of that age has result 0, and so have the seven cycles
before it. -/
theorem skipsDecay_along_iff (k : Kernel) (ms : Int) (acts : List ThreadAct) :
    Along (scanThreadStep codec) SkipsDecay (.fresh k ms) acts ↔
      Guarded (scanThreadStep codec) (DecaysInTime codec) (.fresh k ms) acts := by
  apply along_iff_guarded (I := CountsEmpty) _ _ _ acts
  · intro bit hset
    cases hset
  · exact ⟨rfl, fun bit hset => by cases hset⟩
  · intro t a _ hstep
    cases a with
    | round ready env tasks =>
        simp only [scanThreadStep] at hstep
        split at hstep
        · cases hstep
        split at hstep <;> cases hstep
    | _ => cases hstep
  · exact fun t a t' h hstep => scanThreadStep_countsEmpty codec h hstep
  · intro t a t' h hcounts hstep
    cases a with
    | round ready env tasks =>
        simp only [scanThreadStep] at hstep
        split at hstep
        next hoff =>
          cases hstep
          exact iff_of_true h fun hon => by rw [hoff] at hon; cases hon
        split at hstep
        next hunready =>
          cases hstep
          exact iff_of_true h fun _ hready => by rw [hunready] at hready; cases hready
        next hoff hunready =>
          cases hstep
          rw [h.cycle_iff codec hcounts, DecaysInTime]
          simp only [Bool.not_eq_false] at hoff hunready
          simp only [hoff, hunready, forall_const]
    | setEnabled val =>
        cases hstep
        exact iff_of_true (fun bit hset => h bit (skipList_setEnabled hset)) trivial
    | setIntervalMs ms =>
        cases hstep
        exact iff_of_true h trivial
    | others kernel idle young users =>
        cases hstep
        exact iff_of_true h trivial

/-! ## The sleeps of the thread -/

/-- What an act of the thread is for its variables. -/
def ScanThread.paceAct (t : ScanThread) : ThreadAct → PaceAct
  | .round ready env tasks =>
      if t.enabled && ready then .cycle (t.result codec env tasks) else .wait
  | .setIntervalMs ms => .setIntervalMs ms
  | _ => .wait

theorem paceStep_of_scanThreadStep {t t' : ScanThread} {a : ThreadAct}
    (h : scanThreadStep codec t a = some t') {p : Pace} (hp : p.vars = t.vars) :
    ∃ p', paceStep p (t.paceAct codec a) = some p' ∧ p'.vars = t'.vars := by
  cases a with
  | round ready env tasks =>
      simp only [scanThreadStep] at h
      split at h
      next hoff =>
        cases h
        exact ⟨p, by rw [ScanThread.paceAct, hoff]; rfl, hp⟩
      split at h
      next hunready =>
        cases h
        exact ⟨p, by rw [ScanThread.paceAct, hunready, Bool.and_false]; rfl, hp⟩
      next hoff hunready =>
        cases h
        rw [Bool.not_eq_false] at hoff hunready
        refine ⟨p.cycled (t.result codec env tasks), ?_, ?_⟩
        · rw [ScanThread.paceAct, hoff, hunready]
          rfl
        · rw [Pace.cycled, hp]
          rfl
  | setIntervalMs ms =>
      cases h
      exact ⟨{ p with vars := p.vars.setIntervalMs ms }, rfl, by rw [hp]⟩
  | setEnabled val =>
      cases h
      exact ⟨p, rfl, hp⟩
  | others kernel idle young users =>
      cases h
      exact ⟨p, rfl, hp⟩

/-- What a run of the thread is for its variables. -/
def ScanThread.paces (t : ScanThread) : List ThreadAct → List PaceAct
  | [] => []
  | a :: acts =>
      t.paceAct codec a ::
        match scanThreadStep codec t a with
        | none => []
        | some t' => t'.paces acts

/-- The variables of the thread go through the same values as those of `Pace`, driven by the
results of the cycles. -/
theorem vars_paces {t t' : ScanThread} {acts : List ThreadAct}
    (h : acts.foldlM (scanThreadStep codec) t = some t') {p : Pace} (hp : p.vars = t.vars) :
    ∃ p', (t.paces codec acts).foldlM paceStep p = some p' ∧ p'.vars = t'.vars := by
  induction acts generalizing t p with
  | nil =>
      cases h
      exact ⟨p, rfl, hp⟩
  | cons a acts ih =>
      obtain ⟨t₁, hstep, hrest⟩ := foldlM_cons_eq_some.1 h
      obtain ⟨p₁, hpace, hp₁⟩ := paceStep_of_scanThreadStep codec hstep hp
      obtain ⟨p', hrun, hp'⟩ := ih hrest hp₁
      refine ⟨p', ?_, hp'⟩
      rw [ScanThread.paces, hstep]
      exact foldlM_cons_eq_some.2 ⟨p₁, hpace, hrun⟩

/-! ## A page that is never tried again -/

/-- One page of one process. -/
def lonePage : Kernel :=
  .loaded
    (fun mm => ⟨fun vpn => if mm = 0 ∧ vpn = 1 then some (.present 0 true true true) else none,
      if mm = 0 then [⟨0x1000, 0x2000, true, true, false, false, false, false⟩] else [], 1⟩)
    ⟨fun _ => Page.fill 0, fun _ => 1, 1⟩ 0 0 true

/-- A round in which replacements find the page table or do not. -/
def lonePageRound (found : Bool) : ThreadAct :=
  .round true { ScanEnv.ok with replace := fun _ => { ReplaceEnv.ok with lock := found } }
    [⟨1, some 0, true, true⟩]

/-- The page is marked, fails to be replaced once, and stays on the skip list: from then on
the mark passes mark it and the sweeps skip it. -/
theorem not_skipsDecay_lonePage :
    ¬Along (scanThreadStep samePageCodec) SkipsDecay (.fresh lonePage 1000)
      ([lonePageRound true, lonePageRound false] ++ List.replicate 9 (lonePageRound true)) := by
  intro halong
  have hold : (([lonePageRound true, lonePageRound false] ++
      List.replicate 9 (lonePageRound true)).foldlM (scanThreadStep samePageCodec)
        (.fresh lonePage 1000)).map (fun t => (t.scan.skipList 1, t.age 1)) = some (true, 9) := by
    decide +kernel
  obtain ⟨t, hrun, ht⟩ := Option.map_eq_some_iff.1 hold
  simp only [Prod.mk.injEq] at ht
  have hage := halong.last hrun 1 ht.1
  rw [ht.2] at hage
  exact absurd hage (by decide)

end MiniMem
