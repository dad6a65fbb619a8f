import MiniMem.Kernel.Scanner
import MiniMem.Machine

/-!
# MiniMem.Kernel.ScanThread

The loop of `scanner_thread`: a cycle, what is made of its result, and a
sleep.  A cycle with result 0 makes the thread's own `current_interval`
longer by two seconds, up to half a minute; any other result sets it to
`scanner_interval_ms` again.

The cap is there whatever is configured, and between two cycles with results
the thread does not look at what is configured, so an empty cycle can make
the sleep shorter.
-/

namespace MiniMem

/-! ## The variables of the loop -/

/-- `MINIMEM_ADAPTIVE_MAX_MS`. -/
def adaptiveMaxMs : Int := 30000

/-- `MINIMEM_ADAPTIVE_BACKOFF_MS`. -/
def adaptiveBackoffMs : Int := 2000

/-- `MINIMEM_SKIP_DECAY_CYCLES`. -/
def skipDecayCycles : Nat := 8

/-- The settings and counters that `scanner_thread` shares, and its own variables
`empty_cycles` and `current_interval`. -/
structure ThreadVars where
  intervalMs : Int
  currentIntervalMs : Int
  cyclesTotal : Nat
  cyclesEmpty : Nat
  emptyCycles : Nat
  currentInterval : Int
  deriving DecidableEq, Repr

namespace ThreadVars

/-- `minimem_scanner_set_interval_ms`. -/
def setIntervalMs (v : ThreadVars) (ms : Int) : ThreadVars :=
  let ms := if ms < 100 then 100 else ms
  let ms := if ms > 60000 then 60000 else ms
  { v with intervalMs := ms, currentIntervalMs := ms }

/-- The variables in front of the loop, with what has been configured. -/
def start (ms : Int) : ThreadVars :=
  let v := setIntervalMs ⟨1000, 1000, 0, 0, 0, 0⟩ ms
  { v with currentInterval := v.intervalMs }

/-- Whether the loop calls `skip_list_decay` behind a cycle. -/
def decays (v : ThreadVars) (result : Nat) : Bool :=
  decide (result = 0) && decide (skipDecayCycles ≤ v.emptyCycles + 1)

/-- What the loop does to its variables in a cycle with this result. -/
def afterScan (v : ThreadVars) (result : Nat) : ThreadVars :=
  let v := { v with
    cyclesTotal := v.cyclesTotal + 1
    cyclesEmpty := if result = 0 then v.cyclesEmpty + 1 else v.cyclesEmpty
    emptyCycles :=
      if result = 0 then if v.decays result then 0 else v.emptyCycles + 1
      else 0
    currentInterval :=
      if result = 0 then min (v.currentInterval + adaptiveBackoffMs) adaptiveMaxMs
      else v.intervalMs }
  { v with currentIntervalMs := v.currentInterval }

end ThreadVars

/-! ## Sleeps -/

/-- A cycle as the loop ends it: its result, the sleep before it, the sleep after it, and what
is configured then. -/
structure Cycle where
  result : Nat
  before : Option Int
  slept : Int
  configured : Int
  deriving DecidableEq, Repr

/-- The variables of the thread, and its cycles, the last one first. -/
structure Pace where
  vars : ThreadVars
  cycles : List Cycle

/-- A setting, a round of the loop in which the scanner is off or not ready, or a cycle. -/
inductive PaceAct where
  | setIntervalMs (ms : Int)
  | wait
  | cycle (result : Nat)

/-- A cycle is added to those that have been. -/
def Pace.cycled (p : Pace) (result : Nat) : Pace :=
  let v := p.vars.afterScan result
  ⟨v, ⟨result, p.cycles.head?.map Cycle.slept, v.currentInterval, v.intervalMs⟩ :: p.cycles⟩

def paceStep (p : Pace) : PaceAct → Option Pace
  | .setIntervalMs ms => some { p with vars := p.vars.setIntervalMs ms }
  | .wait => some p
  | .cycle result => some (p.cycled result)

/-- The sleep after the cycle is as long as the one before it, if the cycle is empty, and as
long as configured. -/
def Cycle.BacksOff (c : Cycle) : Prop :=
  (c.result = 0 → ∀ ms, c.before = some ms → ms ≤ c.slept) ∧ c.configured ≤ c.slept

/-- All cycles do so. -/
def OnlyBacksOff (p : Pace) : Prop := ∀ c ∈ p.cycles, c.BacksOff

/-- The last sleep is the interval that the thread has in its hands. -/
def Pace.SleptCurrent (p : Pace) : Prop :=
  ∀ c, p.cycles.head? = some c → c.slept = p.vars.currentInterval

theorem Pace.SleptCurrent.step {p p' : Pace} {a : PaceAct} (h : p.SleptCurrent)
    (hstep : paceStep p a = some p') : p'.SleptCurrent := by
  cases a with
  | setIntervalMs ms =>
      cases hstep
      exact h
  | wait =>
      cases hstep
      exact h
  | cycle result =>
      cases hstep
      rintro c ⟨⟩
      rfl

/-- An empty cycle does not come upon an interval of more than half a minute, its own unless
it is the first, nor upon a configured one that is more than two seconds longer. -/
def RoomToBackOff (p : Pace) : PaceAct → Prop
  | .cycle 0 => p.vars.intervalMs ≤ adaptiveMaxMs ∧
      p.vars.intervalMs ≤ p.vars.currentInterval + adaptiveBackoffMs ∧
      (p.cycles ≠ [] → p.vars.currentInterval ≤ adaptiveMaxMs)
  | _ => True

/-- A cycle with a result sleeps as long as configured. -/
theorem backsOff_result {p : Pace} {result : Nat} (hne : result ≠ 0) {c : Cycle}
    (hc : (p.cycled result).cycles.head? = some c) : c.BacksOff := by
  cases hc
  refine ⟨fun hzero => absurd hzero hne, ?_⟩
  simp only [ThreadVars.afterScan, if_neg hne]
  exact le_rfl

/-- What an empty cycle leaves behind is right exactly when there is room. -/
theorem backsOff_empty_iff {p : Pace} (h : p.SleptCurrent) :
    (∀ c, (p.cycled 0).cycles.head? = some c → c.BacksOff) ↔ RoomToBackOff p (.cycle 0) := by
  have hslept : ∀ cap interval : Int, interval ≤ min (interval + adaptiveBackoffMs) cap ↔
      interval ≤ cap := by
    intro cap interval
    rw [le_min_iff]
    exact and_iff_right (show interval ≤ interval + 2000 by omega)
  simp only [Pace.cycled, List.head?_cons, Option.some.injEq, forall_eq', Cycle.BacksOff,
    ThreadVars.afterScan, if_pos, forall_const, RoomToBackOff]
  cases hcycles : p.cycles with
  | nil =>
      simp only [List.head?_nil, Option.map_none, reduceCtorEq, false_implies, implies_true,
        true_and, ne_eq, not_true_eq_false, and_true]
      rw [le_min_iff, and_comm]
  | cons c cycles =>
      have hlast : c.slept = p.vars.currentInterval := h c (by rw [hcycles, List.head?_cons])
      simp only [List.head?_cons, Option.map_some, Option.some.injEq, forall_eq', ne_eq,
        reduceCtorEq, not_false_eq_true, forall_const]
      rw [hlast, hslept, le_min_iff]
      tauto

/-- **Adaptive back-off**: whatever is configured in between, no empty cycle of a run makes
the sleep shorter and no sleep is shorter than configured exactly when every empty cycle finds
room to back off. -/
theorem onlyBacksOff_along_iff (ms : Int) (acts : List PaceAct) :
    Along paceStep OnlyBacksOff ⟨.start ms, []⟩ acts ↔
      Guarded paceStep RoomToBackOff ⟨.start ms, []⟩ acts := by
  apply along_iff_guarded (I := Pace.SleptCurrent) _ _ _ acts
  · rintro c ⟨⟩
  · rintro c ⟨⟩
  · rintro p (_ | _ | _) _ hstep <;> cases hstep
  · exact fun p a p' h hstep => h.step hstep
  · intro p a p' honly hslept hstep
    cases a with
    | setIntervalMs ms =>
        cases hstep
        exact iff_of_true honly trivial
    | wait =>
        cases hstep
        exact iff_of_true honly trivial
    | cycle result =>
        cases hstep
        have hsplit : OnlyBacksOff (p.cycled result) ↔
            ∀ c, (p.cycled result).cycles.head? = some c → c.BacksOff := by
          simp only [OnlyBacksOff, Pace.cycled, List.forall_mem_cons, List.head?_cons,
            Option.some.injEq, forall_eq']
          exact and_iff_left honly
        rw [hsplit]
        cases result with
        | zero => exact backsOff_empty_iff hslept
        | succ n => exact iff_of_true (fun c hc => backsOff_result (Nat.succ_ne_zero n) hc) trivial

/-- With a minute configured, the first empty cycle halves the sleep. -/
theorem not_onlyBacksOff_minute :
    ¬Along paceStep OnlyBacksOff ⟨.start 60000, []⟩ [.cycle 1, .cycle 0] := by
  rw [onlyBacksOff_along_iff]
  rintro ⟨-, hguarded⟩
  obtain ⟨hroom, -⟩ := hguarded _ rfl
  exact absurd hroom.1 (by decide)

end MiniMem
