import MiniMem.CheckedLoop
import MiniMem.Kernel.ColdPages

/-!
# MiniMem.Kernel.BudgetChecks

How often the two passes of the scanner look at the clock.  Both loops ask
`cpu_budget_expired` at every 256th, or 64th, page; but the counter behind
this is moved only by pages that are marked, or handed over to be
compressed, while an address without a page, or with a page that is not
eligible, costs a walk through the page tables and does not count.

The caller asks again when a call returns, so a call begins and ends with a
question.
-/

namespace MiniMem

/-! ## The loops -/

/-- The loop of `minimem_mark_vma`. -/
def markLoop (env : ScanEnv) (startTime : Int) (mm : Nat) : CheckedLoop MarkState Nat where
  quits s := env.stop s.scan.tick || decide (s.remaining = 0)
  counter s := s.examined
  period := 256
  expired s := cpuBudgetExpired env startTime s.scan.tick
  body := markPage env mm
  counts s addr := (s.scan.marks env mm addr).isSome
  counter_body s addr := by
    unfold markPage Scanner.marks
    cases s.scan.scanPage env mm addr with
    | none => rfl
    | some pfn =>
        dsimp only
        by_cases hmlocked : (env.bits pfn).mlocked = true
        · simp [hmlocked]
        by_cases hshared : s.scan.kernel.frames.refs pfn > 2
        · simp [hmlocked, hshared]
        · simp [hmlocked, hshared]

/-- The loop of `minimem_sweep_vma`. -/
def sweepLoop (codec : Codec) (env : ScanEnv) (startTime : Int) (mm : Nat) :
    CheckedLoop SweepState Nat where
  quits s := env.stop s.scan.tick || decide (s.batch = 0)
  counter s := s.sinceYield
  period := 64
  expired s := cpuBudgetExpired env startTime s.scan.tick
  body := sweepPage codec env mm
  counts s addr := (s.scan.hands env mm addr).isSome
  counter_body s addr := by
    unfold sweepPage Scanner.hands Scanner.coldPage
    cases s.scan.scanPage env mm addr with
    | none => simp
    | some pfn =>
        dsimp only
        by_cases hshared : s.scan.kernel.frames.refs pfn > 2
        · simp [hshared]
        by_cases hmlocked : (env.bits pfn).mlocked = true
        · simp [hshared, hmlocked]
        by_cases hidle : s.scan.idle pfn = false
        · simp [hshared, hmlocked, hidle]
        by_cases hyoung : s.scan.young pfn = true
        · simp [hshared, hmlocked, hidle, hyoung]
        by_cases hskip : s.scan.skipListCheck addr = true
        · simp [hshared, hmlocked, hidle, hyoung, hskip]
        · simp [hshared, hmlocked, hidle, hyoung, hskip]

section Walk

variable {codec : Codec} {env : ScanEnv} {startTime : Int} {mm stop : Nat}

/-- The walk of the mark pass ends where its loop does. -/
theorem markPages_fst (addrs : List Nat) (s : MarkState) :
    (markPages env startTime mm stop addrs s).1 =
      ((markLoop env startTime mm).run addrs s).1.headD stop := by
  induction addrs generalizing s with
  | nil => rfl
  | cons addr addrs ih =>
      have hask : (s.examined % 256 = 0 && decide (0 < s.examined) &&
          cpuBudgetExpired env startTime s.scan.tick) =
          ((markLoop env startTime mm).asks s && (markLoop env startTime mm).expired s) := by
        rw [CheckedLoop.asks, beq_eq_decide, Bool.and_comm (decide (0 < _))]
        rfl
      rw [markPages, CheckedLoop.run, hask]
      by_cases hstop : env.stop s.scan.tick = true
      · simp [hstop, markLoop]
      by_cases hremaining : s.remaining = 0
      · simp [hstop, hremaining, markLoop]
      have hquits : ¬(markLoop env startTime mm).quits s = true := by
        simp [markLoop, hstop, hremaining]
      rw [if_neg hstop, if_neg hremaining, if_neg hquits]
      split
      · rfl
      · exact ih _

/-- The walk of the sweep ends where its loop does. -/
theorem sweepPages_fst (addrs : List Nat) (s : SweepState) :
    (sweepPages codec env startTime mm stop addrs s).1 =
      ((sweepLoop codec env startTime mm).run addrs s).1.headD stop := by
  induction addrs generalizing s with
  | nil => rfl
  | cons addr addrs ih =>
      have hask : (decide (0 < s.sinceYield) && s.sinceYield % 64 = 0 &&
          cpuBudgetExpired env startTime s.scan.tick) =
          ((sweepLoop codec env startTime mm).asks s &&
            (sweepLoop codec env startTime mm).expired s) := by
        rw [CheckedLoop.asks, beq_eq_decide]
        rfl
      rw [sweepPages, CheckedLoop.run, hask]
      by_cases hstop : env.stop s.scan.tick = true
      · simp [hstop, sweepLoop]
      by_cases hbatch : s.batch = 0
      · simp [hstop, hbatch, sweepLoop]
      have hquits : ¬(sweepLoop codec env startTime mm).quits s = true := by
        simp [sweepLoop, hstop, hbatch]
      rw [if_neg hstop, if_neg hbatch, if_neg hquits]
      split
      · rfl
      · exact ih _

/-- Where the addresses from `start` to `stop` are left behind the first `n` of them. -/
theorem headD_drop_pagesFrom (start stop n : Nat) (hn : n ≤ (pagesFrom start stop).length) :
    ((pagesFrom start stop).drop n).headD (pagesEnd start stop) = start + n * pageSize := by
  rcases Nat.eq_or_lt_of_le hn with heq | hlt
  · rw [List.drop_of_length_le (Nat.le_of_eq heq.symm), List.headD_nil, pagesEnd, heq]
  · rw [List.drop_eq_getElem_cons hlt, List.headD_cons]
    simp [pagesFrom]

/-- Marking a page changes nothing that decides what is marked next but the tick. -/
theorem marks_markPage (s : MarkState) (addr addr' tick : Nat) :
    ({ (markPage env mm s addr).scan with tick := tick } : Scanner).marks env mm addr' =
      ({ s.scan with tick := tick } : Scanner).marks env mm addr' := by
  have hkernel : (markPage env mm s addr).scan.kernel = s.scan.kernel := by
    unfold markPage
    cases s.scan.scanPage env mm addr with
    | none => rfl
    | some pfn =>
        dsimp only
        split
        · rfl
        split <;> rfl
  unfold Scanner.marks Scanner.scanPage
  rw [hkernel]

theorem tick_markPage (s : MarkState) (addr : Nat) :
    (markPage env mm s addr).scan.tick = s.scan.tick + 1 := by
  unfold markPage
  cases s.scan.scanPage env mm addr with
  | none => rfl
  | some pfn =>
      dsimp only
      split
      · rfl
      split <;> rfl

/-- Which addresses the mark pass marks can be read off the page tables as the call finds
them. -/
theorem flags_markLoop (addrs : List Nat) (s : MarkState) {i : Nat} {f : Bool}
    (h : ((markLoop env startTime mm).flags addrs s)[i]? = some f) :
    ∃ addr, addrs[i]? = some addr ∧
      f = (({ s.scan with tick := s.scan.tick + i } : Scanner).marks env mm addr).isSome := by
  induction addrs generalizing s i with
  | nil => cases h
  | cons addr addrs ih =>
      rw [CheckedLoop.flags] at h
      split at h
      · cases h
      split at h
      · cases h
      cases i with
      | zero =>
          injection h with h
          exact ⟨addr, rfl, h.symm⟩
      | succ i =>
          obtain ⟨addr', haddr', hf⟩ := ih _ h
          refine ⟨addr', haddr', ?_⟩
          have hnext : f = (({ (markPage env mm s addr).scan with
              tick := (markPage env mm s addr).scan.tick + i } : Scanner).marks env mm
              addr').isSome := hf
          rw [marks_markPage, tick_markPage] at hnext
          rw [hnext, Nat.add_assoc, Nat.add_comm 1]

end Walk

/-! ## Two calls -/

section Calls

variable (codec : Codec) (env : ScanEnv) (startTime : Int) (s : Scanner) (mm : Nat) (vma : Vma)
  (startAddr budget : Nat)

/-- The numbers of addresses that a call of `minimem_mark_vma` goes over between two evaluations
of `cpu_budget_expired`. -/
def markGaps : List Nat :=
  (markLoop env startTime mm).gaps 0 (pagesFrom (max startAddr vma.start) vma.stop)
    ⟨s, budget, 0, []⟩

/-- Which of the addresses that the call goes over hold a page that is marked. -/
def markFlags : List Bool :=
  (markLoop env startTime mm).flags (pagesFrom (max startAddr vma.start) vma.stop)
    ⟨s, budget, 0, []⟩

/-- The same for `minimem_sweep_vma`. -/
def sweepGaps : List Nat :=
  (sweepLoop codec env startTime mm).gaps 0 (pagesFrom (max startAddr vma.start) vma.stop)
    ⟨s, budget, 0, 0, 0, 0⟩

/-- Which of the addresses hold a page that is handed over to be compressed. -/
def sweepFlags : List Bool :=
  (sweepLoop codec env startTime mm).flags (pagesFrom (max startAddr vma.start) vma.stop)
    ⟨s, budget, 0, 0, 0, 0⟩

/-- The gaps lead from where the call starts to where it ends. -/
theorem markVma_fst : (markVma env startTime s mm vma startAddr budget).1 =
    max startAddr vma.start +
      (markGaps env startTime s mm vma startAddr budget).sum * pageSize := by
  have hsum := (markLoop env startTime mm).sum_gaps 0
    (pagesFrom (max startAddr vma.start) vma.stop) ⟨s, budget, 0, []⟩
  unfold markVma markGaps
  dsimp only
  rw [markPages_fst, CheckedLoop.run_eq_drop, headD_drop_pagesFrom]
  omega

theorem sweepVma_fst : (sweepVma codec env startTime s mm vma startAddr budget).1 =
    max startAddr vma.start +
      (sweepGaps codec env startTime s mm vma startAddr budget).sum * pageSize := by
  have hsum := (sweepLoop codec env startTime mm).sum_gaps 0
    (pagesFrom (max startAddr vma.start) vma.stop) ⟨s, budget, 0, 0, 0, 0⟩
  unfold sweepVma sweepGaps
  dsimp only
  rw [sweepPages_fst, CheckedLoop.run_eq_drop, headD_drop_pagesFrom]
  omega

/-- `minimem_mark_vma` goes over at most 256 addresses between two evaluations of
`cpu_budget_expired`. -/
def MarkConsults : Prop := ∀ g ∈ markGaps env startTime s mm vma startAddr budget, g ≤ 256

/-- `minimem_sweep_vma` goes over at most 64. -/
def SweepConsults : Prop := ∀ g ∈ sweepGaps codec env startTime s mm vma startAddr budget, g ≤ 64

/-- **The budget of time** is consulted regularly exactly when the pages that count come in
blocks. -/
theorem consultsBudget_iff :
    (MarkConsults env startTime s mm vma startAddr budget ↔
      Dense 256 (markFlags env startTime s mm vma startAddr budget)) ∧
    (SweepConsults codec env startTime s mm vma startAddr budget ↔
      Dense 64 (sweepFlags codec env startTime s mm vma startAddr budget)) :=
  ⟨(markLoop env startTime mm).gaps_le_period_iff (by decide : 1 < 256) _ rfl,
    (sweepLoop codec env startTime mm).gaps_le_period_iff (by decide : 1 < 64) _ rfl⟩

instance : Decidable (MarkConsults env startTime s mm vma startAddr budget) :=
  inferInstanceAs (Decidable (∀ g ∈ _, g ≤ 256))

instance : Decidable (SweepConsults codec env startTime s mm vma startAddr budget) :=
  inferInstanceAs (Decidable (∀ g ∈ _, g ≤ 64))

end Calls

/-- A reservation of 300 pages without page tables. -/
def sparseVma : Vma := ⟨0x1000, 0x12D000, true, true, false, false, false, false⟩

/-- Neither pass asks for the time in a sparse reservation. -/
theorem not_consultsBudget_sparse :
    ¬MarkConsults .ok 0 (.fresh .blank) 0 sparseVma 0 65536 ∧
      ¬SweepConsults samePageCodec .ok 0 (.fresh .blank) 0 sparseVma 0 8192 := by
  decide +kernel

end MiniMem
