import MiniMem.Sprintf
import MiniMem.Kernel.UidSummary
import Mathlib.Algebra.Order.BigOperators.Group.List

/-!
# MiniMem.Kernel.SummaryPage

The page that `stats_summary_show` fills: its `sprintf` calls, the setting of
`per_process_top_n`, and the room that the summary needs.  With counters that
are not negative and do not overflow,

```
header             19 + 11 + 1  +  14 + 4 + 1  +  30   =    80
line of a row      94 + 10 + 5 · 19                    =   199
text and NUL       80 + 20 · 199 + 1                   =  4061
```

which leaves 35 bytes of the page, so that a sign in front of every counter
would be too much.
-/

namespace MiniMem

/-! ## The number of rows -/

/-- `MINIMEM_PROC_STATS_DEFAULT_TOP_N`. -/
def procStatsDefaultTopN : Nat := 5

/-- `MINIMEM_PROC_STATS_MAX_TOP_N`. -/
def procStatsMaxTopN : Int := 20

/-- `per_process_top_n_store`: `mm_proc_stats_top_n` and the return value; `kstrtol` is the
number that it reads in a text, if it does. -/
def perProcessTopNStore (kstrtol : String → Option Int) (topN : Nat) (buf : String) (count : Nat) :
    Nat × Int :=
  match kstrtol buf with
  | none => (topN, einval)
  | some val =>
      if val < 1 ∨ val > procStatsMaxTopN then (topN, einval)
      else (val.toNat, count)

/-- `mm_proc_stats_top_n` after some writes to `per_process_top_n`. -/
def topNAfter (kstrtol : String → Option Int) (writes : List (String × Nat)) : Nat :=
  writes.foldl (fun topN w => (perProcessTopNStore kstrtol topN w.1 w.2).1) procStatsDefaultTopN

theorem perProcessTopNStore_le {kstrtol : String → Option Int} {topN : Nat}
    (h : topN ≤ procStatsMaxTopN) (buf : String) (count : Nat) :
    (perProcessTopNStore kstrtol topN buf count).1 ≤ procStatsMaxTopN := by
  unfold perProcessTopNStore
  split
  · exact h
  · split
    · exact h
    next val _ hval =>
      dsimp only
      omega

/-- However it is written to, no more than `MINIMEM_PROC_STATS_MAX_TOP_N` rows are asked for. -/
theorem topNAfter_le (kstrtol : String → Option Int) (writes : List (String × Nat)) :
    topNAfter kstrtol writes ≤ procStatsMaxTopN := by
  have hrun : ∀ (writes : List (String × Nat)) (topN : Nat), topN ≤ procStatsMaxTopN →
      writes.foldl (fun topN w => (perProcessTopNStore kstrtol topN w.1 w.2).1) topN ≤
        procStatsMaxTopN := by
    intro writes
    induction writes with
    | nil => exact fun topN h => h
    | cons w writes ih => exact fun topN h => ih _ (perProcessTopNStore_le h w.1 w.2)
  exact hrun writes _ (by decide)

/-! ## Counters that need no sign -/

/-- The counter is nowhere negative, and its sums by uid fit into 64 bits. -/
structure SumsFit (part : ProcEntry → Int64) (entries : List ProcEntry) : Prop where
  nonneg : ∀ e ∈ entries, 0 ≤ (part e).toInt
  sum_lt : ∀ uid, (((entries.filter fun e => e.uid = uid).map part).map Int64.toInt).sum < 2 ^ 63

/-- All counters of the entries are so. -/
structure CountersFit (entries : List ProcEntry) : Prop where
  bytesSaved : SumsFit ProcEntry.bytesSaved entries
  pagesCompressed : SumsFit ProcEntry.pagesCompressed entries
  pagesDecompressed : SumsFit ProcEntry.pagesDecompressed entries
  compressNs : SumsFit ProcEntry.compressNs entries
  decompressNs : SumsFit ProcEntry.decompressNs entries

/-- No counter of the row is negative. -/
structure UidSummary.Nonneg (row : UidSummary) : Prop where
  bytesSaved : 0 ≤ row.bytesSaved.toInt
  pagesCompressed : 0 ≤ row.pagesCompressed.toInt
  pagesDecompressed : 0 ≤ row.pagesDecompressed.toInt
  compressNs : 0 ≤ row.compressNs.toInt
  decompressNs : 0 ≤ row.decompressNs.toInt

/-- A sum over all entries bounds the sums by uid. -/
theorem SumsFit.of_sum {part : ProcEntry → Int64} {entries : List ProcEntry}
    (h : ∀ e ∈ entries, 0 ≤ (part e).toInt)
    (hsum : ((entries.map part).map Int64.toInt).sum < 2 ^ 63) : SumsFit part entries where
  nonneg := h
  sum_lt uid := by
    have hsub : (((entries.filter fun e => e.uid = uid).map part).map Int64.toInt).Sublist
        ((entries.map part).map Int64.toInt) :=
      (List.filter_sublist.map part).map Int64.toInt
    refine Int.lt_of_le_of_lt (hsub.sum_le_sum fun x hx => ?_) hsum
    obtain ⟨c, hc, rfl⟩ := List.mem_map.1 hx
    obtain ⟨e, he, rfl⟩ := List.mem_map.1 hc
    exact h e he

theorem SumsFit.sum_nonneg {part : ProcEntry → Int64} {entries : List ProcEntry} {total : Int64}
    {uid : UInt32} (h : SumsFit part entries)
    (hsum : IsSum total ((entries.filter fun e => e.uid = uid).map part)) : 0 ≤ total.toInt := by
  have hlt := h.sum_lt uid
  have hpos : 0 ≤ (((entries.filter fun e => e.uid = uid).map part).map Int64.toInt).sum := by
    refine List.sum_nonneg fun x hx => ?_
    obtain ⟨c, hc, rfl⟩ := List.mem_map.1 hx
    obtain ⟨e, he, rfl⟩ := List.mem_map.1 hc
    exact h.nonneg e (List.mem_of_mem_filter he)
  rw [hsum, Int.bmod_eq_of_le (by omega) (by omega)]
  exact hpos

theorem CountersFit.nonneg {entries : List ProcEntry} {rows : List UidSummary}
    (h : CountersFit entries) (htable : IsUidTable entries rows) {row : UidSummary}
    (hrow : row ∈ rows) : row.Nonneg where
  bytesSaved := h.bytesSaved.sum_nonneg (htable.bytesSaved row hrow)
  pagesCompressed := h.pagesCompressed.sum_nonneg (htable.pagesCompressed row hrow)
  pagesDecompressed := h.pagesDecompressed.sum_nonneg (htable.pagesDecompressed row hrow)
  compressNs := h.compressNs.sum_nonneg (htable.compressNs row hrow)
  decompressNs := h.decompressNs.sum_nonneg (htable.decompressNs row hrow)

/-! ## Lines -/

/-- An average of what is not negative. -/
theorem toInt_avg_nonneg {ns pages : Int64} (h : 0 ≤ ns.toInt) :
    0 ≤ (if pages > 0 then ns / pages else 0).toInt := by
  split
  next hpages =>
    have hmin : ns ≠ Int64.minValue := by
      rintro rfl
      rw [Int64.toInt_minValue] at h
      omega
    rw [Int64.toInt_div_of_ne_left _ _ hmin]
    exact Int.tdiv_nonneg h (Int.le_of_lt (Int64.lt_iff_toInt_lt.1 hpages))
  · exact Int64.toInt_zero.ge

theorem UidSummary.Nonneg.avgCompressNs {row : UidSummary} (h : row.Nonneg) :
    0 ≤ row.avgCompressNs.toInt :=
  toInt_avg_nonneg h.compressNs

theorem UidSummary.Nonneg.avgDecompressNs {row : UidSummary} (h : row.Nonneg) :
    0 ≤ row.avgDecompressNs.toInt :=
  toInt_avg_nonneg h.decompressNs

/-- A counter without a sign has at most 19 digits. -/
theorem sizeLe_counter {x : Int64} (h : 0 ≤ x.toInt) : SizeLe (toString x.toInt) 19 :=
  sizeLe_toString_nonneg (by decide) h (Int.lt_trans x.toInt_lt (by decide))

/-- A label and a counter behind a text. -/
theorem SizeLe.field {text label : String} {k l : Nat} {x : Int64} (h : SizeLe text k)
    (hlabel : SizeLe label l) (hx : 0 ≤ x.toInt) :
    SizeLe (text ++ label ++ toString x.toInt) (k + l + 19) :=
  (h.append hlabel).append (sizeLe_counter hx)

/-- The line of a row. -/
theorem UidSummary.Nonneg.sizeLe_line {row : UidSummary} (h : row.Nonneg) :
    SizeLe row.line 199 := by
  have hlabel : SizeLe "  uid=" 6 := by decide
  have huid : SizeLe (toString row.uid.toNat) 10 :=
    sizeLe_toString_nat (by decide) (Nat.lt_trans row.uid.toNat_lt (by decide))
  have hsaved : SizeLe " bytes_saved=" 13 := by decide
  have hcmp : SizeLe " pages_compressed=" 18 := by decide
  have hdecmp : SizeLe " pages_decompressed=" 20 := by decide
  have havgCmp : SizeLe " avg_compress_ns=" 17 := by decide
  have havgDecmp : SizeLe " avg_decompress_ns=" 19 := by decide
  have hend : SizeLe "\n" 1 := by decide
  have hline := (hlabel.append huid).field hsaved h.bytesSaved
  have hline := (hline.field hcmp h.pagesCompressed).field hdecmp h.pagesDecompressed
  have hline := (hline.field havgCmp h.avgCompressNs).field havgDecmp h.avgDecompressNs
  exact hline.append hend

/-- The lines in front of the rows. -/
theorem sizeLe_summaryHeader {count : Int} {uidCount : Nat} (hcount : -2 ^ 31 ≤ count)
    (hcount' : count < 2 ^ 31) (huids : uidCount ≤ 1024) :
    SizeLe (summaryHeader count uidCount) 80 := by
  have hlabel : SizeLe "tracked_processes: " 19 := by decide
  have hprocesses : SizeLe (toString count) (1 + 10) :=
    sizeLe_toString (by decide) (by omega) (by omega)
  have huidsLabel : SizeLe "tracked_uids: " 14 := by decide
  have htracked : SizeLe (toString uidCount) 4 := sizeLe_toString_nat (by decide) (by omega)
  have htop : SizeLe "top_processes_by_bytes_saved:\n" 30 := by decide
  have hend : SizeLe "\n" 1 := by decide
  have hheader := ((hlabel.append hprocesses).append hend).append huidsLabel
  exact ((hheader.append htracked).append hend).append htop

/-! ## The page -/

/-- The texts that `stats_summary_show` hands to `sprintf`, one call after another. -/
def statsSummaryTexts (env : SummaryEnv) (s : ProcStats) (topN : Nat) :
    Except Int (List String) :=
  if s.enabled = false then .ok ["per_process_stats disabled\n"]
  else if env.kmalloc = false then .error enomem
  else
    match s.entries.foldlM (UidArr.take env.krealloc) .empty with
    | .error ret => .error ret
    | .ok a =>
        let rows := env.sort uidSummaryCmp a.rows
        let topN := if a.rows.length < topN then a.rows.length else topN
        .ok (summaryHeader s.count a.rows.length :: (rows.take topN).map UidSummary.line)

/-- What is shown is what the calls write. -/
theorem statsSummaryShow_eq_join (env : SummaryEnv) (s : ProcStats) (topN : Nat) :
    statsSummaryShow env s topN = (statsSummaryTexts env s topN).map String.join := by
  unfold statsSummaryShow statsSummaryTexts
  split
  · rfl
  split
  · rfl
  cases s.entries.foldlM (UidArr.take env.krealloc) .empty with
  | error ret => rfl
  | ok a => simp only [Except.map, String.join_cons]

/-- The texts fit into a page, with the NUL behind them. -/
theorem sizeLe_statsSummaryTexts {env : SummaryEnv} (hsort : KernelSort env.sort) {s : ProcStats}
    (hcount : -2 ^ 31 ≤ s.count) (hcount' : s.count < 2 ^ 31) (hentries : s.entries.length ≤ 1024)
    (hcounters : CountersFit s.entries) {topN : Nat} (htop : topN ≤ procStatsMaxTopN)
    {texts : List String} (h : statsSummaryTexts env s topN = .ok texts) :
    SizeLe (String.join texts) (80 + 20 * 199) := by
  unfold statsSummaryTexts at h
  split at h
  · cases h
    decide
  split at h
  · cases h
  split at h
  · cases h
  next a hloop =>
    have htable := isUidTable_of_table (UidArr.table_foldlM_take hloop)
    have hperm := hsort.perm uidSummaryCmp a.rows
    have huids : a.rows.length ≤ 1024 := by
      rw [htable.length_eq]
      refine (List.dedup_sublist _).length_le.trans ?_
      rwa [List.length_map]
    have hlines : ∀ n, ∀ text ∈ ((env.sort uidSummaryCmp a.rows).take n).map UidSummary.line,
        SizeLe text 199 := by
      intro n text htext
      obtain ⟨row, hrow, rfl⟩ := List.mem_map.1 htext
      exact (hcounters.nonneg (htable.perm hperm) (List.mem_of_mem_take hrow)).sizeLe_line
    cases h
    rw [String.join_cons]
    refine ((sizeLe_summaryHeader hcount hcount' huids).append (sizeLe_join (hlines _))).mono ?_
    rw [List.length_map, List.length_take]
    have hmax : procStatsMaxTopN = 20 := rfl
    split <;> omega

/-- `stats_summary_show` on the memory `buf` that it is given: the memory and the return value,
or an access outside. -/
def statsSummaryFill (env : SummaryEnv) (s : ProcStats) (topN : Nat) (buf : List UInt8) :
    Except Int (Except Stop (List UInt8 × Nat)) :=
  (statsSummaryTexts env s topN).map (sprintfAll buf 0)

theorem statsSummaryTexts_ne_nil {env : SummaryEnv} {s : ProcStats} {topN : Nat} :
    statsSummaryTexts env s topN ≠ .ok [] := by
  intro h
  unfold statsSummaryTexts at h
  split at h
  · cases h
  split at h
  · cases h
  split at h <;> cases h

/-- **The page**: the calls do not check for its end, and they do not come to it. What is in the
page behind them is the text and a NUL, in front of what was there. -/
theorem statsSummaryFill_page {env : SummaryEnv} (hsort : KernelSort env.sort) {s : ProcStats}
    (hcount : -2 ^ 31 ≤ s.count) (hcount' : s.count < 2 ^ 31) (hentries : s.entries.length ≤ 1024)
    (hcounters : CountersFit s.entries) {topN : Nat} (htop : topN ≤ procStatsMaxTopN)
    {buf : List UInt8} (hbuf : buf.length = pageSize) :
    statsSummaryFill env s topN buf =
      (statsSummaryShow env s topN).map fun text =>
        .ok (withText buf 0 text, text.utf8ByteSize) := by
  rw [statsSummaryFill, statsSummaryShow_eq_join]
  cases h : statsSummaryTexts env s topN with
  | error ret => rfl
  | ok texts =>
      have hsize := sizeLe_statsSummaryTexts hsort hcount hcount' hentries hcounters htop h
      cases texts with
      | nil => exact absurd h statsSummaryTexts_ne_nil
      | cons text texts =>
          unfold SizeLe at hsize
          simp only [Except.map, sprintfAll_eq, Nat.zero_add]
          rw [if_pos (by rw [hbuf]; unfold pageSize; omega)]

/-- What is shown fits into a page, with the NUL that `sprintf` puts behind it. -/
def FitsPage (shown : Except Int String) : Prop :=
  ∀ text, shown = .ok text → text.utf8ByteSize + 1 ≤ pageSize

/-- **The summary fits**: for up to 1024 entries with any uids and counters that need no sign,
whatever has been written to `per_process_top_n`. -/
theorem statsSummaryShow_fitsPage {env : SummaryEnv} (hsort : KernelSort env.sort)
    (kstrtol : String → Option Int) (writes : List (String × Nat)) {s : ProcStats}
    (hcount : -2 ^ 31 ≤ s.count) (hcount' : s.count < 2 ^ 31) (hentries : s.entries.length ≤ 1024)
    (hcounters : CountersFit s.entries) :
    FitsPage (statsSummaryShow env s (topNAfter kstrtol writes)) := by
  intro text h
  rw [statsSummaryShow_eq_join] at h
  cases htexts : statsSummaryTexts env s (topNAfter kstrtol writes) with
  | error ret =>
      rw [htexts] at h
      cases h
  | ok texts =>
      rw [htexts] at h
      cases h
      have hsize := sizeLe_statsSummaryTexts hsort hcount hcount' hentries hcounters
        (topNAfter_le kstrtol writes) htexts
      unfold SizeLe at hsize
      unfold pageSize
      omega

theorem countersFit_threeProcesses : CountersFit threeProcesses.entries where
  bytesSaved := .of_sum (by decide) (by decide)
  pagesCompressed := .of_sum (by decide) (by decide)
  pagesDecompressed := .of_sum (by decide) (by decide)
  compressNs := .of_sum (by decide) (by decide)
  decompressNs := .of_sum (by decide) (by decide)

theorem statsSummaryShow_fitsPage_threeProcesses :
    FitsPage (statsSummaryShow .ok threeProcesses
      (topNAfter (fun buf => if buf = "7\n" then some 7 else none) [("7\n", 2)])) :=
  statsSummaryShow_fitsPage kernelSort_ok _ _ (by decide) (by decide) (by decide)
    countersFit_threeProcesses

end MiniMem
