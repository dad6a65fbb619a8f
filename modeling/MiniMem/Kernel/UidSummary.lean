import MiniMem.GroupBy
import MiniMem.Kernel.ProcStats
import MiniMem.Kernel.State
import Mathlib.Algebra.Ring.Int.Defs
import Mathlib.Data.List.Dedup

/-!
# MiniMem.Kernel.UidSummary

`stats_summary_show`: the tracked entries, grouped by uid, sorted by what
they have saved, and the first of them printed.

The groups are rows of an array, which grows by doubling; the search for the
row of an entry is linear, so that the array is the table of
`MiniMem.GroupBy`.  `sort` of the kernel is a parameter.  All counters are
signed 64-bit integers, and so are their sums.
-/

namespace MiniMem

/-! ## Rows -/

/-- `struct uid_summary`. -/
structure UidSummary where
  uid : UInt32
  bytesSaved : Int64
  pagesCompressed : Int64
  pagesDecompressed : Int64
  compressNs : Int64
  decompressNs : Int64
  deriving DecidableEq, Repr

/-- The row that an entry begins. -/
def UidSummary.new (entry : ProcEntry) : UidSummary where
  uid := entry.uid
  bytesSaved := entry.bytesSaved
  pagesCompressed := entry.pagesCompressed
  pagesDecompressed := entry.pagesDecompressed
  compressNs := entry.compressNs
  decompressNs := entry.decompressNs

/-- The row with an entry added to it. -/
def UidSummary.add (row : UidSummary) (entry : ProcEntry) : UidSummary :=
  { row with
    bytesSaved := row.bytesSaved + entry.bytesSaved
    pagesCompressed := row.pagesCompressed + entry.pagesCompressed
    pagesDecompressed := row.pagesDecompressed + entry.pagesDecompressed
    compressNs := row.compressNs + entry.compressNs
    decompressNs := row.decompressNs + entry.decompressNs }

/-- `uid_summary_cmp`. -/
def uidSummaryCmp (sa sb : UidSummary) : Int :=
  if sa.bytesSaved > sb.bytesSaved then -1
  else if sa.bytesSaved < sb.bytesSaved then 1
  else 0

/-- Rows by uid. -/
def uidGrouping : Grouping ProcEntry UidSummary UInt32 where
  key := ProcEntry.uid
  rowKey := UidSummary.uid
  new := .new
  add := .add
  rowKey_new _ := rfl
  rowKey_add _ _ := rfl

/-! ## The array -/

/-- The loop over `uid_arr`: the first row with the uid of the entry takes it in, if there is
one. -/
def uidFind (entry : ProcEntry) : List UidSummary → Option (List UidSummary)
  | [] => none
  | row :: rows =>
      if row.uid = entry.uid then some (row.add entry :: rows)
      else (uidFind entry rows).map (row :: ·)

theorem length_uidFind {entry : ProcEntry} {rows rows' : List UidSummary}
    (h : uidFind entry rows = some rows') : rows'.length = rows.length := by
  induction rows generalizing rows' with
  | nil => cases h
  | cons row rows ih =>
      unfold uidFind at h
      split at h
      · cases h
        rfl
      · obtain ⟨tail, htail, rfl⟩ := Option.map_eq_some_iff.1 h
        rw [List.length_cons, List.length_cons, ih htail]

/-- The first `uid_count` rows of `uid_arr`, and the rows that there is room for. -/
structure UidArr where
  rows : List UidSummary
  capacity : Nat
  pos : 0 < capacity
  fits : rows.length ≤ capacity

/-- `uid_arr` as it is allocated. -/
def UidArr.empty : UidArr := ⟨[], 64, by decide, by decide⟩

/-- The body of the loop over the entries; `krealloc` says whether memory for this many rows
is to be had. -/
def UidArr.take (krealloc : Nat → Bool) (a : UidArr) (entry : ProcEntry) : Except Int UidArr :=
  match h : uidFind entry a.rows with
  | some rows => .ok ⟨rows, a.capacity, a.pos, (length_uidFind h).trans_le a.fits⟩
  | none =>
      if hfull : a.capacity ≤ a.rows.length then
        if krealloc (a.capacity * 2) = false then .error enomem
        else
          .ok ⟨a.rows ++ [.new entry], a.capacity * 2, Nat.mul_pos a.pos (by decide), by
            have hpos := a.pos
            have hfits := a.fits
            rw [List.length_append, List.length_singleton]
            omega⟩
      else
        .ok ⟨a.rows ++ [.new entry], a.capacity, a.pos, by
          rw [List.length_append, List.length_singleton]
          omega⟩

theorem upsert_eq_of_uidFind_some {entry : ProcEntry} {rows rows' : List UidSummary}
    (h : uidFind entry rows = some rows') : uidGrouping.upsert entry rows = rows' := by
  induction rows generalizing rows' with
  | nil => cases h
  | cons row rows ih =>
      unfold uidFind at h
      unfold Grouping.upsert
      split at h
      next heq =>
        injection h with h
        rw [if_pos (show uidGrouping.rowKey row = uidGrouping.key entry from heq), ← h]
        rfl
      next hne =>
        obtain ⟨tail, htail, rfl⟩ := Option.map_eq_some_iff.1 h
        rw [if_neg (show uidGrouping.rowKey row ≠ uidGrouping.key entry from hne), ih htail]

theorem upsert_eq_of_uidFind_none {entry : ProcEntry} {rows : List UidSummary}
    (h : uidFind entry rows = none) :
    uidGrouping.upsert entry rows = rows ++ [.new entry] := by
  induction rows with
  | nil => rfl
  | cons row rows ih =>
      unfold uidFind at h
      unfold Grouping.upsert
      split at h
      · cases h
      next hne =>
        rw [if_neg (show uidGrouping.rowKey row ≠ uidGrouping.key entry from hne),
          ih (Option.map_eq_none_iff.1 h), List.cons_append]

/-- What the body of the loop does to the rows is the table's own operation. -/
theorem UidArr.rows_take {krealloc : Nat → Bool} {a a' : UidArr} {entry : ProcEntry}
    (h : a.take krealloc entry = .ok a') : a'.rows = uidGrouping.upsert entry a.rows := by
  unfold UidArr.take at h
  split at h
  next rows hfind =>
    cases h
    exact (upsert_eq_of_uidFind_some hfind).symm
  next hfind =>
    rw [upsert_eq_of_uidFind_none hfind]
    split at h
    · split at h
      · cases h
      · cases h
        rfl
    · cases h
      rfl

/-- With memory to be had, the body of the loop comes to its end. -/
theorem UidArr.take_ok {krealloc : Nat → Bool} (halloc : ∀ n, krealloc n = true) (a : UidArr)
    (entry : ProcEntry) : ∃ a', a.take krealloc entry = .ok a' := by
  unfold UidArr.take
  split
  next rows hfind => exact ⟨_, rfl⟩
  next hfind =>
    split
    · rw [if_neg (by simp [halloc])]
      exact ⟨_, rfl⟩
    · exact ⟨_, rfl⟩

/-- The loop over the entries makes the table of the entries. -/
theorem UidArr.table_foldlM_take {krealloc : Nat → Bool} {entries : List ProcEntry} {a : UidArr}
    (h : entries.foldlM (UidArr.take krealloc) .empty = .ok a) :
    uidGrouping.Table entries a.rows := by
  have hloop : ∀ (rest done : List ProcEntry) (a a' : UidArr), uidGrouping.Table done a.rows →
      rest.foldlM (UidArr.take krealloc) a = .ok a' →
        uidGrouping.Table (done ++ rest) a'.rows := by
    intro rest
    induction rest with
    | nil =>
        intro done a a' htable h
        cases h
        rwa [List.append_nil]
    | cons entry rest ih =>
        intro done a a' htable h
        rw [List.foldlM_cons, bind_eq_ok] at h
        obtain ⟨a₁, htake, hrest⟩ := h
        have hnext := htable.upsert entry
        rw [← rows_take htake] at hnext
        have hall := ih (done ++ [entry]) a₁ a' hnext hrest
        rwa [List.append_assoc] at hall
  exact hloop entries [] .empty a .nil h

/-- With memory to be had, the loop comes to its end. -/
theorem UidArr.foldlM_take_ok {krealloc : Nat → Bool} (halloc : ∀ n, krealloc n = true)
    (entries : List ProcEntry) (a : UidArr) :
    ∃ a', entries.foldlM (UidArr.take krealloc) a = .ok a' := by
  induction entries generalizing a with
  | nil => exact ⟨a, rfl⟩
  | cons entry entries ih =>
      obtain ⟨a₁, htake⟩ := a.take_ok halloc entry
      rw [List.foldlM_cons, htake]
      exact ih a₁

/-! ## Sums -/

/-- The signed 64-bit sum of some counters. -/
def IsSum (total : Int64) (parts : List Int64) : Prop :=
  total.toInt = (parts.map Int64.toInt).sum.bmod (2 ^ 64)

theorem isSum_singleton (x : Int64) : IsSum x [x] := by
  rw [IsSum, List.map_singleton, List.sum_singleton]
  exact x.toInt_bmod.symm

theorem IsSum.append {total : Int64} {parts : List Int64} (h : IsSum total parts) (x : Int64) :
    IsSum (total + x) (parts ++ [x]) := by
  rw [IsSum, Int64.toInt_add, h, List.map_append, List.sum_append, List.map_singleton,
    List.sum_singleton, Int.bmod_add_bmod]

/-- A counter of a row that adds entries up is the sum of the counters of the entries. -/
theorem isSum_of_total {total : UidSummary → Int64} {part : ProcEntry → Int64}
    (hnew : ∀ e, total (.new e) = part e) (hadd : ∀ r e, total (.add r e) = total r + part e)
    {row : UidSummary} {entries : List ProcEntry} (h : uidGrouping.Total row entries) :
    IsSum (total row) (entries.map part) := by
  have hfold : ∀ (rest done : List ProcEntry) (row : UidSummary),
      IsSum (total row) (done.map part) →
      IsSum (total (rest.foldl .add row)) ((done ++ rest).map part) := by
    intro rest
    induction rest with
    | nil =>
        intro done row h
        rwa [List.append_nil]
    | cons e rest ih =>
        intro done row h
        have hnext := ih (done ++ [e]) (row.add e) (by
          rw [hadd, List.map_append, List.map_singleton]
          exact h.append (part e))
        rwa [List.append_assoc] at hnext
  cases entries with
  | nil => exact h.elim
  | cons e rest =>
      rw [show row = rest.foldl .add (.new e) from h]
      exact hfold rest [e] (.new e) (by
        rw [hnew]
        exact isSum_singleton (part e))

/-- There is one row for each uid that occurs, with the sums of its entries. -/
structure IsUidTable (entries : List ProcEntry) (rows : List UidSummary) : Prop where
  nodup : (rows.map UidSummary.uid).Nodup
  uids : ∀ uid, uid ∈ rows.map UidSummary.uid ↔ uid ∈ entries.map ProcEntry.uid
  bytesSaved : ∀ row ∈ rows, IsSum row.bytesSaved
    ((entries.filter fun e => e.uid = row.uid).map ProcEntry.bytesSaved)
  pagesCompressed : ∀ row ∈ rows, IsSum row.pagesCompressed
    ((entries.filter fun e => e.uid = row.uid).map ProcEntry.pagesCompressed)
  pagesDecompressed : ∀ row ∈ rows, IsSum row.pagesDecompressed
    ((entries.filter fun e => e.uid = row.uid).map ProcEntry.pagesDecompressed)
  compressNs : ∀ row ∈ rows, IsSum row.compressNs
    ((entries.filter fun e => e.uid = row.uid).map ProcEntry.compressNs)
  decompressNs : ∀ row ∈ rows, IsSum row.decompressNs
    ((entries.filter fun e => e.uid = row.uid).map ProcEntry.decompressNs)

theorem isUidTable_of_table {entries : List ProcEntry} {rows : List UidSummary}
    (h : uidGrouping.Table entries rows) : IsUidTable entries rows where
  nodup := h.nodup
  uids := h.keys
  bytesSaved row hrow := isSum_of_total (fun _ => rfl) (fun _ _ => rfl) (h.total row hrow)
  pagesCompressed row hrow := isSum_of_total (fun _ => rfl) (fun _ _ => rfl) (h.total row hrow)
  pagesDecompressed row hrow := isSum_of_total (fun _ => rfl) (fun _ _ => rfl) (h.total row hrow)
  compressNs row hrow := isSum_of_total (fun _ => rfl) (fun _ _ => rfl) (h.total row hrow)
  decompressNs row hrow := isSum_of_total (fun _ => rfl) (fun _ _ => rfl) (h.total row hrow)

/-- The order of the rows does not matter. -/
theorem IsUidTable.perm {entries : List ProcEntry} {rows rows' : List UidSummary}
    (h : IsUidTable entries rows) (hperm : rows'.Perm rows) : IsUidTable entries rows' where
  nodup := (hperm.map _).nodup_iff.2 h.nodup
  uids uid := (hperm.map _).mem_iff.trans (h.uids uid)
  bytesSaved row hrow := h.bytesSaved row (hperm.mem_iff.1 hrow)
  pagesCompressed row hrow := h.pagesCompressed row (hperm.mem_iff.1 hrow)
  pagesDecompressed row hrow := h.pagesDecompressed row (hperm.mem_iff.1 hrow)
  compressNs row hrow := h.compressNs row (hperm.mem_iff.1 hrow)
  decompressNs row hrow := h.decompressNs row (hperm.mem_iff.1 hrow)

/-- There are as many rows as there are uids. -/
theorem IsUidTable.length_eq {entries : List ProcEntry} {rows : List UidSummary}
    (h : IsUidTable entries rows) :
    rows.length = (entries.map ProcEntry.uid).dedup.length := by
  have hperm : (rows.map UidSummary.uid).Perm (entries.map ProcEntry.uid).dedup :=
    (List.perm_ext_iff_of_nodup h.nodup (List.nodup_dedup _)).2 fun uid =>
      (h.uids uid).trans List.mem_dedup.symm
  rw [← List.length_map, hperm.length_eq]

/-! ## Sorting -/

/-- A comparator that orders: one of two comes first, and what comes before is transitive. -/
structure IsComparator {α : Type} (cmp : α → α → Int) : Prop where
  total : ∀ a b, cmp a b ≤ 0 ∨ cmp b a ≤ 0
  trans : ∀ a b c, cmp a b ≤ 0 → cmp b c ≤ 0 → cmp a c ≤ 0

/-- What `sort` of the kernel does: the elements are those of before, and by a comparator that
orders they are in order. -/
structure KernelSort {α : Type} (sort : (α → α → Int) → List α → List α) : Prop where
  perm : ∀ cmp l, (sort cmp l).Perm l
  sorted : ∀ cmp l, IsComparator cmp → (sort cmp l).Pairwise fun a b => cmp a b ≤ 0

theorem uidSummaryCmp_nonpos {sa sb : UidSummary} :
    uidSummaryCmp sa sb ≤ 0 ↔ sb.bytesSaved.toInt ≤ sa.bytesSaved.toInt := by
  unfold uidSummaryCmp
  simp only [gt_iff_lt, Int64.lt_iff_toInt_lt]
  split
  · exact iff_of_true (by decide) (by omega)
  split
  · exact iff_of_false (by decide) (by omega)
  · exact iff_of_true le_rfl (by omega)

/-- `uid_summary_cmp` puts rows that have saved more first. -/
theorem isComparator_uidSummaryCmp : IsComparator uidSummaryCmp where
  total sa sb := by
    rw [uidSummaryCmp_nonpos, uidSummaryCmp_nonpos]
    exact le_total _ _
  trans sa sb sc hab hbc := by
    rw [uidSummaryCmp_nonpos] at hab hbc ⊢
    exact hbc.trans hab

/-! ## The summary -/

/-- The entries in the order of `xa_for_each`. -/
def ProcStats.entries (s : ProcStats) : List ProcEntry := s.xa.toList.map fun p => s.objs p.2

/-- `sort` of the kernel, whether `kmalloc_array` finds memory, and for how many rows
`krealloc` does. -/
structure SummaryEnv where
  sort : (UidSummary → UidSummary → Int) → List UidSummary → List UidSummary
  kmalloc : Bool
  krealloc : Nat → Bool

/-- `avg_cmp`. -/
def UidSummary.avgCompressNs (row : UidSummary) : Int64 :=
  if row.pagesCompressed > 0 then row.compressNs / row.pagesCompressed else 0

/-- `avg_decmp`. -/
def UidSummary.avgDecompressNs (row : UidSummary) : Int64 :=
  if row.pagesDecompressed > 0 then row.decompressNs / row.pagesDecompressed else 0

/-- The line of a row. -/
def UidSummary.line (row : UidSummary) : String :=
  "  uid=" ++ toString row.uid.toNat ++
  " bytes_saved=" ++ toString row.bytesSaved.toInt ++
  " pages_compressed=" ++ toString row.pagesCompressed.toInt ++
  " pages_decompressed=" ++ toString row.pagesDecompressed.toInt ++
  " avg_compress_ns=" ++ toString row.avgCompressNs.toInt ++
  " avg_decompress_ns=" ++ toString row.avgDecompressNs.toInt ++ "\n"

/-- The lines in front of the rows. -/
def summaryHeader (count : Int) (uidCount : Nat) : String :=
  "tracked_processes: " ++ toString count ++ "\n" ++
  "tracked_uids: " ++ toString uidCount ++ "\n" ++
  "top_processes_by_bytes_saved:\n"

/-- `stats_summary_show`. -/
def statsSummaryShow (env : SummaryEnv) (s : ProcStats) (topN : Nat) : Except Int String :=
  if s.enabled = false then .ok "per_process_stats disabled\n"
  else if env.kmalloc = false then .error enomem
  else
    match s.entries.foldlM (UidArr.take env.krealloc) .empty with
    | .error ret => .error ret
    | .ok a =>
        let rows := env.sort uidSummaryCmp a.rows
        let topN := if a.rows.length < topN then a.rows.length else topN
        .ok (summaryHeader s.count a.rows.length ++
          String.join ((rows.take topN).map UidSummary.line))

/-- The rows that are printed and those that are left out are the table of the entries; as
many are printed as asked for or as there are uids, by what they have saved, and none that is
left out has saved more. -/
structure IsSummary (entries : List ProcEntry) (topN : Nat) (printed omitted : List UidSummary) :
    Prop where
  table : IsUidTable entries (printed ++ omitted)
  length : printed.length = min topN (entries.map ProcEntry.uid).dedup.length
  sorted : printed.Pairwise fun a b => b.bytesSaved.toInt ≤ a.bytesSaved.toInt
  largest : ∀ row ∈ printed, ∀ row' ∈ omitted, row'.bytesSaved.toInt ≤ row.bytesSaved.toInt

/-- The first rows of a sorted table are its summary. -/
theorem isSummary_of_sorted {entries : List ProcEntry} {rows : List UidSummary}
    (h : IsUidTable entries rows)
    (hsorted : rows.Pairwise fun a b => b.bytesSaved.toInt ≤ a.bytesSaved.toInt) (topN : Nat) :
    IsSummary entries topN (rows.take topN) (rows.drop topN) := by
  rw [← List.take_append_drop topN rows, List.pairwise_append] at hsorted
  refine ⟨by rwa [List.take_append_drop], ?_, hsorted.1, hsorted.2.2⟩
  rw [List.length_take, h.length_eq]

/-- **The UID summary**: while processes are tracked and memory is to be had, what is shown is
a header and the lines of the summary of the tracked entries. -/
theorem statsSummaryShow_isSummary {env : SummaryEnv} (hsort : KernelSort env.sort)
    (hmalloc : env.kmalloc = true) (hrealloc : ∀ n, env.krealloc n = true) {s : ProcStats}
    (hon : s.enabled = true) (topN : Nat) :
    ∃ printed omitted, IsSummary s.entries topN printed omitted ∧
      statsSummaryShow env s topN = .ok (summaryHeader s.count (printed ++ omitted).length ++
        String.join (printed.map UidSummary.line)) := by
  obtain ⟨a, hloop⟩ := UidArr.foldlM_take_ok hrealloc s.entries .empty
  have htable := UidArr.table_foldlM_take hloop
  have hperm := hsort.perm uidSummaryCmp a.rows
  have hrows : IsUidTable s.entries (env.sort uidSummaryCmp a.rows) :=
    (isUidTable_of_table htable).perm hperm
  have hsorted : (env.sort uidSummaryCmp a.rows).Pairwise
      fun a b => b.bytesSaved.toInt ≤ a.bytesSaved.toInt :=
    (hsort.sorted uidSummaryCmp a.rows isComparator_uidSummaryCmp).imp uidSummaryCmp_nonpos.1
  refine ⟨_, _, isSummary_of_sorted hrows hsorted topN, ?_⟩
  have htop : (env.sort uidSummaryCmp a.rows).take
      (if a.rows.length < topN then a.rows.length else topN) =
        (env.sort uidSummaryCmp a.rows).take topN := by
    split
    next hless =>
      rw [List.take_of_length_le hperm.length_eq.le,
        List.take_of_length_le (hperm.length_eq.trans_le hless.le)]
    · rfl
  rw [statsSummaryShow, if_neg (by rw [hon]; decide), if_neg (by rw [hmalloc]; decide), hloop]
  dsimp only
  rw [htop, List.take_append_drop, hperm.length_eq]

/-- Merge sort in the place of `sort`, and memory to be had. -/
def SummaryEnv.ok : SummaryEnv :=
  ⟨fun cmp l => l.mergeSort fun a b => cmp a b ≤ 0, true, fun _ => true⟩

theorem kernelSort_ok : KernelSort SummaryEnv.ok.sort where
  perm cmp l := List.mergeSort_perm l _
  sorted cmp l hcmp := by
    have hle : (l.mergeSort fun a b => decide (cmp a b ≤ 0)).Pairwise
        fun a b => decide (cmp a b ≤ 0) := by
      refine List.pairwise_mergeSort (fun a b c hab hbc => ?_) (fun a b => ?_) l
      · exact decide_eq_true (hcmp.trans a b c (of_decide_eq_true hab) (of_decide_eq_true hbc))
      · simpa using hcmp.total a b
    exact hle.imp of_decide_eq_true

/-- A process of one user, and two of another. -/
def threeProcesses : ProcStats :=
  { ProcStats.init with
    enabled := true
    count := 3
    xa := (((∅ : XArray Nat).store 7 0).store 8 1).store 9 2
    objs := fun entry =>
      (ProcEntry.new (entry + 7) (if entry = 0 then 1000 else 1001)).record (.compress 100 5) }

/-- With room for one line, the user that has saved more is shown, though it comes second. -/
theorem statsSummaryShow_threeProcesses :
    ∃ row omitted, IsSummary threeProcesses.entries 1 [row] omitted ∧ row.uid = 1001 ∧
      statsSummaryShow .ok threeProcesses 1 = .ok (summaryHeader 3 2 ++ String.join [row.line]) := by
  obtain ⟨printed, omitted, hsummary, hshow⟩ :=
    statsSummaryShow_isSummary kernelSort_ok rfl (fun _ => rfl) (s := threeProcesses) rfl 1
  have hrows : (printed ++ omitted).length = 2 := hsummary.table.length_eq.trans (by decide)
  obtain ⟨row, rfl⟩ := List.length_eq_one_iff.1 (hsummary.length.trans (by decide))
  refine ⟨row, omitted, hsummary, ?_, by rw [hshow, hrows]; rfl⟩
  have huids : threeProcesses.entries.map ProcEntry.uid = [1000, 1001, 1001] := by decide
  have hrow : row ∈ [row] ++ omitted := by simp
  have huid : row.uid ∈ threeProcesses.entries.map ProcEntry.uid :=
    (hsummary.table.uids row.uid).1 (List.mem_map_of_mem hrow)
  have htwo : row.uid = 1000 ∨ row.uid = 1001 := by
    rw [huids] at huid
    simpa using huid
  refine htwo.resolve_left fun hfirst => ?_
  obtain ⟨row', hrow', hsecond⟩ := List.mem_map.1
    ((hsummary.table.uids 1001).2 (by rw [huids]; decide))
  have hne : row' ≠ row := by
    rintro rfl
    rw [hsecond] at hfirst
    exact absurd hfirst (by decide)
  have homitted : row' ∈ omitted := by simpa [hne] using hrow'
  have hsaved := hsummary.table.bytesSaved row hrow
  have hsaved' := hsummary.table.bytesSaved row' hrow'
  rw [hfirst] at hsaved
  rw [hsecond] at hsaved'
  have hless := hsummary.largest row (List.mem_singleton_self row) row' homitted
  rw [hsaved, hsaved'] at hless
  exact absurd hless (by decide)

end MiniMem
