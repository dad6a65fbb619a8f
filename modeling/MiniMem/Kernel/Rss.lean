import Mathlib.Data.Set.Card
import MiniMem.Kernel.FaultAtomic
import MiniMem.Kernel.FaultPaths
import MiniMem.Kernel.Unload

/-!
# MiniMem.Kernel.Rss

The counter of anonymous pages against the page tables.  Whoever maps or
unmaps an anonymous page moves `rss_stat[MM_ANONPAGES]` by one; a file page
or the shared zero page is not counted there.

`rssDrift` is what the counter of an address space is ahead of the number of
its present entries that map anonymous pages.  The module changes it in one
place: a replacement takes one off the counter whatever page it replaces.
-/

namespace MiniMem

open Classical in
/-- 1 where a property holds, and 0 where it does not. -/
noncomputable def indicator (p : Prop) : Int := if p then 1 else 0

theorem indicator_of {p : Prop} (h : p) : indicator p = 1 := if_pos h

theorem indicator_of_not {p : Prop} (h : ¬p) : indicator p = 0 := if_neg h

/-- Changing a function at one place changes the number of places with a property by what
it has there before and after. -/
theorem ncard_update {β : Type} {p : β → Prop} {f : Nat → β} (hfin : {j | p (f j)}.Finite)
    (i : Nat) (v : β) :
    {j | p (Function.update f i v j)}.Finite ∧
      ({j | p (Function.update f i v j)}.ncard : Int) =
        {j | p (f j)}.ncard - indicator (p (f i)) + indicator (p v) := by
  by_cases hnew : p v
  · have hset : {j | p (Function.update f i v j)} = insert i {j | p (f j)} := by
      ext j
      by_cases hj : j = i
      · simp [hj, hnew]
      · simp [hj]
    rw [hset, indicator_of hnew]
    refine ⟨hfin.insert i, ?_⟩
    by_cases hold : p (f i)
    · have hmem : i ∈ {j | p (f j)} := hold
      rw [indicator_of hold, Set.insert_eq_of_mem hmem]
      omega
    · have hmem : i ∉ {j | p (f j)} := hold
      rw [indicator_of_not hold, Set.ncard_insert_of_notMem hmem hfin]
      push_cast
      omega
  · have hset : {j | p (Function.update f i v j)} = {j | p (f j)} \ {i} := by
      ext j
      by_cases hj : j = i
      · simp [hj, hnew]
      · simp [hj]
    rw [hset, indicator_of_not hnew]
    refine ⟨hfin.sdiff, ?_⟩
    by_cases hold : p (f i)
    · have hmem : i ∈ {j | p (f j)} := hold
      have hcard := Set.ncard_sdiff_singleton_add_one hmem hfin
      rw [indicator_of hold]
      omega
    · have hmem : i ∉ {j | p (f j)} := hold
      rw [indicator_of_not hold, Set.sdiff_singleton_eq_self hmem]
      omega

/-! ## What is mapped, and what is counted -/

/-- An entry maps an anonymous page. -/
def MapsAnon (anon : Nat → Prop) : Option Pte → Prop
  | some (.present pfn _ _ _) => anon pfn
  | _ => False

/-- The virtual pages of an address space whose entries map anonymous pages. -/
def Kernel.anonVpns (k : Kernel) (anon : Nat → Prop) (mm : Nat) : Set Nat :=
  {vpn | MapsAnon anon ((k.mms mm).ptes vpn)}

/-- How far `rss_stat[MM_ANONPAGES]` is ahead of the present entries. -/
noncomputable def Kernel.rssDrift (k : Kernel) (anon : Nat → Prop) (mm : Nat) : Int :=
  (k.mms mm).anonPages - (k.anonVpns anon mm).ncard

/-- `anon` can be the frames that hold anonymous pages: those still to be allocated will,
and every address space maps finitely many. -/
structure PageKinds (anon : Nat → Prop) (k : Kernel) : Prop where
  fresh : ∀ pfn, k.frames.next ≤ pfn → anon pfn
  finite : ∀ mm, (k.anonVpns anon mm).Finite

section Drift

variable {anon : Nat → Prop} {k : Kernel}

/-- A PTE of another address space does not count here. -/
theorem anonVpns_setPteAt_of_ne {mm mm' : Nat} (h : mm' ≠ mm) (vaddr : Nat) (pte : Pte) :
    (k.setPteAt mm vaddr pte).anonVpns anon mm' = k.anonVpns anon mm' := by
  simp [Kernel.anonVpns, Kernel.setPteAt, h]

/-- The pages that are mapped once a PTE is set. -/
theorem anonVpns_setPteAt (mm vaddr : Nat) (pte : Pte) :
    (k.setPteAt mm vaddr pte).anonVpns anon mm =
      {vpn | MapsAnon anon (Function.update (k.mms mm).ptes (vaddrToIndex vaddr) (some pte) vpn)} := by
  simp [Kernel.anonVpns, Kernel.setPteAt]

/-- Setting an entry changes the drift by what it mapped before and maps now. -/
theorem setPteAt_drift (hfin : ∀ mm, (k.anonVpns anon mm).Finite) (mm vaddr : Nat) (pte : Pte)
    (mm' : Nat) :
    ((k.setPteAt mm vaddr pte).anonVpns anon mm').Finite ∧
      (k.setPteAt mm vaddr pte).rssDrift anon mm' = k.rssDrift anon mm' +
        if mm' = mm then indicator (MapsAnon anon (k.pteAt mm vaddr)) -
          indicator (MapsAnon anon (some pte)) else 0 := by
  by_cases hmm : mm' = mm
  · subst hmm
    obtain ⟨hfin', hcard⟩ := ncard_update (hfin mm') (vaddrToIndex vaddr) (some pte)
    have hanon : ((k.setPteAt mm' vaddr pte).mms mm').anonPages = (k.mms mm').anonPages := by
      simp [Kernel.setPteAt]
    rw [Kernel.rssDrift, anonVpns_setPteAt, hanon, hcard, if_pos rfl, Kernel.rssDrift]
    refine ⟨hfin', ?_⟩
    show _ = (k.mms mm').anonPages - ({vpn | MapsAnon anon ((k.mms mm').ptes vpn)}.ncard : Int) + _
    rw [Kernel.pteAt]
    omega
  · have hanon : ((k.setPteAt mm vaddr pte).mms mm').anonPages = (k.mms mm').anonPages := by
      simp [Kernel.setPteAt, hmm]
    rw [Kernel.rssDrift, anonVpns_setPteAt_of_ne hmm, hanon, if_neg hmm, Kernel.rssDrift]
    exact ⟨hfin mm', (Int.add_zero _).symm⟩

/-- The counter moves, and the mapped pages do not. -/
theorem addAnonPages_drift (mm : Nat) (n : Int) (mm' : Nat) :
    (k.addAnonPages mm n).anonVpns anon mm' = k.anonVpns anon mm' ∧
      (k.addAnonPages mm n).rssDrift anon mm' =
        k.rssDrift anon mm' + if mm' = mm then n else 0 := by
  have hptes : (k.addAnonPages mm n).anonVpns anon mm' = k.anonVpns anon mm' := by
    by_cases hmm : mm' = mm
    · subst hmm
      simp [Kernel.anonVpns, Kernel.addAnonPages]
    · simp [Kernel.anonVpns, Kernel.addAnonPages, hmm]
  rw [Kernel.rssDrift, hptes, Kernel.rssDrift]
  refine ⟨rfl, ?_⟩
  by_cases hmm : mm' = mm
  · subst hmm
    simp [Kernel.addAnonPages]
    omega
  · simp [Kernel.addAnonPages, hmm]

end Drift

/-! ## Steps that keep the drift -/

/-- From `k` to `k'` the counters of anonymous pages followed the page tables. -/
def Follows (anon : Nat → Prop) (k k' : Kernel) : Prop :=
  PageKinds anon k → PageKinds anon k' ∧ ∀ mm, k'.rssDrift anon mm = k.rssDrift anon mm

section Follows

variable {anon : Nat → Prop} {k k₁ k₂ k₃ : Kernel}

/-- Nothing moves. -/
theorem Follows.refl (k : Kernel) : Follows anon k k := fun h => ⟨h, fun _ => rfl⟩

/-- Two steps in a row. -/
theorem Follows.trans (h : Follows anon k₁ k₂) (h' : Follows anon k₂ k₃) :
    Follows anon k₁ k₃ := by
  intro hkinds
  obtain ⟨hkinds₂, hdrift⟩ := h hkinds
  obtain ⟨hkinds₃, hdrift'⟩ := h' hkinds₂
  exact ⟨hkinds₃, fun mm => (hdrift' mm).trans (hdrift mm)⟩

/-- Nothing but page tables and counters matters, and frames are not given back. -/
theorem Follows.of_mms (hmms : k₂.mms = k₁.mms) (hnext : k₁.frames.next ≤ k₂.frames.next) :
    Follows anon k₁ k₂ := by
  intro hkinds
  have hvpns : ∀ mm, k₂.anonVpns anon mm = k₁.anonVpns anon mm := by
    intro mm
    rw [Kernel.anonVpns, hmms]
    rfl
  refine ⟨⟨fun pfn hpfn => hkinds.fresh pfn (by omega), fun mm => ?_⟩, fun mm => ?_⟩
  · rw [hvpns]
    exact hkinds.finite mm
  · rw [Kernel.rssDrift, hvpns, hmms, Kernel.rssDrift]

/-- Entries are not counted. -/
theorem follows_dropEntry (vaddr handle : Nat) : Follows anon k (k.dropEntry vaddr handle) :=
  .of_mms rfl (Nat.le_refl _)

theorem follows_faultHandled : Follows anon k k.faultHandled := .of_mms rfl (Nat.le_refl _)

theorem follows_faultMissed : Follows anon k k.faultMissed := .of_mms rfl (Nat.le_refl _)

theorem follows_uncount (len : Nat) : Follows anon k (k.uncount len) :=
  .of_mms rfl (Nat.le_refl _)

/-- An entry that maps no anonymous page is replaced by another that maps none. -/
theorem follows_setPteAt {mm vaddr : Nat} {pte : Pte} (hold : ¬MapsAnon anon (k.pteAt mm vaddr))
    (hnew : ¬MapsAnon anon (some pte)) : Follows anon k (k.setPteAt mm vaddr pte) := by
  intro hkinds
  have hdrift := setPteAt_drift hkinds.finite mm vaddr pte
  refine ⟨⟨hkinds.fresh, fun mm' => (hdrift mm').1⟩, fun mm' => ?_⟩
  rw [(hdrift mm').2, indicator_of_not hold, indicator_of_not hnew]
  split <;> omega

/-- A new page is counted where it is mapped. -/
theorem follows_mapNewPage {vma : Vma} {mm vaddr : Nat} {page : Page}
    (hold : ¬MapsAnon anon (k.pteAt mm vaddr)) :
    Follows anon k (k.mapNewPage vma mm vaddr page) := by
  intro hkinds
  have hnew : MapsAnon anon (some (newPte vma k.frames.next)) :=
    hkinds.fresh k.frames.next (Nat.le_refl _)
  have hdrift := @setPteAt_drift anon (k.allocPage page) hkinds.finite mm vaddr
    (newPte vma k.frames.next)
  have hcount := @addAnonPages_drift anon ((k.allocPage page).setPteAt mm vaddr
    (newPte vma k.frames.next)) mm 1
  refine ⟨⟨?_, ?_⟩, ?_⟩
  · intro pfn hpfn
    have hnext : k.frames.next + 1 ≤ pfn := hpfn
    exact hkinds.fresh pfn (by omega)
  · intro mm'
    rw [Kernel.mapNewPage, (hcount mm').1]
    exact (hdrift mm').1
  · intro mm'
    have hbase : (k.allocPage page).rssDrift anon mm' = k.rssDrift anon mm' := rfl
    rw [Kernel.mapNewPage, (hcount mm').2, (hdrift mm').2, hbase, pteAt_allocPage,
      indicator_of_not hold, indicator_of hnew]
    split <;> omega

/-- A marker maps no page. -/
theorem not_mapsAnon_of_isMinimem {pte : Pte} (h : pte.isMinimem = true) :
    ¬MapsAnon anon (some pte) := by
  cases pte with
  | marker index => exact id
  | _ => cases h

/-- The second lock finds the entry as it is, or nothing. -/
def Relock.quiet : Relock → Bool
  | .changed _ => false
  | _ => true

/-- Where nobody changes the PTE meanwhile it is the same under the lock, or not found. -/
theorem relock_quiet {relock : Relock} (h : relock.quiet = true) (mm vaddr : Nat) :
    (k.relock mm vaddr relock).1 = k ∧
      ((k.relock mm vaddr relock).2 = k.pteAt mm vaddr ∨ (k.relock mm vaddr relock).2 = none) := by
  cases relock with
  | same => exact ⟨rfl, .inl rfl⟩
  | noLock => exact ⟨rfl, .inr rfl⟩
  | changed pte => cases h

/-- The last step of a restore, behind a marker. -/
theorem follows_installPage {vma : Vma} {mm vaddr : Nat} {orig : Pte} {page : Page}
    {relock : Relock} (hquiet : relock.quiet = true) (hmarker : orig.isMinimem = true) :
    Follows anon k (k.installPage vma mm vaddr orig page relock) := by
  obtain ⟨hsame, hfound⟩ := @relock_quiet k relock hquiet mm vaddr
  rw [installPage_eq, hsame]
  split
  next heq =>
    rw [heq] at hfound
    rcases hfound with hpte | hnone
    · apply follows_mapNewPage
      rw [← hpte]
      exact not_mapsAnon_of_isMinimem hmarker
    · cases hnone
  · exact .refl k

end Follows

/-! ## The operations -/

/-- The operations that change page tables. -/
inductive RssOp where
  | replace (env : ReplaceEnv) (mm addr : Nat)
  | vmFault (env : FaultEnv) (vmf : FaultInfo)
  | stockFault (env : FaultEnv) (vmf : FaultInfo)
  | zap (env : ZapEnv) (mm start stop : Nat)
  | drain (tasks : List DrainTask)

/-- Nobody else writes the entry that an operation works on. -/
def RssOp.Undisturbed : RssOp → Prop
  | .replace env _ _ => env.relock.quiet = true
  | .vmFault env _ => env.relock.quiet = true
  | .stockFault env _ => env.relock.quiet = true
  | .zap _ _ _ _ => True
  | .drain tasks => ∀ task ∈ tasks, ∀ vaddr, (task.pages vaddr).relock.quiet = true

/-- An operation in a sequence of them, one after the other. -/
def QuietOp : Type := { op : RssOp // op.Undisturbed }

/-- One operation. -/
def rssExec (codec : Codec) (k : Kernel) : RssOp → Kernel
  | .replace env mm addr => (compressAndReplacePte codec env k mm addr).2
  | .vmFault env vmf => (vmFaultHandler codec env k vmf).2
  | .stockFault env vmf => (stockMarkerFault codec env k vmf).2
  | .zap env mm start stop => (zapRange env k mm start stop).2
  | .drain tasks => (drainAndRestore codec tasks k).2

/-- Every operation can be executed in every state. -/
def rssStep (codec : Codec) (k : Kernel) (op : QuietOp) : Option Kernel :=
  some (rssExec codec k op.1)

section Operations

variable {anon : Nat → Prop} {k : Kernel}

/-- A fault on a marker maps one page and counts one. -/
theorem follows_resolveFault (codec : Codec) {env : FaultEnv} {vmf : FaultInfo}
    (hquiet : env.relock.quiet = true) (hmarker : vmf.origPte.isMinimem = true) :
    Follows anon k (resolveFault codec env k vmf).2 := by
  unfold resolveFault
  dsimp only
  split
  · exact follows_faultMissed
  split
  · exact follows_faultMissed
  split
  · exact follows_faultMissed
  split
  · exact follows_faultMissed
  split
  · exact follows_faultMissed
  · exact (follows_dropEntry _ _).trans
      ((follows_installPage hquiet hmarker).trans follows_faultHandled)

/-- `minimem_vm_fault_handler` keeps the counter with the mapped pages. -/
theorem follows_vmFaultHandler (codec : Codec) {env : FaultEnv} (vmf : FaultInfo)
    (hquiet : env.relock.quiet = true) :
    Follows anon k (vmFaultHandler codec env k vmf).2 := by
  rw [vmFaultHandler_snd]
  split
  · exact .refl k
  next hgo =>
    simp only [not_or, Bool.not_eq_false] at hgo
    exact follows_resolveFault codec hquiet hgo.1

/-- `minimem_zswap_remove` maps nothing. -/
theorem follows_zswapRemove (vaddr : Nat) : Follows anon k (zswapRemove k vaddr).2 := by
  unfold zswapRemove
  split
  · exact .refl k
  split <;> exact .of_mms rfl (Nat.le_refl _)

/-- Nor do the removals at an exit. -/
theorem follows_zapRemove (vaddrs : List Nat) (acc : Nat × Kernel) :
    Follows anon acc.2 (zapRemove vaddrs acc).2 := by
  induction vaddrs generalizing acc with
  | nil => exact .refl _
  | cons vaddr vaddrs ih =>
      obtain ⟨freed, k⟩ := acc
      exact (follows_zswapRemove vaddr).trans
        (ih (if (zswapRemove k vaddr).1 = 0 then freed + 1 else freed, (zswapRemove k vaddr).2))

/-- Clearing a marker unmaps nothing. -/
theorem follows_zapPage (env : ZapEnv) (mm : Nat) (s : ZapState) (addr : Nat) :
    Follows anon s.kernel (zapPage env mm s addr).kernel := by
  unfold zapPage
  dsimp only
  split
  · exact .refl _
  split
  · exact .refl _
  next pte hpte =>
    split
    · exact .refl _
    next hmarker =>
      rw [Bool.not_eq_false] at hmarker
      have hlock : env.lock addr = true := by
        by_contra hlock
        simp [hlock] at hpte
      rw [if_pos hlock] at hpte
      have hclear : Follows anon s.kernel (s.kernel.setPteAt mm addr .empty) := by
        apply follows_setPteAt _ id
        rw [hpte]
        exact not_mapsAnon_of_isMinimem hmarker
      repeat' split
      all_goals exact hclear

/-- Nor does the whole walk at an exit. -/
theorem follows_zapRange (env : ZapEnv) (mm start stop : Nat) :
    Follows anon k (zapRange env k mm start stop).2 := by
  unfold zapRange
  split
  · exact .refl k
  · have hwalk := zapVmas_keeps (P := fun s => Follows anon k s.kernel)
      (fun s addr h => h.trans (follows_zapPage env mm s addr)) start stop
      ((k.mms mm).vmas.filter fun vma => decide (start < vma.stop))
      (s := ⟨k, ⟨[], 256, 0⟩, false⟩) (.refl k)
    exact hwalk.trans (follows_zapRemove _ (_, _))

/-- The walk at unload maps one page where it counts one. -/
theorem follows_drainVisit (codec : Codec) (n : Nat) {v : Visit}
    (hquiet : v.env.relock.quiet = true) : Follows anon k (drainVisit codec (n, k) v).2 := by
  rcases drainVisit_cases codec n k v with ⟨hdone, -⟩ |
    ⟨orig, entry, -, -, hmarker, -, ⟨-, hdone⟩ | ⟨page, -, hdone⟩⟩
  · rw [hdone]
    exact .refl k
  · rw [hdone]
    exact (follows_dropEntry _ _).trans (follows_uncount _)
  · rw [hdone]
    exact (follows_installPage hquiet hmarker).trans
      ((follows_dropEntry _ _).trans (follows_uncount _))

/-- So do all its visits, by induction on the list. -/
theorem follows_visits (codec : Codec) {vs : List Visit}
    (hquiet : ∀ v ∈ vs, v.env.relock.quiet = true) (n : Nat) :
    Follows anon k (vs.foldl (drainVisit codec) (n, k)).2 := by
  induction vs generalizing n k with
  | nil => exact .refl k
  | cons v vs ih =>
      rw [List.forall_mem_cons] at hquiet
      exact (follows_drainVisit codec n hquiet.1).trans (ih hquiet.2 _)

/-- A visit has the environment of its process. -/
theorem env_of_mem_visits {tasks : List DrainTask} {v : Visit} (h : v ∈ k.visits tasks) :
    ∃ task ∈ tasks, ∃ vaddr, v.env = task.pages vaddr := by
  rw [Kernel.visits, List.mem_flatMap] at h
  obtain ⟨task, htask, hv⟩ := h
  refine ⟨task, htask, ?_⟩
  unfold DrainTask.visits at hv
  split at hv
  · cases hv
  split at hv
  · cases hv
  split at hv
  · cases hv
  rw [List.mem_flatMap] at hv
  obtain ⟨vma, -, hv⟩ := hv
  unfold vmaVisits at hv
  split at hv
  · cases hv
  rw [List.mem_map] at hv
  obtain ⟨vaddr, -, hv⟩ := hv
  exact ⟨vaddr, by rw [← hv]⟩

/-- `minimem_zswap_drain_and_restore` keeps the counter with the mapped pages. -/
theorem follows_drainAndRestore (codec : Codec) {tasks : List DrainTask}
    (hquiet : ∀ task ∈ tasks, ∀ vaddr, (task.pages vaddr).relock.quiet = true) :
    Follows anon k (drainAndRestore codec tasks k).2 := by
  unfold drainAndRestore
  split
  · exact .refl k
  · rw [drainProcess_foldl_eq]
    apply follows_visits
    intro v hv
    obtain ⟨task, htask, vaddr, henv⟩ := env_of_mem_visits hv
    rw [henv]
    exact hquiet task htask vaddr

end Operations

/-! ## Replacements -/

section Replacements

variable {anon : Nat → Prop} {k : Kernel}

/-- A replacement that goes through is one of an anonymous page. -/
def ReplacesAnon (anon : Nat → Prop) (codec : Codec) (k : Kernel) : RssOp → Prop
  | .replace env mm addr =>
      ReplaceInstalls env k mm addr → ∀ pfn algo bytes,
        replaceStores codec env k mm addr = some (pfn, algo, bytes) → anon pfn
  | _ => True

/-- A replacement takes the entry's page out of the page table and one off the counter. -/
theorem replaced_drift (hkinds : PageKinds anon k) {mm vaddr pfn : Nat} {write young dirty : Bool}
    (hpte : k.pteAt mm vaddr = some (.present pfn write young dirty)) (algo : AlgoId)
    (bytes : List UInt8) :
    PageKinds anon (k.replaced mm vaddr pfn algo bytes) ∧
      ∀ mm', (k.replaced mm vaddr pfn algo bytes).rssDrift anon mm' =
        k.rssDrift anon mm' + if mm' = mm then indicator (anon pfn) - 1 else 0 := by
  have hdrift := @setPteAt_drift anon (k.addEntry vaddr algo bytes) hkinds.finite mm vaddr
    (minimemPte (vaddrToIndex vaddr))
  have hcount := @addAnonPages_drift anon ((k.addEntry vaddr algo bytes).setPteAt mm vaddr
    (minimemPte (vaddrToIndex vaddr))) mm (-1)
  have hpte' : (k.addEntry vaddr algo bytes).pteAt mm vaddr =
      some (.present pfn write young dirty) := hpte
  have hbase : ∀ mm', (k.addEntry vaddr algo bytes).rssDrift anon mm' = k.rssDrift anon mm' :=
    fun _ => rfl
  have hmarker : ¬MapsAnon anon (some (minimemPte (vaddrToIndex vaddr))) := id
  rw [replaced_eq]
  refine ⟨⟨hkinds.fresh, fun mm' => ?_⟩, fun mm' => ?_⟩
  · have hfin := (hdrift mm').1
    rw [← (hcount mm').1] at hfin
    exact hfin
  · have hmapped : indicator (MapsAnon anon (some (.present pfn write young dirty))) =
        indicator (anon pfn) := rfl
    refine (hcount mm').2.trans ?_
    rw [(hdrift mm').2, hbase, hpte', indicator_of_not hmarker, hmapped]
    split <;> omega

/-- **One replacement**: the counters follow the page tables exactly when the page is
anonymous, or nothing is replaced. -/
theorem replace_drift (codec : Codec) {env : ReplaceEnv} (hquiet : env.relock.quiet = true)
    (hwf : k.pool.Wf) (hkinds : PageKinds anon k) (mm addr : Nat) :
    PageKinds anon (compressAndReplacePte codec env k mm addr).2 ∧
      ((∀ mm', (compressAndReplacePte codec env k mm addr).2.rssDrift anon mm' =
          k.rssDrift anon mm') ↔ ReplacesAnon anon codec k (.replace env mm addr)) := by
  have hcases := replace_cases codec env hwf mm addr
  generalize compressAndReplacePte codec env k mm addr = result at hcases
  cases hcases with
  | @refused ret pool hret hstores =>
      have hsame : Follows anon k { k with pool := pool } := .of_mms rfl (Nat.le_refl _)
      obtain ⟨hkinds', hdrift⟩ := hsame hkinds
      refine ⟨hkinds', fun _ _ pfn algo bytes hsome => ?_, fun _ => hdrift⟩
      rw [hstores] at hsome
      cases hsome
  | @undone ret pfn algo bytes hret hstores hinstalls =>
      rw [(relock_quiet hquiet mm (pageMask addr)).1]
      have hsame : Follows anon k (k.unreplaced k (pageMask addr) algo bytes) :=
        .of_mms rfl (Nat.le_refl _)
      obtain ⟨hkinds', hdrift⟩ := hsame hkinds
      exact ⟨hkinds', fun _ h => absurd h hinstalls, fun _ => hdrift⟩
  | @done pfn algo bytes hstores hinstalls =>
      obtain ⟨-, -, -, write, young, dirty, hpte, -⟩ := replaceStores_eq_some hstores
      obtain ⟨hkinds', hdrift⟩ := replaced_drift hkinds hpte algo bytes
      refine ⟨hkinds', fun hsame _ pfn' algo' bytes' hstores' => ?_, fun hanon mm' => ?_⟩
      · rw [hstores] at hstores'
        cases hstores'
        by_contra hnot
        have hown := hdrift mm
        rw [hsame mm, if_pos rfl, indicator_of_not hnot] at hown
        omega
      · have hpage : anon pfn := hanon hinstalls pfn algo bytes hstores
        rw [hdrift mm', indicator_of hpage]
        split <;> omega

/-- The operations that replace nothing. -/
theorem follows_exec (codec : Codec) {op : RssOp} (hquiet : op.Undisturbed)
    (hop : ∀ env mm addr, op ≠ .replace env mm addr) : Follows anon k (rssExec codec k op) := by
  cases op with
  | replace env mm addr => exact absurd rfl (hop env mm addr)
  | vmFault env vmf => exact follows_vmFaultHandler codec vmf hquiet
  | stockFault env vmf =>
      rw [rssExec, stockMarkerFault_snd]
      exact follows_vmFaultHandler codec vmf hquiet
  | zap env mm start stop => exact follows_zapRange env mm start stop
  | drain tasks => exact follows_drainAndRestore codec hquiet

/-- What the counting rests on in every reachable state. -/
structure RssOk (anon : Nat → Prop) (k : Kernel) : Prop where
  wf : k.pool.Wf
  kinds : PageKinds anon k

/-- No operation gives out a handle twice. -/
theorem wf_rssExec (codec : Codec) (hwf : k.pool.Wf) (op : RssOp) :
    (rssExec codec k op).pool.Wf := by
  cases op with
  | replace env mm addr => exact wf_exec hwf (.replace env mm addr)
  | vmFault env vmf => exact dropClosed_wf.vmFaultHandler codec env vmf hwf
  | stockFault env vmf => exact dropClosed_wf.stockMarkerFault codec env vmf hwf
  | zap env mm start stop => exact dropClosed_wf.zapRange env mm start stop hwf
  | drain tasks => exact dropClosed_wf.drainAndRestore codec tasks hwf

/-- An operation keeps the drift exactly when what it replaces was an anonymous page. -/
theorem exec_drift (codec : Codec) (hok : RssOk anon k) (op : QuietOp) :
    RssOk anon (rssExec codec k op.1) ∧
      ((∀ mm, (rssExec codec k op.1).rssDrift anon mm = k.rssDrift anon mm) ↔
        ReplacesAnon anon codec k op.1) := by
  obtain ⟨op, hquiet⟩ := op
  have hwf := wf_rssExec codec hok.wf op
  cases op with
  | replace env mm addr =>
      obtain ⟨hkinds, hdrift⟩ := replace_drift codec hquiet hok.wf hok.kinds mm addr
      exact ⟨⟨hwf, hkinds⟩, hdrift⟩
  | _ =>
      obtain ⟨hkinds, hdrift⟩ := follows_exec codec hquiet (fun _ _ _ h => by cases h) hok.kinds
      exact ⟨⟨hwf, hkinds⟩, iff_of_true hdrift trivial⟩

end Replacements

/-! ## Runs -/

/-- Since `k₀` every counter of anonymous pages has changed by what the number of present
entries that map anonymous pages has. -/
def RssFollows (anon : Nat → Prop) (k₀ k : Kernel) : Prop :=
  ∀ mm, (k.mms mm).anonPages - (k₀.mms mm).anonPages =
    ((k.anonVpns anon mm).ncard : Int) - (k₀.anonVpns anon mm).ncard

/-- The counter follows exactly when the drift is the one at the start. -/
theorem rssFollows_iff_drift {anon : Nat → Prop} {k₀ k : Kernel} :
    RssFollows anon k₀ k ↔ ∀ mm, k.rssDrift anon mm = k₀.rssDrift anon mm := by
  apply forall_congr'
  intro mm
  rw [Kernel.rssDrift, Kernel.rssDrift]
  omega

/-- **RSS accounting**: the counters follow the page tables in every state of a run exactly
when every replacement that goes through is of an anonymous page. -/
theorem rssFollows_along_iff (anon : Nat → Prop) (codec : Codec) (mms : Nat → Mm)
    (frames : Frames) (maxPoolPages minSavingsPct : Int) (symbolsResolved : Bool)
    (hkinds : PageKinds anon (.loaded mms frames maxPoolPages minSavingsPct symbolsResolved))
    (ops : List QuietOp) :
    Along (rssStep codec)
        (RssFollows anon (.loaded mms frames maxPoolPages minSavingsPct symbolsResolved))
        (.loaded mms frames maxPoolPages minSavingsPct symbolsResolved) ops ↔
      Guarded (rssStep codec) (fun k op => ReplacesAnon anon codec k op.1)
        (.loaded mms frames maxPoolPages minSavingsPct symbolsResolved) ops := by
  have hok : RssOk anon (.loaded mms frames maxPoolPages minSavingsPct symbolsResolved) :=
    ⟨wf_loaded _ _ _ _ _, hkinds⟩
  apply along_iff_guarded (I := RssOk anon) _ _ _ ops
    (rssFollows_iff_drift.2 fun _ => rfl) hok
  · intro k op _ hstep
    cases hstep
  · intro k op k' hok hstep
    cases hstep
    exact (exec_drift codec hok op).1
  · intro k op k' hfollows hok hstep
    cases hstep
    rw [rssFollows_iff_drift] at hfollows ⊢
    rw [← (exec_drift codec hok op).2]
    exact forall_congr' fun mm => by rw [hfollows mm]

/-! ## The shared zero page -/

/-- Frame 0 of `onePage` can be the shared zero page. -/
theorem pageKinds_onePage : PageKinds (· ≠ 0) onePage where
  fresh := by
    intro pfn hpfn
    have hone : 1 ≤ pfn := hpfn
    omega
  finite mm := by
    have hblank : ∀ mm, (Kernel.blank.anonVpns (· ≠ 0) mm).Finite := fun _ => Set.finite_empty
    exact (setPteAt_drift hblank 0 0x1000 (.present 0 true true false) mm).1

/-- A page that is anonymous is replaced, and the counter follows. -/
theorem rssFollows_along_onePage :
    Along (rssStep samePageCodec) (RssFollows (fun _ => True) onePage) onePage
      [⟨.replace .ok 0 0x1000, rfl⟩] := by
  have hfinite : ∀ mm, (onePage.anonVpns (fun _ => True) mm).Finite := by
    have hblank : ∀ mm, (Kernel.blank.anonVpns (fun _ => True) mm).Finite :=
      fun _ => Set.finite_empty
    exact fun mm => (setPteAt_drift hblank 0 0x1000 (.present 0 true true false) mm).1
  exact (rssFollows_along_iff (fun _ => True) samePageCodec onePage.mms onePage.frames 0 0 true
    ⟨fun _ _ => trivial, hfinite⟩ _).2
    ⟨fun _ _ _ _ _ => trivial, fun _ _ => trivial⟩

/-- The shared zero page is replaced, and the counter goes below zero. -/
theorem not_rssFollows_zeroPage :
    ¬Along (rssStep samePageCodec) (RssFollows (· ≠ 0) onePage) onePage
        [⟨.replace .ok 0 0x1000, rfl⟩] ∧
      ((rssExec samePageCodec onePage (.replace .ok 0 0x1000)).mms 0).anonPages = -1 := by
  have hmask : pageMask 0x1000 = 0x1000 := by decide
  have hwf : onePage.pool.Wf := fun _ _ => rfl
  have hstores := @replaceStores_fill .ok rfl rfl onePage rfl rfl 0 0x1000 0 true true
    false 0 (pteAt_setPteAt_self _ _ _ _) rfl
  have hreplaced := replace_of_installs hwf hstores rfl
  constructor
  · rintro ⟨-, halong⟩
    have hfollows := (halong _ rfl).head
    have hanon : ReplacesAnon (· ≠ 0) samePageCodec onePage (.replace .ok 0 0x1000) :=
      (exec_drift samePageCodec ⟨hwf, pageKinds_onePage⟩ ⟨.replace .ok 0 0x1000, rfl⟩).2.1
        (rssFollows_iff_drift.1 hfollows)
    exact hanon rfl 0 .samePage [0] hstores rfl
  · rw [rssExec, hreplaced, hmask, replaced_eq]
    rfl

end MiniMem
