import Mathlib.Data.List.Induction
import Mathlib.Data.List.Pairwise
import MiniMem.Kernel.AddressSpaces
import MiniMem.Kernel.MarkWalk

/-!
# MiniMem.Kernel.ZapRange

What `minimem_zap_range` leaves behind.  The walk clears a marker before it
has a place to note its address, so its two halves part at a failed
`krealloc`:

```
markers of the range   a₀ a₁ … a_{c-1}  a_c  a_{c+1} …
                       collected       cut   not reached
```

with `c = 256 · 2 ^ j` for the first growth `j` that fails.  The collected
markers lose their entries, and the one at the cut is cleared and keeps its
entry.  Without a cut every marker goes that the walk comes to, which leaves
out shared, I/O and PFN mappings.
-/

namespace MiniMem

/-! ## Addresses of the walk -/

/-- The VMAs that `minimem_zap_range` passes over. -/
def Vma.zapSkipped (vma : Vma) : Bool := vma.shared || vma.io || vma.pfnmap

/-- The addresses that the walk comes to, in its order. -/
def zapAddrs (start stop : Nat) : List Vma → List Nat
  | [] => []
  | vma :: vmas =>
      if vma.start ≥ stop then []
      else if vma.zapSkipped then zapAddrs start stop vmas
      else pagesFrom (max vma.start start) (min vma.stop stop) ++ zapAddrs start stop vmas

theorem zapVmas_eq_foldl (env : ZapEnv) (mm start stop : Nat) (vmas : List Vma) (s : ZapState) :
    zapVmas env mm start stop vmas s = (zapAddrs start stop vmas).foldl (zapPage env mm) s := by
  induction vmas generalizing s with
  | nil => rfl
  | cons vma vmas ih =>
      rw [zapVmas, zapAddrs]
      split
      · rfl
      by_cases hskip : vma.zapSkipped = true
      · rw [if_pos hskip, ih]
        exact if_pos hskip
      · rw [if_neg hskip, List.foldl_append, ← ih]
        exact if_neg hskip

/-- The walk of a VMA starts at a page. -/
theorem VmasOk.dvd_max {vmas : List Vma} (hvmas : VmasOk vmas) {vma : Vma} (h : vma ∈ vmas)
    {start : Nat} (hstart : pageSize ∣ start) : pageSize ∣ max vma.start start := by
  obtain hle | hle := Nat.le_total vma.start start
  · rwa [Nat.max_eq_right hle]
  · rw [Nat.max_eq_left hle]
    exact (hvmas.aligned vma h).1

/-- The walk comes to the pages of the range that lie in a VMA it does not pass over. -/
theorem mem_zapAddrs {start stop x : Nat} {vmas : List Vma} (hvmas : VmasOk vmas)
    (hstart : pageSize ∣ start) :
    x ∈ zapAddrs start stop vmas ↔ pageSize ∣ x ∧ start ≤ x ∧ x < stop ∧
      ∃ vma ∈ vmas, vma.zapSkipped = false ∧ vma.start ≤ x ∧ x < vma.stop := by
  induction vmas with
  | nil => simp [zapAddrs]
  | cons vma vmas ih =>
      have hrest : VmasOk vmas := hvmas.tail
      have habove := (List.pairwise_cons.1 hvmas.ascending).1
      have hhead : vma.start < vma.stop := hvmas.nonempty vma List.mem_cons_self
      rw [zapAddrs]
      by_cases hend : vma.start ≥ stop
      · rw [if_pos hend]
        refine iff_of_false List.not_mem_nil ?_
        rintro ⟨-, -, hx, v, hv, -, hlow, -⟩
        obtain rfl | hv := List.mem_cons.1 hv
        · omega
        · have := habove v hv
          omega
      rw [if_neg hend]
      by_cases hskip : vma.zapSkipped = true
      · rw [if_pos hskip, ih hrest]
        simp [hskip]
      rw [if_neg hskip, List.mem_append, ih hrest,
        mem_pagesFrom (hvmas.dvd_max List.mem_cons_self hstart)]
      rw [Bool.not_eq_true] at hskip
      constructor
      · rintro (⟨hlow, hhigh, hx⟩ | ⟨hx, hlow, hhigh, v, hv, hrest⟩)
        · exact ⟨hx, by omega, by omega, vma, List.mem_cons_self, hskip, by omega, by omega⟩
        · exact ⟨hx, hlow, hhigh, v, List.mem_cons_of_mem _ hv, hrest⟩
      · rintro ⟨hx, hlow, hhigh, v, hv, hvskip, hvlow, hvhigh⟩
        obtain rfl | hv := List.mem_cons.1 hv
        · exact .inl ⟨by omega, by omega, hx⟩
        · exact .inr ⟨hx, hlow, hhigh, v, hv, hvskip, hvlow, hvhigh⟩

theorem pagesFrom_pairwise (start stop : Nat) : (pagesFrom start stop).Pairwise (· < ·) := by
  rw [pagesFrom, List.pairwise_map]
  refine List.pairwise_lt_range.imp ?_
  intro i j hij
  simp only [pageSize]
  omega

/-- The walk goes upwards. -/
theorem zapAddrs_pairwise {start stop : Nat} {vmas : List Vma} (hvmas : VmasOk vmas)
    (hstart : pageSize ∣ start) : (zapAddrs start stop vmas).Pairwise (· < ·) := by
  induction vmas with
  | nil => exact .nil
  | cons vma vmas ih =>
      have hrest : VmasOk vmas := hvmas.tail
      rw [zapAddrs]
      split
      · exact .nil
      split
      · exact ih hrest
      refine List.pairwise_append.2 ⟨pagesFrom_pairwise _ _, ih hrest, ?_⟩
      intro x hx y hy
      obtain ⟨-, hhigh, -⟩ := (mem_pagesFrom (hvmas.dvd_max List.mem_cons_self hstart)).1 hx
      obtain ⟨-, -, -, v, hv, -, hlow, -⟩ := (mem_zapAddrs hrest hstart).1 hy
      have := (List.pairwise_cons.1 hvmas.ascending).1 v hv
      omega

/-- Pages of whole addresses have numbers of their own. -/
theorem vaddrToIndex_inj {x y : Nat} (hx : pageSize ∣ x) (hy : pageSize ∣ y)
    (h : vaddrToIndex x = vaddrToIndex y) : x = y := by
  obtain ⟨m, rfl⟩ := hx
  obtain ⟨n, rfl⟩ := hy
  simp only [vaddrToIndex, pageShift, Nat.shiftRight_eq_div_pow, pageSize] at h ⊢
  omega

/-! ## Clearing and collecting -/

/-- The markers that the walk finds, in its order. -/
def zapMarkers (env : ZapEnv) (k : Kernel) (mm : Nat) (addrs : List Nat) : List Nat :=
  addrs.filter fun addr => env.lock addr && (k.pteAt mm addr).any Pte.isMinimem

/-- `pte_clear` of each of the addresses. -/
def Kernel.clearPtes (k : Kernel) (mm : Nat) (addrs : List Nat) : Kernel :=
  addrs.foldl (fun k addr => k.setPteAt mm addr .empty) k

theorem clearPtes_append (k : Kernel) (mm addr : Nat) (addrs : List Nat) :
    k.clearPtes mm (addrs ++ [addr]) = (k.clearPtes mm addrs).setPteAt mm addr .empty := by
  rw [Kernel.clearPtes, List.foldl_append]
  rfl

/-- Clearing PTEs touches those PTEs only. -/
theorem clearPtes_keeps (k : Kernel) (mm : Nat) (addrs : List Nat) :
    (k.clearPtes mm addrs).map = k.map ∧ (k.clearPtes mm addrs).pool = k.pool ∧
      ∀ x, (k.clearPtes mm addrs).pteAt mm x =
        if vaddrToIndex x ∈ addrs.map vaddrToIndex then some .empty else k.pteAt mm x := by
  induction addrs generalizing k with
  | nil => exact ⟨rfl, rfl, fun x => rfl⟩
  | cons addr addrs ih =>
      obtain ⟨hmap, hpool, hpte⟩ := ih (k.setPteAt mm addr .empty)
      refine ⟨hmap, hpool, fun x => ?_⟩
      rw [Kernel.clearPtes, List.foldl_cons, ← Kernel.clearPtes, hpte x, pteAt_setPteAt]
      by_cases htail : vaddrToIndex x ∈ addrs.map vaddrToIndex
      · simp [htail]
      · by_cases hhead : vaddrToIndex x = vaddrToIndex addr
        · simp [hhead]
        · simp [htail, hhead]

/-- The walk behind the markers that it has found: it goes on, with all of them collected, or
it has been cut off at the first growth that fails, with one more cleared than collected. -/
inductive ZapWalked (env : ZapEnv) (k : Kernel) (mm : Nat) (markers : List Nat) :
    ZapState → Prop
  | going {j : Nat} (hgrown : ∀ i < j, env.krealloc i = true)
      (hfit : markers.length ≤ 256 * 2 ^ j) :
      ZapWalked env k mm markers
        ⟨k.clearPtes mm markers, ⟨markers.map pageMask, 256 * 2 ^ j, j⟩, false⟩
  | cut {j : Nat} (hgrown : ∀ i < j, env.krealloc i = true) (hfail : env.krealloc j = false)
      (hlong : 256 * 2 ^ j < markers.length) :
      ZapWalked env k mm markers
        ⟨k.clearPtes mm (markers.take (256 * 2 ^ j + 1)),
          ⟨(markers.take (256 * 2 ^ j)).map pageMask, 256 * 2 ^ j * 2, j + 1⟩, true⟩

/-- At a page without a marker, or one whose PTE is not to be had, nothing happens. -/
theorem zapPage_of_not_marker {env : ZapEnv} {mm addr : Nat} {s : ZapState}
    (h : (env.lock addr && (s.kernel.pteAt mm addr).any Pte.isMinimem) = false) :
    zapPage env mm s addr = s := by
  rw [zapPage]
  by_cases hfull : s.full = true
  · rw [if_pos hfull]
  rw [if_neg hfull]
  by_cases hlock : env.lock addr = true
  swap
  · rw [if_neg hlock]
  rw [if_pos hlock]
  rw [hlock, Bool.true_and] at h
  cases hfound : s.kernel.pteAt mm addr with
  | none => rfl
  | some pte =>
      rw [hfound, Option.any_some] at h
      exact if_pos h

/-- A marker is cleared, and its address goes to the array if there is room or the array can
grow. -/
theorem zapPage_of_marker {env : ZapEnv} {mm addr : Nat} {k : Kernel} {vaddrs : List Nat}
    {cap j : Nat} (h : (env.lock addr && (k.pteAt mm addr).any Pte.isMinimem) = true) :
    zapPage env mm ⟨k, ⟨vaddrs, cap, j⟩, false⟩ addr =
      if vaddrs.length ≥ cap then
        if env.krealloc j then
          ⟨k.setPteAt mm addr .empty, ⟨vaddrs ++ [pageMask addr], cap * 2, j + 1⟩, false⟩
        else ⟨k.setPteAt mm addr .empty, ⟨vaddrs, cap * 2, j + 1⟩, true⟩
      else ⟨k.setPteAt mm addr .empty, ⟨vaddrs ++ [pageMask addr], cap, j⟩, false⟩ := by
  rw [Bool.and_eq_true] at h
  obtain ⟨hlock, hany⟩ := h
  rw [zapPage, if_neg Bool.false_ne_true, if_pos hlock]
  cases hfound : k.pteAt mm addr with
  | none =>
      rw [hfound] at hany
      cases hany
  | some pte =>
      rw [hfound, Option.any_some] at hany
      dsimp only
      rw [hany, if_neg Bool.true_eq_false_eq_False]

/-- One page of the walk. -/
theorem ZapWalked.zapPage {env : ZapEnv} {k : Kernel} {mm addr : Nat} {done : List Nat}
    {s : ZapState} (h : ZapWalked env k mm (zapMarkers env k mm done) s)
    (hnew : vaddrToIndex addr ∉ done.map vaddrToIndex) :
    ZapWalked env k mm (zapMarkers env k mm (done ++ [addr])) (MiniMem.zapPage env mm s addr) := by
  have happend : zapMarkers env k mm (done ++ [addr]) = zapMarkers env k mm done ++
      if env.lock addr && (k.pteAt mm addr).any Pte.isMinimem then [addr] else [] := by
    rw [zapMarkers, List.filter_append, List.filter_singleton, Bool.cond_eq_ite]
    rfl
  have hnotin : vaddrToIndex addr ∉ (zapMarkers env k mm done).map vaddrToIndex :=
    fun hin => hnew ((List.filter_sublist.map vaddrToIndex).subset hin)
  rw [happend]
  generalize zapMarkers env k mm done = markers at h hnotin ⊢
  cases h with
  | @cut j hgrown hfail hlong =>
      rw [MiniMem.zapPage, if_pos rfl]
      have hcut := @ZapWalked.cut env k mm (markers ++
        if env.lock addr && (k.pteAt mm addr).any Pte.isMinimem then [addr] else []) j hgrown hfail
        (by rw [List.length_append]; omega)
      rwa [List.take_append_of_le_length (by omega), List.take_append_of_le_length (by omega)]
        at hcut
  | @going j hgrown hfit =>
      have hpte : (k.clearPtes mm markers).pteAt mm addr = k.pteAt mm addr := by
        rw [(clearPtes_keeps k mm markers).2.2, if_neg hnotin]
      cases hmarker : env.lock addr && (k.pteAt mm addr).any Pte.isMinimem with
      | false =>
          rw [zapPage_of_not_marker (by rw [hpte]; exact hmarker), if_neg Bool.false_ne_true,
            List.append_nil]
          exact .going hgrown hfit
      | true =>
          rw [zapPage_of_marker (by rw [hpte]; exact hmarker), if_pos rfl, ← clearPtes_append,
            List.length_map, ← List.map_singleton, ← List.map_append]
          by_cases hfull : markers.length ≥ 256 * 2 ^ j
          swap
          · rw [if_neg hfull]
            exact .going hgrown (by rw [List.length_append, List.length_singleton]; omega)
          rw [if_pos hfull]
          have hlen : markers.length = 256 * 2 ^ j := Nat.le_antisymm hfit hfull
          cases hrealloc : env.krealloc j with
          | true =>
              rw [if_pos rfl, Nat.mul_assoc, ← Nat.pow_succ]
              refine .going (fun i hi => ?_) ?_
              · obtain rfl | hlt := Nat.eq_or_lt_of_le (Nat.lt_succ_iff.1 hi)
                · exact hrealloc
                · exact hgrown i hlt
              · have := Nat.two_pow_pos j
                rw [List.length_append, List.length_singleton, hlen, Nat.pow_succ]
                omega
          | false =>
              rw [if_neg Bool.false_ne_true]
              have hcut := @ZapWalked.cut env k mm (markers ++ [addr]) j hgrown hrealloc
                (by rw [List.length_append, List.length_singleton]; omega)
              rwa [List.take_of_length_le (by
                rw [List.length_append, List.length_singleton]; omega),
                ← hlen, take_append_of_length rfl, hlen] at hcut

/-- **The walk**: over pages that are all different. -/
theorem zapWalked_foldl (env : ZapEnv) (k : Kernel) (mm : Nat) {addrs : List Nat}
    (h : (addrs.map vaddrToIndex).Nodup) :
    ZapWalked env k mm (zapMarkers env k mm addrs)
      (addrs.foldl (zapPage env mm) ⟨k, ⟨[], 256, 0⟩, false⟩) := by
  induction addrs using List.reverseRecOn with
  | nil =>
      exact @ZapWalked.going env k mm [] 0 (fun i hi => absurd hi (Nat.not_lt_zero i))
        (Nat.zero_le _)
  | append_singleton done addr ih =>
      rw [List.map_append, List.nodup_append] at h
      rw [List.foldl_append]
      refine (ih h.1).zapPage fun hin => ?_
      exact h.2.2 _ hin _ (List.mem_singleton.2 rfl) rfl

/-! ## Removing -/

/-- What the loop behind `remove:` leaves of the entries at the given addresses, and how many of
them it counts. -/
structure ZapRemoved (k : Kernel) (vaddrs : List Nat) (n : Nat) (k' : Kernel) : Prop where
  load : ∀ i, k'.map.entries.load i =
    if i ∈ vaddrs.map vaddrToIndex then none else k.map.entries.load i
  freed : ∀ vaddr ∈ vaddrs, ∀ entry, mapLookup k.map vaddr = some entry →
    k'.pool.objs entry.zsHandle = none
  dead : ∀ handle, k.pool.objs handle = none → k'.pool.objs handle = none
  size : k'.map.entries.size + n = k.map.entries.size
  mms : k'.mms = k.mms

/-- One call of `minimem_zswap_remove`. -/
theorem zswapRemove_removed (k : Kernel) (vaddr : Nat) :
    ZapRemoved k [vaddr] (if (zswapRemove k vaddr).1 = 0 then 1 else 0)
      (zswapRemove k vaddr).2 := by
  unfold zswapRemove
  cases hlookup : mapLookup k.map vaddr with
  | none =>
      refine ⟨fun i => ?_, ?_, fun _ h => h, rfl, rfl⟩
      · simp only [List.map_singleton, List.mem_singleton]
        split
        next hi => rw [hi]; exact hlookup
        · rfl
      · intro v hv entry hentry
        rw [List.mem_singleton.1 hv, hlookup] at hentry
        cases hentry
  | some entry =>
      dsimp only
      rw [mapRemove_of_lookup hlookup]
      have hpos := XArray.size_pos_of_load hlookup
      refine ⟨fun i => ?_, ?_, fun handle h => ?_, ?_, rfl⟩
      · simp only [List.map_singleton, List.mem_singleton]
        exact XArray.load_erase _ _ _
      · intro v hv e he
        rw [List.mem_singleton.1 hv, hlookup] at he
        injection he with he
        rw [← he]
        exact (objs_free _ _ _).trans (if_pos rfl)
      · refine (objs_free _ _ _).trans ?_
        split
        · rfl
        · exact h
      · show (k.map.entries.erase (vaddrToIndex vaddr)).size + 1 = _
        have hload : k.map.entries.load (vaddrToIndex vaddr) ≠ none := by
          rw [mapLookup] at hlookup
          rw [hlookup]
          exact Option.some_ne_none _
        rw [XArray.size_erase, if_neg hload]
        omega

/-- **Removing**: the loop over the collected addresses. -/
theorem zapRemove_removed (vaddrs : List Nat) (freed : Nat) (k : Kernel) :
    ∃ n, (zapRemove vaddrs (freed, k)).1 = freed + n ∧
      ZapRemoved k vaddrs n (zapRemove vaddrs (freed, k)).2 := by
  induction vaddrs generalizing freed k with
  | nil => exact ⟨0, rfl, fun _ => rfl, nofun, fun _ h => h, rfl, rfl⟩
  | cons vaddr vaddrs ih =>
      have hone := zswapRemove_removed k vaddr
      rw [zapRemove]
      generalize zswapRemove k vaddr = step at hone ⊢
      obtain ⟨ret, k₁⟩ := step
      dsimp only at hone ⊢
      obtain ⟨n, hret, hrest⟩ := ih (if ret = 0 then freed + 1 else freed) k₁
      refine ⟨(if ret = 0 then 1 else 0) + n, ?_, ?_, ?_, ?_, ?_, ?_⟩
      · rw [hret]
        split <;> omega
      · intro i
        rw [hrest.load, hone.load]
        by_cases htail : i ∈ vaddrs.map vaddrToIndex
        · have hmem : i ∈ (vaddr :: vaddrs).map vaddrToIndex := List.mem_cons_of_mem _ htail
          rw [if_pos htail, if_pos hmem]
        · rw [if_neg htail]
          exact if_congr (by simp only [List.map_cons, List.mem_cons, htail, or_false,
            List.map_nil, List.not_mem_nil]) rfl rfl
      · intro v hv entry hentry
        by_cases hsame : vaddrToIndex v = vaddrToIndex vaddr
        · refine hrest.dead _ (hone.freed vaddr List.mem_cons_self entry ?_)
          rw [mapLookup, ← hsame]
          exact hentry
        · obtain rfl | hv := List.mem_cons.1 hv
          · exact absurd rfl hsame
          · refine hrest.freed v hv entry ?_
            rw [mapLookup, hone.load, if_neg (by simpa using hsame)]
            exact hentry
      · exact fun handle h => hrest.dead handle (hone.dead handle h)
      · have := hrest.size
        have := hone.size
        omega
      · rw [hrest.mms, hone.mms]

/-! ## Cleaning up -/

/-- Every allocation of `minimem_zap_range` succeeds. -/
def ZapEnv.Allocates (env : ZapEnv) : Prop := env.kmalloc = true ∧ ∀ j, env.krealloc j = true

/-- The pages that `minimem_zap_range` comes to. -/
def zapWalk (k : Kernel) (mm start stop : Nat) : List Nat :=
  zapAddrs start stop ((k.mms mm).vmas.filter fun vma => decide (start < vma.stop))

/-- A complete clean-up: each marker that goes takes its entry and its object with it, what is
returned is the number of entries that go, and with memory enough no marker stays in a VMA. -/
structure ZapCleansUp (env : ZapEnv) (k : Kernel) (mm start stop : Nat) : Prop where
  cleared : ∀ addr, MarkerAt k mm addr → ¬MarkerAt (zapRange env k mm start stop).2 mm addr →
    mapLookup (zapRange env k mm start stop).2.map addr = none ∧
      ∀ entry, mapLookup k.map addr = some entry →
        (zapRange env k mm start stop).2.pool.objs entry.zsHandle = none
  entries : ∀ addr entry, mapLookup k.map addr = some entry →
    mapLookup (zapRange env k mm start stop).2.map addr = some entry ∨
      mapLookup (zapRange env k mm start stop).2.map addr = none ∧
        (zapRange env k mm start stop).2.pool.objs entry.zsHandle = none
  count : (zapRange env k mm start stop).2.map.entries.size + (zapRange env k mm start stop).1 =
    k.map.entries.size
  complete : env.Allocates → ∀ vma ∈ (k.mms mm).vmas, ∀ addr, pageSize ∣ addr →
    vma.start ≤ addr → addr < vma.stop → start ≤ addr → addr < stop →
      ¬MarkerAt (zapRange env k mm start stop).2 mm addr

/-- What the page tables and the map must be like: the marker at which the growth of the array
fails has no entry, and if none fails, no marker lies where the walk does not come to it. -/
structure ZapCovered (env : ZapEnv) (k : Kernel) (mm start stop : Nat) : Prop where
  cut : env.kmalloc = true → ∀ j, (∀ i < j, env.krealloc i = true) → env.krealloc j = false →
    ∀ addr, (zapMarkers env k mm (zapWalk k mm start stop))[256 * 2 ^ j]? = some addr →
      mapLookup k.map addr = none
  visited : env.Allocates → ∀ vma ∈ (k.mms mm).vmas, ∀ addr, pageSize ∣ addr →
    vma.start ≤ addr → addr < vma.stop → start ≤ addr → addr < stop → MarkerAt k mm addr →
      vma.zapSkipped = false ∧ env.lock addr = true

theorem markerAt_iff {k : Kernel} {mm addr : Nat} :
    MarkerAt k mm addr ↔ (k.pteAt mm addr).any Pte.isMinimem = true := by
  rw [MarkerAt]
  cases k.pteAt mm addr with
  | none => simp
  | some pte => cases pte <;> simp [Pte.isMinimem]

theorem VmasOk.eq_of_mem {vmas : List Vma} (h : VmasOk vmas) {v w : Vma} {x : Nat} (hv : v ∈ vmas)
    (hw : w ∈ vmas) (hvx : v.start ≤ x ∧ x < v.stop) (hwx : w.start ≤ x ∧ x < w.stop) : v = w := by
  by_contra hne
  have hdisjoint : vmas.Pairwise fun v w => v.stop ≤ w.start ∨ w.stop ≤ v.start :=
    h.ascending.imp .inl
  have : Std.Symm fun v w : Vma => v.stop ≤ w.start ∨ w.stop ≤ v.start := ⟨fun _ _ h => h.symm⟩
  have := hdisjoint.forall hv hw hne
  omega

/-- What a call with room for a first array leaves, by the addresses that it has collected and
those that it has cleared. -/
structure ZapOutcome (env : ZapEnv) (k : Kernel) (mm start stop : Nat)
    (collected cleared : List Nat) : Prop where
  load : ∀ i, (zapRange env k mm start stop).2.map.entries.load i =
    if i ∈ collected.map vaddrToIndex then none else k.map.entries.load i
  freed : ∀ addr ∈ collected, ∀ entry, mapLookup k.map addr = some entry →
    (zapRange env k mm start stop).2.pool.objs entry.zsHandle = none
  size : (zapRange env k mm start stop).2.map.entries.size + (zapRange env k mm start stop).1 =
    k.map.entries.size
  pte : ∀ x, (zapRange env k mm start stop).2.pteAt mm x =
    if vaddrToIndex x ∈ cleared.map vaddrToIndex then some .empty else k.pteAt mm x

theorem zapOutcome_of_walked {env : ZapEnv} {k : Kernel} {mm start stop : Nat}
    {collected cleared : List Nat} {s : ZapState} (hkmalloc : env.kmalloc = true)
    (hs : (zapWalk k mm start stop).foldl (zapPage env mm) ⟨k, ⟨[], 256, 0⟩, false⟩ = s)
    (hkernel : s.kernel = k.clearPtes mm cleared)
    (hvaddrs : s.buf.vaddrs = collected.map pageMask) :
    ZapOutcome env k mm start stop collected cleared := by
  have hrun : zapRange env k mm start stop = zapRemove s.buf.vaddrs (0, s.kernel) := by
    rw [zapWalk] at hs
    rw [zapRange, if_neg (by rw [hkmalloc]; decide)]
    dsimp only
    rw [zapVmas_eq_foldl, hs]
  obtain ⟨hmap, hpool, hpte⟩ := clearPtes_keeps k mm cleared
  obtain ⟨n, hret, hremoved⟩ := zapRemove_removed s.buf.vaddrs 0 s.kernel
  rw [← hrun] at hret hremoved
  have hindices : (collected.map pageMask).map vaddrToIndex = collected.map vaddrToIndex := by
    rw [List.map_map]
    exact List.map_congr_left fun x _ => vaddrToIndex_pageMask x
  refine ⟨fun i => ?_, fun addr hmem entry hentry => ?_, ?_, fun x => ?_⟩
  · rw [hremoved.load, hvaddrs, hindices, hkernel, hmap]
  · refine hremoved.freed (pageMask addr) ?_ entry ?_
    · rw [hvaddrs]
      exact List.mem_map_of_mem hmem
    · rw [mapLookup_pageMask, hkernel, hmap]
      exact hentry
  · have hsize := hremoved.size
    rw [hkernel, hmap] at hsize
    rw [hret]
    omega
  · rw [Kernel.pteAt, hremoved.mms, ← Kernel.pteAt, hkernel, hpte]

theorem mem_zapWalk {k : Kernel} {mm start stop x : Nat} (hvmas : VmasOk (k.mms mm).vmas)
    (hstart : pageSize ∣ start) :
    x ∈ zapWalk k mm start stop ↔ pageSize ∣ x ∧ start ≤ x ∧ x < stop ∧
      ∃ vma ∈ (k.mms mm).vmas, vma.zapSkipped = false ∧ vma.start ≤ x ∧ x < vma.stop := by
  rw [zapWalk, mem_zapAddrs (hvmas.filter _) hstart]
  refine and_congr_right fun _ => and_congr_right fun hlow => and_congr_right fun _ => ?_
  constructor
  · rintro ⟨v, hv, hx⟩
    exact ⟨v, List.mem_of_mem_filter hv, hx⟩
  · rintro ⟨v, hv, hskip, hx⟩
    exact ⟨v, List.mem_filter.2 ⟨hv, decide_eq_true (by omega)⟩, hskip, hx⟩

theorem mem_zapMarkers {env : ZapEnv} {k : Kernel} {mm x : Nat} {addrs : List Nat} :
    x ∈ zapMarkers env k mm addrs ↔ x ∈ addrs ∧ env.lock x = true ∧ MarkerAt k mm x := by
  rw [zapMarkers, List.mem_filter, Bool.and_eq_true, markerAt_iff]

/-- The pages of the walk are all different. -/
theorem nodup_zapWalk {k : Kernel} {mm start stop : Nat} (hvmas : VmasOk (k.mms mm).vmas)
    (hstart : pageSize ∣ start) : ((zapWalk k mm start stop).map vaddrToIndex).Nodup := by
  refine List.Nodup.map_on (fun x hx y hy h => ?_) ?_
  · exact vaddrToIndex_inj ((mem_zapWalk hvmas hstart).1 hx).1
      ((mem_zapWalk hvmas hstart).1 hy).1 h
  · exact (zapAddrs_pairwise (hvmas.filter _) hstart).imp fun h => Nat.ne_of_lt h

/-- **Outcomes**: the call collects and clears every marker that it finds, or stops at the first
growth that fails, with one more cleared than collected. -/
theorem zapRange_outcome {env : ZapEnv} {k : Kernel} {mm start stop : Nat}
    (hkmalloc : env.kmalloc = true) (hvmas : VmasOk (k.mms mm).vmas) (hstart : pageSize ∣ start) :
    (∃ j, (∀ i < j, env.krealloc i = true) ∧
        (zapMarkers env k mm (zapWalk k mm start stop)).length ≤ 256 * 2 ^ j ∧
        ZapOutcome env k mm start stop (zapMarkers env k mm (zapWalk k mm start stop))
          (zapMarkers env k mm (zapWalk k mm start stop))) ∨
      ∃ j addr, (∀ i < j, env.krealloc i = true) ∧ env.krealloc j = false ∧
        (zapMarkers env k mm (zapWalk k mm start stop))[256 * 2 ^ j]? = some addr ∧
        ZapOutcome env k mm start stop
          ((zapMarkers env k mm (zapWalk k mm start stop)).take (256 * 2 ^ j))
          ((zapMarkers env k mm (zapWalk k mm start stop)).take (256 * 2 ^ j) ++ [addr]) := by
  have hwalked := zapWalked_foldl env k mm (@nodup_zapWalk k mm start stop hvmas hstart)
  generalize hs : (zapWalk k mm start stop).foldl (zapPage env mm) ⟨k, ⟨[], 256, 0⟩, false⟩ = s
    at hwalked
  cases hwalked with
  | @going j hgrown hfit => exact .inl ⟨j, hgrown, hfit, zapOutcome_of_walked hkmalloc hs rfl rfl⟩
  | @cut j hgrown hfail hlong =>
      refine .inr ⟨j, _, hgrown, hfail, List.getElem?_eq_getElem hlong, ?_⟩
      rw [List.take_append_getElem]
      exact zapOutcome_of_walked hkmalloc hs rfl rfl

namespace ZapOutcome

variable {env : ZapEnv} {k : Kernel} {mm start stop : Nat} {collected cleared : List Nat}

/-- The markers that are left. -/
theorem markerAt (h : ZapOutcome env k mm start stop collected cleared) {x : Nat} :
    MarkerAt (zapRange env k mm start stop).2 mm x ↔
      MarkerAt k mm x ∧ vaddrToIndex x ∉ cleared.map vaddrToIndex := by
  rw [MarkerAt, h.pte]
  by_cases hx : vaddrToIndex x ∈ cleared.map vaddrToIndex
  · simp [hx]
  · simp only [hx, if_false, not_false_eq_true, and_true]
    exact Iff.rfl

/-- A collected marker has lost its entry and its object. -/
theorem of_collected (h : ZapOutcome env k mm start stop collected cleared) {x : Nat}
    (hx : vaddrToIndex x ∈ collected.map vaddrToIndex) :
    mapLookup (zapRange env k mm start stop).2.map x = none ∧
      ∀ entry, mapLookup k.map x = some entry →
        (zapRange env k mm start stop).2.pool.objs entry.zsHandle = none := by
  refine ⟨(h.load _).trans (if_pos hx), fun entry hentry => ?_⟩
  obtain ⟨addr, haddr, hidx⟩ := List.mem_map.1 hx
  refine h.freed addr haddr entry ?_
  rw [mapLookup, hidx]
  exact hentry

theorem of_not_collected (h : ZapOutcome env k mm start stop collected cleared) {x : Nat}
    (hx : vaddrToIndex x ∉ collected.map vaddrToIndex) :
    mapLookup (zapRange env k mm start stop).2.map x = mapLookup k.map x :=
  (h.load _).trans (if_neg hx)

end ZapOutcome

section CleanUp

variable {env : ZapEnv} {k : Kernel} {mm start stop : Nat}

/-- Without a first array nothing is done. -/
theorem zapRange_of_not_kmalloc (h : env.kmalloc = false) :
    zapRange env k mm start stop = (0, k) := by
  rw [zapRange, if_pos h]

/-- The entries that go are counted, and their objects go with them. -/
theorem zapRange_entries (hvmas : VmasOk (k.mms mm).vmas) (hstart : pageSize ∣ start) :
    (∀ addr entry, mapLookup k.map addr = some entry →
      mapLookup (zapRange env k mm start stop).2.map addr = some entry ∨
        mapLookup (zapRange env k mm start stop).2.map addr = none ∧
          (zapRange env k mm start stop).2.pool.objs entry.zsHandle = none) ∧
      (zapRange env k mm start stop).2.map.entries.size + (zapRange env k mm start stop).1 =
        k.map.entries.size := by
  cases hkmalloc : env.kmalloc with
  | false =>
      rw [zapRange_of_not_kmalloc hkmalloc]
      exact ⟨fun _ _ h => .inl h, rfl⟩
  | true =>
      have hany : ∃ collected cleared, ZapOutcome env k mm start stop collected cleared := by
        obtain ⟨j, -, -, h⟩ | ⟨j, addr, -, -, -, h⟩ :=
          @zapRange_outcome env k mm start stop hkmalloc hvmas hstart
        · exact ⟨_, _, h⟩
        · exact ⟨_, _, h⟩
      obtain ⟨collected, cleared, h⟩ := hany
      refine ⟨fun addr entry hentry => ?_, h.size⟩
      by_cases hx : vaddrToIndex addr ∈ collected.map vaddrToIndex
      · exact .inr ⟨(h.of_collected hx).1, (h.of_collected hx).2 entry hentry⟩
      · exact .inl ((h.of_not_collected hx).trans hentry)

/-- What a list with different keys holds at a position is not among what it holds before. -/
theorem not_mem_take_of_getElem? {l : List Nat} {n x : Nat} (h : (l.map vaddrToIndex).Nodup)
    (hget : l[n]? = some x) : vaddrToIndex x ∉ (l.take n).map vaddrToIndex := by
  obtain ⟨hlt, hval⟩ := List.getElem?_eq_some_iff.1 hget
  rw [← List.take_append_drop n l, List.map_append, List.nodup_append] at h
  refine fun hin => h.2.2 _ hin _ (List.mem_map_of_mem ?_) rfl
  rw [List.drop_eq_getElem_cons hlt, hval]
  exact List.mem_cons_self

/-- Only one call of `krealloc` is the first that fails. -/
theorem ZapEnv.failure_unique {j j' : Nat} (hgrown : ∀ i < j, env.krealloc i = true)
    (hfail : env.krealloc j = false) (hgrown' : ∀ i < j', env.krealloc i = true)
    (hfail' : env.krealloc j' = false) : j' = j := by
  obtain hlt | heq | hlt := Nat.lt_trichotomy j' j
  · rw [hgrown j' hlt] at hfail'
    cases hfail'
  · exact heq
  · rw [hgrown' j hlt] at hfail
    cases hfail

/-- Where one marker `addr` is cleared and not collected, the others that go take their entries
with them, and `addr` is clean if it had none. -/
theorem ZapOutcome.cleared_iff_of_cut {collected : List Nat} {addr : Nat}
    (h : ZapOutcome env k mm start stop collected (collected ++ [addr]))
    (haddr : MarkerAt k mm addr) (hout : vaddrToIndex addr ∉ collected.map vaddrToIndex) :
    (∀ x, MarkerAt k mm x → ¬MarkerAt (zapRange env k mm start stop).2 mm x →
      mapLookup (zapRange env k mm start stop).2.map x = none ∧
        ∀ entry, mapLookup k.map x = some entry →
          (zapRange env k mm start stop).2.pool.objs entry.zsHandle = none) ↔
      mapLookup k.map addr = none := by
  constructor
  · intro hclean
    have hgone : ¬MarkerAt (zapRange env k mm start stop).2 mm addr := by
      rw [h.markerAt]
      exact fun hleft => hleft.2 (List.mem_map_of_mem (by simp))
    rw [← h.of_not_collected hout]
    exact (hclean addr haddr hgone).1
  · intro hnone x hx hgone
    rw [h.markerAt] at hgone
    have hin := not_not.1 fun hout => hgone ⟨hx, hout⟩
    rw [List.map_append, List.mem_append, List.map_singleton, List.mem_singleton] at hin
    obtain hin | hin := hin
    · exact h.of_collected hin
    · have hxnone : mapLookup k.map x = none := by
        rw [mapLookup, hin]
        exact hnone
      refine ⟨?_, fun entry hentry => ?_⟩
      · rw [h.of_not_collected (by rw [hin]; exact hout), hxnone]
      · rw [hxnone] at hentry
        cases hentry

/-- The markers that go take their entries with them unless the array cannot grow. -/
theorem zapRange_cleared_iff (hvmas : VmasOk (k.mms mm).vmas) (hstart : pageSize ∣ start) :
    (∀ addr, MarkerAt k mm addr → ¬MarkerAt (zapRange env k mm start stop).2 mm addr →
      mapLookup (zapRange env k mm start stop).2.map addr = none ∧
        ∀ entry, mapLookup k.map addr = some entry →
          (zapRange env k mm start stop).2.pool.objs entry.zsHandle = none) ↔
      (env.kmalloc = true → ∀ j, (∀ i < j, env.krealloc i = true) → env.krealloc j = false →
        ∀ addr, (zapMarkers env k mm (zapWalk k mm start stop))[256 * 2 ^ j]? = some addr →
          mapLookup k.map addr = none) := by
  cases hkmalloc : env.kmalloc with
  | false =>
      rw [zapRange_of_not_kmalloc hkmalloc]
      exact iff_of_true (fun addr h hgone => absurd h hgone) nofun
  | true =>
      obtain ⟨j, hgrown, hfit, h⟩ | ⟨j, addr, hgrown, hfail, hget, h⟩ :=
        @zapRange_outcome env k mm start stop hkmalloc hvmas hstart
      · -- the array grows as often as it has to
        refine iff_of_true (fun x hx hgone => ?_) fun _ j' _ hfail addr hget => ?_
        · rw [h.markerAt] at hgone
          exact h.of_collected (not_not.1 fun hout => hgone ⟨hx, hout⟩)
        · have hle : j ≤ j' := Nat.le_of_not_lt fun hlt => by
            rw [hgrown j' hlt] at hfail
            cases hfail
          have hroom : 256 * 2 ^ j ≤ 256 * 2 ^ j' :=
            Nat.mul_le_mul_left _ (Nat.pow_le_pow_right (by decide) hle)
          rw [List.getElem?_eq_none (Nat.le_trans hfit hroom)] at hget
          cases hget
      · -- the marker `addr` is cleared and not collected
        have hnodup : ((zapMarkers env k mm (zapWalk k mm start stop)).map vaddrToIndex).Nodup :=
          (nodup_zapWalk hvmas hstart).sublist (List.filter_sublist.map _)
        have haddr : MarkerAt k mm addr := (mem_zapMarkers.1 (List.mem_of_getElem? hget)).2.2
        rw [h.cleared_iff_of_cut haddr (not_mem_take_of_getElem? hnodup hget)]
        constructor
        · intro hnone _ j' hgrown' hfail' addr' hget'
          obtain rfl := ZapEnv.failure_unique hgrown hfail hgrown' hfail'
          rw [hget] at hget'
          injection hget' with hget'
          rwa [← hget']
        · exact fun hnone => hnone rfl j hgrown hfail addr hget

/-- With memory enough the markers that stay are those that the walk does not come to. -/
theorem markerAt_zapRange (halloc : env.Allocates) (hvmas : VmasOk (k.mms mm).vmas)
    (hstart : pageSize ∣ start) {x : Nat} (hx : pageSize ∣ x) :
    MarkerAt (zapRange env k mm start stop).2 mm x ↔
      MarkerAt k mm x ∧ (x ∈ zapWalk k mm start stop → env.lock x = false) := by
  obtain ⟨j, -, -, h⟩ | ⟨j, addr, -, hfail, -, -⟩ :=
    @zapRange_outcome env k mm start stop halloc.1 hvmas hstart
  swap
  · rw [halloc.2 j] at hfail
    cases hfail
  rw [h.markerAt]
  refine and_congr_right fun hmarker => ?_
  rw [← not_iff_not, not_not, Classical.not_imp, Bool.not_eq_false]
  constructor
  · intro hin
    obtain ⟨y, hy, hidx⟩ := List.mem_map.1 hin
    obtain ⟨hwalk, hlock, -⟩ := mem_zapMarkers.1 hy
    obtain rfl := vaddrToIndex_inj ((mem_zapWalk hvmas hstart).1 hwalk).1 hx hidx
    exact ⟨hwalk, hlock⟩
  · rintro ⟨hwalk, hlock⟩
    exact List.mem_map_of_mem (mem_zapMarkers.2 ⟨hwalk, hlock, hmarker⟩)

theorem zapRange_complete_iff (hvmas : VmasOk (k.mms mm).vmas) (hstart : pageSize ∣ start) :
    (env.Allocates → ∀ vma ∈ (k.mms mm).vmas, ∀ addr, pageSize ∣ addr →
      vma.start ≤ addr → addr < vma.stop → start ≤ addr → addr < stop →
        ¬MarkerAt (zapRange env k mm start stop).2 mm addr) ↔
      (env.Allocates → ∀ vma ∈ (k.mms mm).vmas, ∀ addr, pageSize ∣ addr →
        vma.start ≤ addr → addr < vma.stop → start ≤ addr → addr < stop → MarkerAt k mm addr →
          vma.zapSkipped = false ∧ env.lock addr = true) := by
  refine forall_congr' fun halloc => forall₂_congr fun vma hvma => ?_
  refine forall₂_congr fun addr halign => ?_
  refine forall₂_congr fun hlow hhigh => forall₂_congr fun hstart' hstop' => ?_
  rw [markerAt_zapRange halloc hvmas hstart halign, not_and, Classical.not_imp, Bool.not_eq_false,
    mem_zapWalk hvmas hstart]
  refine forall_congr' fun _ => and_congr_left fun _ => ?_
  constructor
  · rintro ⟨-, -, -, w, hw, hskip, hin⟩
    rwa [hvmas.eq_of_mem hvma hw ⟨hlow, hhigh⟩ hin]
  · exact fun hskip => ⟨halign, hstart', hstop', vma, hvma, hskip, hlow, hhigh⟩

/-- **Clean-up**: exactly when the marker at a failed growth has no entry, and no marker lies in
a VMA that the walk passes over. -/
theorem zapCleansUp_iff (hvmas : VmasOk (k.mms mm).vmas) (hstart : pageSize ∣ start) :
    ZapCleansUp env k mm start stop ↔ ZapCovered env k mm start stop := by
  obtain ⟨hentries, hcount⟩ := @zapRange_entries env k mm start stop hvmas hstart
  exact ⟨fun h => ⟨(zapRange_cleared_iff hvmas hstart).1 h.cleared,
      (zapRange_complete_iff hvmas hstart).1 h.complete⟩,
    fun h => ⟨(zapRange_cleared_iff hvmas hstart).2 h.cut, hentries, hcount,
      (zapRange_complete_iff hvmas hstart).2 h.visited⟩⟩

end CleanUp

/-! ## Two failures -/

/-- Address space 0 maps a page of ones at `0x1000`, in a VMA that is shared or not. -/
def onePageVma (shared : Bool) : Kernel :=
  .loaded
    (fun mm => ⟨fun vpn => if mm = 0 ∧ vpn = 1 then some (.present 0 true true true) else none,
      [⟨0x1000, 0x2000, true, true, shared, false, false, false⟩], 1⟩)
    ⟨fun _ => Page.fill 1, fun _ => 1, 1⟩ 0 0 true

/-- `compress_vaddr` compresses the page in either VMA. -/
theorem compress_onePageVma (shared : Bool) :
    compressAndReplacePte samePageCodec .ok (onePageVma shared) 0 0x1000
      = (0, (onePageVma shared).replaced 0 0x1000 0 .samePage [1]) :=
  compressAndReplacePte_fill (fun _ _ => rfl) rfl rfl rfl rfl

theorem vmasOk_onePageVma (shared : Bool) :
    VmasOk [⟨0x1000, 0x2000, true, true, shared, false, false, false⟩] where
  aligned := by simp [pageSize]
  nonempty := by simp
  ascending := List.pairwise_singleton _ _

theorem zapCleansUp_onePageVma :
    ZapCleansUp .ok ((onePageVma false).replaced 0 0x1000 0 .samePage [1]) 0 0 ulongMax := by
  refine (zapCleansUp_iff (vmasOk_onePageVma false) (Nat.dvd_zero _)).2 ⟨?_, ?_⟩
  · rintro - j - hfail
    cases hfail
  · rintro - vma hvma - - - - - - -
    have hvma : vma ∈ [(⟨0x1000, 0x2000, true, true, false, false, false, false⟩ : Vma)] := hvma
    obtain rfl := List.mem_singleton.1 hvma
    exact ⟨rfl, rfl⟩

/-- 257 compressed pages, one more than the first array has room for. -/
def fullArray : Kernel :=
  { Kernel.loaded
      (fun _ => ⟨fun vpn => if vpn < 257 then some (.marker vpn) else none,
        [⟨0, 257 * pageSize, true, true, false, false, false, false⟩], 0⟩)
      ⟨fun _ => Page.fill 1, fun _ => 0, 0⟩ 0 0 true with
    pool := ⟨fun handle => if 0 < handle ∧ handle ≤ 257 then some [1] else none, 258⟩
    map := ⟨((List.range 256).foldl (fun x i => x.store i ⟨.samePage, 1, i + 1⟩)
      (∅ : XArray MapEntry)).store 256 ⟨.samePage, 1, 257⟩, 257⟩ }

theorem vmasOk_fullArray :
    VmasOk [⟨0, 257 * pageSize, true, true, false, false, false, false⟩] where
  aligned := by simp
  nonempty := by simp [pageSize]
  ascending := List.pairwise_singleton _ _

/-- The marker of a shared page stays behind, and one `krealloc` that fails strands an entry
whose marker is gone. -/
theorem not_zapCleansUp :
    ¬ZapCleansUp .ok
        (compressAndReplacePte samePageCodec .ok (onePageVma true) 0 0x1000).2 0 0 ulongMax ∧
      ¬ZapCleansUp ⟨true, fun _ => false, fun _ => true⟩ fullArray 0 0 ulongMax := by
  constructor
  · intro h
    rw [compress_onePageVma] at h
    have hmarker : MarkerAt ((onePageVma true).replaced 0 0x1000 0 .samePage [1]) 0 0x1000 :=
      ⟨1, rfl⟩
    have hcovered := (zapRange_complete_iff (vmasOk_onePageVma true) (Nat.dvd_zero _)).1 h.complete
      ⟨rfl, fun _ => rfl⟩ _ (List.mem_singleton.2 rfl) 0x1000 (by decide) (by decide) (by decide)
      (by decide) (by decide) hmarker
    cases hcovered.1
  · intro h
    have hget : (zapMarkers ⟨true, fun _ => false, fun _ => true⟩ fullArray 0
        (zapWalk fullArray 0 0 ulongMax))[256 * 2 ^ 0]? = some (256 * pageSize) := by
      decide +kernel
    have hnone := (zapRange_cleared_iff vmasOk_fullArray (Nat.dvd_zero _)).1 h.cleared rfl 0
      (fun i hi => absurd hi (Nat.not_lt_zero i)) rfl _ hget
    rw [mapLookup, show vaddrToIndex (256 * pageSize) = 256 from rfl, fullArray] at hnone
    rw [XArray.load_store_self] at hnone
    cases hnone

end MiniMem
