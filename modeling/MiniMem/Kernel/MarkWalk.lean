import MiniMem.Resume
import MiniMem.Kernel.Scanner

/-!
# MiniMem.Kernel.MarkWalk

The mark pass inside one address space, page by page and VMA by VMA: what has
been marked when a budget is used up, and where the cursor is left.
-/

namespace MiniMem

/-! ## Addresses -/

theorem pagesFrom_of_le {start stop : Nat} (h : stop ≤ start) : pagesFrom start stop = [] := by
  have hnone : (stop - start + (pageSize - 1)) / pageSize = 0 := by
    simp only [pageSize]
    omega
  rw [pagesFrom, hnone]
  rfl

theorem pagesFrom_of_lt {start stop : Nat} (h : start < stop) :
    pagesFrom start stop = start :: pagesFrom (start + pageSize) stop := by
  have hcount : (stop - start + (pageSize - 1)) / pageSize =
      (stop - (start + pageSize) + (pageSize - 1)) / pageSize + 1 := by
    simp only [pageSize]
    omega
  rw [pagesFrom, hcount, List.range_succ_eq_map, List.map_cons, List.map_map, pagesFrom]
  simp only [Nat.zero_mul, Nat.add_zero, List.cons.injEq, true_and]
  apply List.map_congr_left
  intro i _
  simp only [Function.comp_apply, Nat.succ_eq_add_one, pageSize]
  omega

/-- In a VMA of whole pages the walk arrives at its end. -/
theorem pagesEnd_eq {start stop : Nat} (hstart : pageSize ∣ start) (hstop : pageSize ∣ stop)
    (h : start ≤ stop) : pagesEnd start stop = stop := by
  obtain ⟨m, rfl⟩ := hstart
  obtain ⟨n, rfl⟩ := hstop
  have hcount : (pageSize * n - pageSize * m + (pageSize - 1)) / pageSize = n - m := by
    simp only [pageSize]
    omega
  rw [pagesEnd, pagesFrom, List.length_map, List.length_range, hcount]
  simp only [pageSize] at h ⊢
  omega

theorem mem_pagesFrom {start stop x : Nat} (hstart : pageSize ∣ start) :
    x ∈ pagesFrom start stop ↔ start ≤ x ∧ x < stop ∧ pageSize ∣ x := by
  obtain ⟨m, rfl⟩ := hstart
  rw [pagesFrom, List.mem_map]
  simp only [List.mem_range, pageSize]
  constructor
  · rintro ⟨i, hi, rfl⟩
    exact ⟨by omega, by omega, ⟨m + i, by omega⟩⟩
  · rintro ⟨hle, hlt, i, rfl⟩
    exact ⟨i - m, by omega, by omega⟩

/-! ## One VMA -/

/-- The mark pass marks the page at an address. -/
def Markable (bits : Nat → PageBits) (k : Kernel) (mm addr : Nat) : Prop :=
  ∃ pfn write young dirty, k.pteAt mm addr = some (.present pfn write young dirty) ∧
    (bits pfn).compound = false ∧ (bits pfn).anon = true ∧ (bits pfn).lru = true ∧
    (bits pfn).mlocked = false ∧ k.frames.refs pfn ≤ 2

/-- Nobody stops the thread, all locks are obtained, the clock does not go back, and the page
budget is one. -/
structure ScanEnv.Steady (env : ScanEnv) : Prop where
  stop : ∀ tick, env.stop tick = false
  lock : ∀ tick, env.lock tick = true
  clock : ∀ {tick tick' : Nat}, tick ≤ tick' → env.clock tick ≤ env.clock tick'
  budget : 0 < env.markBudgetPages

/-- The budget of time stays used up. -/
theorem ScanEnv.Steady.expired {env : ScanEnv} (henv : env.Steady) {startTime : Int}
    {tick tick' : Nat} (h : tick ≤ tick') (hexpired : cpuBudgetExpired env startTime tick = true) :
    cpuBudgetExpired env startTime tick' = true := by
  rw [cpuBudgetExpired, decide_eq_true_eq] at hexpired ⊢
  refine hexpired.trans ?_
  rw [ktimeMsDelta, ktimeMsDelta]
  have hclock := henv.clock h
  exact Int.tdiv_le_tdiv (by omega) (by omega)

/-- What a mark pass leaves alone. -/
structure MarkKeeps (s s' : Scanner) : Prop where
  kernel : s'.kernel = s.kernel
  sweeping : s'.sweeping = s.sweeping
  cursor : s'.markCursor = s.markCursor

theorem MarkKeeps.trans {s s' s'' : Scanner} (h : MarkKeeps s s') (h' : MarkKeeps s' s'') :
    MarkKeeps s s'' :=
  ⟨h'.kernel.trans h.kernel, h'.sweeping.trans h.sweeping, h'.cursor.trans h.cursor⟩

/-- What one address adds to the variables of `minimem_mark_vma`. -/
structure MarkAdds (s s' : MarkState) (new : List Nat) : Prop where
  keeps : MarkKeeps s.scan s'.scan
  marked : s'.marked = s.marked ++ new
  remaining : s.remaining ≤ s'.remaining + new.length

theorem MarkAdds.trans {s s' s'' : MarkState} {new new' : List Nat} (h : MarkAdds s s' new)
    (h' : MarkAdds s' s'' new') : MarkAdds s s'' (new ++ new') where
  keeps := h.keeps.trans h'.keeps
  marked := by rw [h'.marked, h.marked, List.append_assoc]
  remaining := by
    have hfirst := h.remaining
    have hsecond := h'.remaining
    rw [List.length_append]
    omega

/-- A walk from `a` over `n` addresses that ended at `e`. -/
structure MarkWalk (env : ScanEnv) (startTime : Int) (mm stop n a : Nat) (s : MarkState)
    (e : Nat) (s' : MarkState) (new : List Nat) : Prop where
  le : a ≤ e
  le_stop : e ≤ stop
  aligned : pageSize ∣ e
  adds : MarkAdds s s' new
  enum : Enumerates new fun x => a ≤ x ∧ x < e ∧ pageSize ∣ x ∧
    Markable env.bits s.scan.kernel mm x
  length : new.length ≤ n
  tick_le : s.scan.tick ≤ s'.scan.tick
  tick_le_add : s'.scan.tick ≤ s.scan.tick + n
  tick_eq : e = stop → s'.scan.tick = s.scan.tick + n
  early : e < stop → s'.remaining = 0 ∨ cpuBudgetExpired env startTime s'.scan.tick = true
  goes : a < stop → 0 < s.remaining → s.examined = 0 → a < e

section Pages

variable {env : ScanEnv} (henv : env.Steady)
include henv

/-- One address is marked, or it is not one to be marked. -/
theorem markPage_adds (mm : Nat) (s : MarkState) (addr : Nat) :
    (markPage env mm s addr).scan.tick = s.scan.tick + 1 ∧
      ((Markable env.bits s.scan.kernel mm addr ∧ MarkAdds s (markPage env mm s addr) [addr]) ∨
        (¬Markable env.bits s.scan.kernel mm addr ∧ MarkAdds s (markPage env mm s addr) [])) := by
  unfold markPage
  cases hpage : s.scan.scanPage env mm addr with
  | none =>
      refine ⟨rfl, .inr ⟨?_, ⟨rfl, rfl, rfl⟩, by simp, by simp⟩⟩
      rintro ⟨pfn, write, young, dirty, hpte, hcompound, hanon, hlru, -⟩
      have hsome := scanPage_eq_some.2
        ⟨henv.lock s.scan.tick, ⟨write, young, dirty, hpte⟩, hcompound, hanon, hlru⟩
      rw [hpage] at hsome
      cases hsome
  | some pfn =>
      obtain ⟨-, ⟨write, young, dirty, hpte⟩, hcompound, hanon, hlru⟩ := scanPage_eq_some.1 hpage
      have hsame : Markable env.bits s.scan.kernel mm addr →
          (env.bits pfn).mlocked = false ∧ s.scan.kernel.frames.refs pfn ≤ 2 := by
        rintro ⟨pfn', _, _, _, hpte', -, -, -, hmlocked, hrefs⟩
        rw [hpte] at hpte'
        cases hpte'
        exact ⟨hmlocked, hrefs⟩
      dsimp only
      split
      next hmlocked =>
        refine ⟨rfl, .inr ⟨fun h => ?_, ⟨rfl, rfl, rfl⟩, by simp, by simp⟩⟩
        rw [(hsame h).1] at hmlocked
        cases hmlocked
      next hmlocked =>
        split
        next hrefs =>
          refine ⟨rfl, .inr ⟨fun h => ?_, ⟨rfl, rfl, rfl⟩, by simp, by simp⟩⟩
          have hle := (hsame h).2
          omega
        next hrefs =>
          refine ⟨rfl, .inl ⟨⟨pfn, write, young, dirty, hpte, hcompound, hanon, hlru,
            by simpa using hmlocked, by omega⟩, ⟨rfl, rfl, rfl⟩, rfl, ?_⟩⟩
          simp only [List.length_singleton]
          omega

omit henv in
/-- A walk that ends where it starts marks nothing. -/
theorem enumerates_nil_of_stay {a : Nat} {P : Nat → Prop} :
    Enumerates [] fun x => a ≤ x ∧ x < a ∧ P x :=
  .nil fun x h => by omega

/-- The address at which a walk goes on is marked, or is not one to be marked. -/
theorem MarkWalk.cons {startTime : Int} {mm stop n a e : Nat} {s s' : MarkState}
    {new : List Nat} (ha : pageSize ∣ a) (h : MarkWalk env startTime mm stop n (a + pageSize)
      (markPage env mm s a) e s' new) :
    ∃ new', MarkWalk env startTime mm stop (n + 1) a s e s' new' := by
  obtain ⟨htick, hpage⟩ := markPage_adds henv mm s a
  have hle := h.le
  have hbelow : ∀ x, pageSize ∣ x → a ≤ x → x ≠ a → a + pageSize ≤ x := by
    intro x hx hax hne
    obtain ⟨i, rfl⟩ := ha
    obtain ⟨j, rfl⟩ := hx
    simp only [pageSize] at hax hne ⊢
    omega
  have htick_le := h.tick_le
  have htick_le_add := h.tick_le_add
  rw [htick] at htick_le htick_le_add
  have hpos : 0 < pageSize := by decide
  rcases hpage with ⟨hmarkable, hadds⟩ | ⟨hnot, hadds⟩
  · refine ⟨[a] ++ new, ?_⟩
    have hnew := h.enum
    rw [hadds.keeps.kernel] at hnew
    have hone : Enumerates [a] fun x => x = a := ⟨List.nodup_singleton a, fun x => by simp⟩
    refine ⟨by omega, h.le_stop, h.aligned, hadds.trans h.adds, ?_, ?_, by omega, by omega,
      fun he => ?_, h.early, fun _ _ _ => by omega⟩
    · refine (hone.append hnew fun x hx hx' => by omega).congr fun x => ?_
      constructor
      · rintro (rfl | ⟨hax, hxe, hx, hm⟩)
        · exact ⟨le_refl _, by omega, ha, hmarkable⟩
        · exact ⟨by omega, hxe, hx, hm⟩
      · rintro ⟨hax, hxe, hx, hm⟩
        by_cases hxa : x = a
        · exact .inl hxa
        · exact .inr ⟨hbelow x hx hax hxa, hxe, hx, hm⟩
    · have hlength := h.length
      rw [List.length_append, List.length_singleton]
      omega
    · rw [h.tick_eq he, htick]
      omega
  · refine ⟨new, ?_⟩
    have hnew := h.enum
    rw [hadds.keeps.kernel] at hnew
    refine ⟨by omega, h.le_stop, h.aligned, hadds.trans h.adds, ?_, ?_, by omega, by omega,
      fun he => ?_, h.early, fun _ _ _ => by omega⟩
    · refine hnew.congr fun x => ?_
      constructor
      · rintro ⟨hax, hxe, hx, hm⟩
        exact ⟨by omega, hxe, hx, hm⟩
      · rintro ⟨hax, hxe, hx, hm⟩
        refine ⟨hbelow x hx hax ?_, hxe, hx, hm⟩
        rintro rfl
        exact hnot hm
    · have hlength := h.length
      omega
    · rw [h.tick_eq he, htick]
      omega

/-- **The loop of `minimem_mark_vma`** marks what is to be marked up to where it ends. -/
theorem markPages_walk (startTime : Int) (mm stop : Nat) (hstop : pageSize ∣ stop) (n : Nat)
    {a : Nat} (ha : pageSize ∣ a) (hle : a ≤ stop) (hn : (pagesFrom a stop).length = n)
    (s : MarkState) :
    ∃ e s' new, markPages env startTime mm stop (pagesFrom a stop) s = (e, s') ∧
      MarkWalk env startTime mm stop n a s e s' new := by
  induction n generalizing a s with
  | zero =>
      have heq : a = stop := by
        by_contra hne
        rw [pagesFrom_of_lt (by omega), List.length_cons] at hn
        omega
      subst heq
      rw [pagesFrom_of_le (le_refl a)]
      exact ⟨a, s, [], rfl, le_refl a, le_refl a, ha, ⟨⟨rfl, rfl, rfl⟩, by simp, by simp⟩,
        enumerates_nil_of_stay, le_refl 0, le_refl _, le_refl _, fun _ => rfl,
        fun h => absurd h (lt_irrefl a), fun h => absurd h (lt_irrefl a)⟩
  | succ n ih =>
      have hlt : a < stop := by
        by_contra hge
        rw [pagesFrom_of_le (by omega), List.length_nil] at hn
        omega
      have hnext : a + pageSize ≤ stop := by
        obtain ⟨i, rfl⟩ := ha
        obtain ⟨j, rfl⟩ := hstop
        simp only [pageSize] at hlt ⊢
        omega
      rw [pagesFrom_of_lt hlt, List.length_cons, Nat.add_right_cancel_iff] at hn
      rw [pagesFrom_of_lt hlt]
      unfold markPages
      rw [henv.stop, if_neg (by decide)]
      split
      next hspent =>
        exact ⟨a, s, [], rfl, le_refl a, hle, ha, ⟨⟨rfl, rfl, rfl⟩, by simp, by simp⟩,
          enumerates_nil_of_stay, Nat.zero_le _, le_refl _, Nat.le_add_right _ _,
          fun h => absurd h hlt.ne, fun _ => .inl hspent, fun _ hpos => by omega⟩
      split
      next hexpired =>
        simp only [Bool.and_eq_true, decide_eq_true_eq] at hexpired
        exact ⟨a, { s with scan := s.scan.ticked }, [], rfl, le_refl a, hle, ha,
          ⟨⟨rfl, rfl, rfl⟩, by simp, by simp⟩, enumerates_nil_of_stay, Nat.zero_le _,
          Nat.le_succ _, Nat.add_le_add_left (Nat.succ_le_succ (Nat.zero_le n)) _,
          fun h => absurd h hlt.ne, fun _ => .inr (henv.expired (Nat.le_succ _) hexpired.2),
          fun _ _ hnone => by omega⟩
      · obtain ⟨e, s', new, hwalk, h⟩ := ih (Nat.dvd_add ha (Nat.dvd_refl pageSize)) hnext hn
          (markPage env mm s a)
        obtain ⟨new', h'⟩ := h.cons henv ha
        exact ⟨e, s', new', hwalk, h'⟩

end Pages

/-! ## One process -/

/-- The VMAs of an address space: whole pages, in ascending order and disjoint. -/
structure VmasOk (vmas : List Vma) : Prop where
  aligned : ∀ vma ∈ vmas, pageSize ∣ vma.start ∧ pageSize ∣ vma.stop
  nonempty : ∀ vma ∈ vmas, vma.start < vma.stop
  ascending : vmas.Pairwise fun v w => v.stop ≤ w.start

theorem VmasOk.filter {vmas : List Vma} (h : VmasOk vmas) (p : Vma → Bool) :
    VmasOk (vmas.filter p) :=
  ⟨fun v hv => h.aligned v (List.mem_of_mem_filter hv),
    fun v hv => h.nonempty v (List.mem_of_mem_filter hv), h.ascending.filter p⟩

theorem VmasOk.tail {vma : Vma} {vmas : List Vma} (h : VmasOk (vma :: vmas)) : VmasOk vmas :=
  ⟨fun v hv => h.aligned v (List.mem_cons_of_mem _ hv),
    fun v hv => h.nonempty v (List.mem_cons_of_mem _ hv), (List.pairwise_cons.1 h.ascending).2⟩

/-- An address in a VMA that the scanner enters. -/
def InVmas (vmas : List Vma) (x : Nat) : Prop :=
  ∃ vma ∈ vmas, vma.scanned = true ∧ x ∈ pagesFrom vma.start vma.stop

theorem inVmas_cons {vma : Vma} {vmas : List Vma} {x : Nat} :
    InVmas (vma :: vmas) x ↔
      (vma.scanned = true ∧ x ∈ pagesFrom vma.start vma.stop) ∨ InVmas vmas x := by
  simp [InVmas]

/-- How often a walk through the VMAs from an address on asks something. -/
def vmasCost (start : Nat) : List Vma → Nat
  | [] => 0
  | vma :: vmas =>
      (if vma.scanned then (pagesFrom (max start vma.start) vma.stop).length + 2 else 0) +
        vmasCost start vmas

/-- What a part of a mark cycle does to the variables of `minimem_scan_batch_vma`; `cost` is
how often it asks something when it is not cut short. -/
structure MarkPass (env : ScanEnv) (startTime : Int) (cost : Nat) (b b' : Batch)
    (new : List (Nat × Nat)) : Prop where
  kernel : b'.scan.kernel = b.scan.kernel
  sweeping : b'.scan.sweeping = b.scan.sweeping
  marked : b'.marked = b.marked ++ new
  remaining : b.remaining ≤ b'.remaining + new.length
  length : new.length ≤ cost
  tick_le : b.scan.tick ≤ b'.scan.tick
  tick_eq : b'.exhausted = false → b'.scan.tick = b.scan.tick + cost
  left : b'.exhausted = false → 0 < b'.remaining
  spent : b'.exhausted = true → b'.remaining = 0 ∨
    ∃ t, b.scan.tick ≤ t ∧ t < b.scan.tick + cost ∧ cpuBudgetExpired env startTime t = true

/-- A part that does nothing. -/
theorem MarkPass.idle {env : ScanEnv} {startTime : Int} {b b' : Batch} (cost : Nat)
    (hkernel : b'.scan.kernel = b.scan.kernel) (hsweeping : b'.scan.sweeping = b.scan.sweeping)
    (hmarked : b'.marked = b.marked) (hremaining : b'.remaining = b.remaining)
    (htick : b'.scan.tick = b.scan.tick + cost) (hexhausted : b'.exhausted = false)
    (hleft : 0 < b.remaining) : MarkPass env startTime cost b b' [] where
  kernel := hkernel
  sweeping := hsweeping
  marked := by rw [hmarked, List.append_nil]
  remaining := by rw [hremaining]; exact Nat.le_add_right _ _
  length := Nat.zero_le _
  tick_le := by omega
  tick_eq _ := htick
  left _ := by rw [hremaining]; exact hleft
  spent h := by rw [hexhausted] at h; cases h

/-- Two parts, one after the other. -/
theorem MarkPass.trans {env : ScanEnv} {startTime : Int} {cost cost' : Nat} {b b' b'' : Batch}
    {new new' : List (Nat × Nat)} (h : MarkPass env startTime cost b b' new)
    (hexhausted : b'.exhausted = false) (h' : MarkPass env startTime cost' b' b'' new') :
    MarkPass env startTime (cost + cost') b b'' (new ++ new') where
  kernel := h'.kernel.trans h.kernel
  sweeping := h'.sweeping.trans h.sweeping
  marked := by rw [h'.marked, h.marked, List.append_assoc]
  remaining := by
    have hfirst := h.remaining
    have hsecond := h'.remaining
    rw [List.length_append]
    omega
  length := by
    have hfirst := h.length
    have hsecond := h'.length
    rw [List.length_append]
    omega
  tick_le := h.tick_le.trans h'.tick_le
  tick_eq hdone := by rw [h'.tick_eq hdone, h.tick_eq hexhausted, Nat.add_assoc]
  left := h'.left
  spent hspent := by
    have htick := h.tick_eq hexhausted
    rcases h'.spent hspent with hzero | ⟨t, hle, hlt, hexpired⟩
    · exact .inl hzero
    · exact .inr ⟨t, by omega, by omega, hexpired⟩

/-- How a mark pass over addresses `P` of a process ends that has to do those from `start`
on: it has marked them all, and asked for the time if there were any, or it has halted at
an address and left it in the cursor. -/
inductive MarkEnd (env : ScanEnv) (startTime : Int) (pid start : Nat) (P M : Nat → Prop)
    (b b' : Batch) (new : List Nat) : Prop
  | through (hexhausted : b'.exhausted = false)
      (hcursor : b'.scan.markCursor = b.scan.markCursor ∨
        ((b.scan.markCursor.valid = true ∧ pid = b.scan.markCursor.pid) ∧
          b'.scan.markCursor = { b.scan.markCursor with addr := 0 }))
      (hnew : Enumerates new fun x => P x ∧ start ≤ x ∧ M x)
      (htime : (∃ x, P x ∧ start ≤ x) →
        ∃ t, b.scan.tick ≤ t ∧ cpuBudgetExpired env startTime t = false)
  | halted {e x : Nat} (hexhausted : b'.exhausted = true)
      (hcursor : b'.scan.markCursor = ⟨pid, e, true⟩) (haligned : pageSize ∣ e)
      (hnew : Enumerates new fun x => P x ∧ start ≤ x ∧ M x ∧ x < e)
      (hslot : P x) (hstart : start ≤ x) (hlt : x < e)

/-- A pass over addresses below others, gone through, and then one over those. -/
theorem MarkEnd.cons {env : ScanEnv} {startTime : Int} {pid start bound : Nat}
    {P Q M : Nat → Prop} {b b' b'' : Batch} {new new' : List Nat}
    (hcursor : b'.scan.markCursor = b.scan.markCursor ∨
      ((b.scan.markCursor.valid = true ∧ pid = b.scan.markCursor.pid) ∧
        b'.scan.markCursor = { b.scan.markCursor with addr := 0 }))
    (htick : b.scan.tick ≤ b'.scan.tick)
    (hnew : Enumerates new fun x => Q x ∧ start ≤ x ∧ M x) (hbelow : ∀ x, Q x → x < bound)
    (habove : ∀ x, P x → bound ≤ x)
    (htime : (∃ x, Q x ∧ start ≤ x) →
      ∃ t, b.scan.tick ≤ t ∧ cpuBudgetExpired env startTime t = false)
    (h : MarkEnd env startTime pid start P M b' b'' new') :
    MarkEnd env startTime pid start (fun x => Q x ∨ P x) M b b'' (new ++ new') := by
  cases h with
  | through hexhausted hcursor' hnew' htime' =>
      refine .through hexhausted ?_ ((hnew.append hnew' ?_).congr fun x => ?_) ?_
      · rcases hcursor with heq | ⟨hown, heq⟩
        · rw [heq] at hcursor'
          exact hcursor'
        · rw [heq] at hcursor'
          rcases hcursor' with heq' | ⟨-, heq'⟩
          · exact .inr ⟨hown, heq'⟩
          · exact .inr ⟨hown, heq'⟩
      · rintro x ⟨hx, -⟩ ⟨hx', -⟩
        exact absurd (hbelow x hx) (not_lt.2 (habove x hx'))
      · exact or_and_right.symm
      · rintro ⟨x, hx | hx, hstart⟩
        · exact htime ⟨x, hx, hstart⟩
        · obtain ⟨t, hle, hearly⟩ := htime' ⟨x, hx, hstart⟩
          exact ⟨t, htick.trans hle, hearly⟩
  | @halted e y hexhausted hcursor' haligned hnew' hslot hstart hlt =>
      refine .halted hexhausted hcursor' haligned ((hnew.append hnew' ?_).congr fun x => ?_)
        (.inr hslot) hstart hlt
      · rintro x ⟨hx, -⟩ ⟨hx', -⟩
        exact absurd (hbelow x hx) (not_lt.2 (habove x hx'))
      · have hbound := habove y hslot
        constructor
        · rintro (⟨hx, hle, hm⟩ | ⟨hx, hle, hm, hxe⟩)
          · have hxb := hbelow x hx
            exact ⟨.inl hx, hle, hm, by omega⟩
          · exact ⟨.inr hx, hle, hm, hxe⟩
        · rintro ⟨hx | hx, hle, hm, hxe⟩
          · exact .inl ⟨hx, hle, hm⟩
          · exact .inr ⟨hx, hle, hm, hxe⟩

theorem MarkEnd.congr {env : ScanEnv} {startTime : Int} {pid start : Nat} {P Q M : Nat → Prop}
    {b b' : Batch} {new : List Nat} (h : MarkEnd env startTime pid start P M b b' new)
    (hPQ : ∀ x, start ≤ x → (P x ↔ Q x)) : MarkEnd env startTime pid start Q M b b' new := by
  cases h with
  | through hexhausted hcursor hnew htime =>
      refine .through hexhausted hcursor (hnew.congr fun x => ?_) ?_
      · exact ⟨fun ⟨hp, hle, hm⟩ => ⟨(hPQ x hle).1 hp, hle, hm⟩,
          fun ⟨hq, hle, hm⟩ => ⟨(hPQ x hle).2 hq, hle, hm⟩⟩
      · rintro ⟨x, hq, hle⟩
        exact htime ⟨x, (hPQ x hle).2 hq, hle⟩
  | halted hexhausted hcursor haligned hnew hslot hstart hlt =>
      refine .halted hexhausted hcursor haligned (hnew.congr fun x => ?_)
        ((hPQ _ hstart).1 hslot) hstart hlt
      exact ⟨fun ⟨hp, hle, hm⟩ => ⟨(hPQ x hle).1 hp, hle, hm⟩,
        fun ⟨hq, hle, hm⟩ => ⟨(hPQ x hle).2 hq, hle, hm⟩⟩

section Vmas

variable {env : ScanEnv} (henv : env.Steady)
include henv

/-- The call of `minimem_mark_vma` in a mark cycle. -/
theorem scanVma_mark (codec : Codec) (startTime : Int) (pid mm : Nat) {vma : Vma} {a : Nat}
    (ha : pageSize ∣ a) (hstop : pageSize ∣ vma.stop) (hle : vma.start ≤ a) (hlt : a < vma.stop)
    (b : Batch) :
    ∃ e s' new, scanVma codec env startTime false pid mm vma a b =
        (e, { b with
          scan := s'.scan
          remaining := s'.remaining
          marked := b.marked ++ new.map fun x => (pid, x) }) ∧
      MarkWalk env startTime mm vma.stop (pagesFrom a vma.stop).length a
        ⟨b.scan, b.remaining, 0, []⟩ e s' new := by
  obtain ⟨e, s', new, hpages, hwalk⟩ := markPages_walk henv startTime mm vma.stop hstop _ ha hlt.le
    rfl ⟨b.scan, b.remaining, 0, []⟩
  have hmarked : s'.marked = new := hwalk.adds.marked
  refine ⟨e, s', new, ?_, hwalk⟩
  rw [scanVma, if_neg (by decide), markVma, max_eq_left hle, pagesEnd_eq ha hstop hlt.le, hpages]
  dsimp only
  rw [hmarked]

/-- A VMA in which a budget is used up, or behind which it turns out to be. -/
theorem scanVmas_halt {codec : Codec} {startTime : Int} {pid mm n e : Nat} {vma : Vma}
    (vmas : List Vma) {b b₁ : Batch} (hscanned : vma.scanned = true)
    (hvisit : scanVma codec env startTime false pid mm vma (b.scan.markCursor.enter pid vma)
      (b.update Scanner.ticked) = (e, b₁))
    (hspent : b₁.remaining = 0 ∨ cpuBudgetExpired env startTime b₁.scan.tick = true) :
    scanVmas codec env startTime false pid mm (vma :: vmas) (n, b) = (n, { b₁ with
      scan := (b₁.scan.setCursor false ⟨pid, e, true⟩).ticked
      exhausted := true }) := by
  have hcursor : b.scan.cursor false = b.scan.markCursor := rfl
  rw [scanVmas, if_neg (by simp [hscanned]), henv.stop, if_neg (by decide)]
  dsimp only
  rw [hcursor, hvisit]
  dsimp only
  rw [if_pos (by simpa [Batch.usedUp] using hspent)]

/-- A VMA behind which the cycle goes on. -/
theorem scanVmas_through {codec : Codec} {startTime : Int} {pid mm n e : Nat} {vma : Vma}
    (vmas : List Vma) {b b₁ : Batch} (hscanned : vma.scanned = true)
    (hvisit : scanVma codec env startTime false pid mm vma (b.scan.markCursor.enter pid vma)
      (b.update Scanner.ticked) = (e, b₁))
    (hspent : ¬(b₁.remaining = 0 ∨ cpuBudgetExpired env startTime b₁.scan.tick = true)) :
    scanVmas codec env startTime false pid mm (vma :: vmas) (n, b) =
      scanVmas codec env startTime false pid mm vmas
        (n + 1, (b₁.update Scanner.ticked).behindVma false pid b.scan.markCursor) := by
  have hcursor : b.scan.cursor false = b.scan.markCursor := rfl
  rw [scanVmas, if_neg (by simp [hscanned]), henv.stop, if_neg (by decide)]
  dsimp only
  rw [hcursor, hvisit]
  dsimp only
  rw [if_neg (by simpa [Batch.usedUp] using hspent)]

omit henv in
/-- A VMA that the scanner does not enter costs nothing. -/
theorem scanVmas_skip (codec : Codec) (startTime : Int) (pid mm n : Nat) {vma : Vma}
    (vmas : List Vma) {b : Batch} (hscanned : vma.scanned = false)
    (hexhausted : b.exhausted = false) (hleft : 0 < b.remaining) :
    ∃ b₁, scanVmas codec env startTime false pid mm (vma :: vmas) (n, b) =
        scanVmas codec env startTime false pid mm vmas (n, b₁) ∧
      MarkPass env startTime 0 b b₁ [] ∧ b₁.scan.markCursor = b.scan.markCursor ∧
      b₁.exhausted = false := by
  have hstep : scanVmas codec env startTime false pid mm (vma :: vmas) (n, b) =
      scanVmas codec env startTime false pid mm vmas (n,
        if vma.drained && vma.locked then b.update fun s => s.count fun st =>
          { st with skipVmaLocked := st.skipVmaLocked + 1 } else b) := by
    rw [scanVmas, if_pos hscanned]
  refine ⟨_, hstep, ?_⟩
  split
  · exact ⟨.idle 0 rfl rfl rfl rfl rfl hexhausted hleft, rfl, hexhausted⟩
  · exact ⟨.idle 0 rfl rfl rfl rfl rfl hexhausted hleft, rfl, hexhausted⟩

/-- The batch behind the call of `minimem_mark_vma`. -/
def Batch.visited (b : Batch) (pid : Nat) (s : MarkState) (new : List Nat) : Batch :=
  { b with
    scan := s.scan
    remaining := s.remaining
    marked := b.marked ++ new.map fun x => (pid, x) }

/-- The batch of a cycle that halts. -/
def Batch.halt (b : Batch) (pid e : Nat) : Batch :=
  { b with scan := (b.scan.setCursor false ⟨pid, e, true⟩).ticked, exhausted := true }

/-- A VMA that has pages behind `start`, and the walk over them. -/
structure VmaVisit (env : ScanEnv) (startTime : Int) (mm start : Nat) (vma : Vma) (b : Batch)
    (e : Nat) (s : MarkState) (new : List Nat) : Prop where
  scanned : vma.scanned = true
  startAligned : pageSize ∣ vma.start
  stopAligned : pageSize ∣ vma.stop
  fromAligned : pageSize ∣ max start vma.start
  nonempty : max start vma.start < vma.stop
  left : 0 < b.remaining
  exhausted : b.exhausted = false
  walk : MarkWalk env startTime mm vma.stop (pagesFrom (max start vma.start) vma.stop).length
    (max start vma.start) ⟨b.scan.ticked, b.remaining, 0, []⟩ e s new

theorem vmaVisit_of_scanned (codec : Codec) (startTime : Int) (pid mm : Nat) {start : Nat}
    (hstart : pageSize ∣ start) {vma : Vma} (hscanned : vma.scanned = true)
    (haligned : pageSize ∣ vma.start ∧ pageSize ∣ vma.stop) (hnonempty : vma.start < vma.stop)
    (hbehind : start < vma.stop) {b : Batch} (hexhausted : b.exhausted = false)
    (hleft : 0 < b.remaining) :
    ∃ e s new, scanVma codec env startTime false pid mm vma (max start vma.start)
        (b.update Scanner.ticked) = (e, b.visited pid s new) ∧
      VmaVisit env startTime mm start vma b e s new := by
  have hfrom : pageSize ∣ max start vma.start := by
    rcases max_choice start vma.start with h | h <;> rw [h]
    · exact hstart
    · exact haligned.1
  obtain ⟨e, s, new, hvisit, hwalk⟩ := scanVma_mark henv codec startTime pid mm hfrom haligned.2
    (le_max_right _ _) (max_lt hbehind hnonempty) (b.update Scanner.ticked)
  exact ⟨e, s, new, hvisit, hscanned, haligned.1, haligned.2, hfrom, max_lt hbehind hnonempty,
    hleft, hexhausted, hwalk⟩

omit henv

namespace VmaVisit

variable {startTime : Int} {pid mm start e : Nat} {vma : Vma} {b : Batch} {s : MarkState}
  {new : List Nat} (h : VmaVisit env startTime mm start vma b e s new)
include h

/-- The addresses of the walk are those of the VMA from `start` on. -/
theorem slot_iff (x : Nat) : (x ∈ pagesFrom vma.start vma.stop ∧ start ≤ x) ↔
    max start vma.start ≤ x ∧ x < vma.stop ∧ pageSize ∣ x := by
  rw [mem_pagesFrom h.startAligned]
  omega

theorem tick_le : b.scan.tick + 1 ≤ s.scan.tick := h.walk.tick_le

theorem tick_le_add :
    s.scan.tick ≤ b.scan.tick + 1 + (pagesFrom (max start vma.start) vma.stop).length :=
  h.walk.tick_le_add

theorem goes : max start vma.start < e := h.walk.goes h.nonempty h.left rfl

/-- Where a budget is used up the cycle has done its part. -/
theorem halt_pass (hspent : s.remaining = 0 ∨ cpuBudgetExpired env startTime s.scan.tick = true)
    (cost : Nat) :
    MarkPass env startTime ((pagesFrom (max start vma.start) vma.stop).length + 2 + cost) b
      ((b.visited pid s new).halt pid e) (new.map fun x => (pid, x)) := by
  have hle := h.tick_le
  have hleAdd := h.tick_le_add
  have hnew := h.walk.length
  have hlength : (new.map fun x => (pid, x)).length = new.length := List.length_map _
  refine ⟨h.walk.adds.keeps.kernel, h.walk.adds.keeps.sweeping, rfl, ?_, ?_, ?_,
    fun h => (by cases h), fun h => (by cases h), fun _ => ?_⟩
  · rw [hlength]
    exact h.walk.adds.remaining
  · rw [hlength]
    omega
  · show b.scan.tick ≤ s.scan.tick + 1
    omega
  · rcases hspent with hzero | hexpired
    · exact .inl hzero
    · exact .inr ⟨s.scan.tick, by omega, by omega, hexpired⟩

/-- The cycle halts at the address where the walk ended. -/
theorem halt_end {vmas : List Vma} (habove : ∀ x, InVmas vmas x → vma.stop ≤ x) :
    MarkEnd env startTime pid start (InVmas (vma :: vmas))
      (fun x => Markable env.bits b.scan.kernel mm x) b ((b.visited pid s new).halt pid e) new := by
  have hfirst : InVmas (vma :: vmas) (max start vma.start) :=
    inVmas_cons.2 (.inl ⟨h.scanned, ((h.slot_iff _).2 ⟨le_rfl, h.nonempty, h.fromAligned⟩).1⟩)
  have hle := h.walk.le_stop
  refine .halted rfl rfl h.walk.aligned (h.walk.enum.congr fun x => ?_) hfirst (le_max_left _ _)
    h.goes
  rw [inVmas_cons]
  constructor
  · rintro ⟨hax, hxe, hx, hm⟩
    have hslot := (h.slot_iff x).2 ⟨hax, by omega, hx⟩
    exact ⟨.inl ⟨h.scanned, hslot.1⟩, hslot.2, hm, hxe⟩
  · rintro ⟨⟨-, hx⟩ | hx, hsx, hm, hxe⟩
    · obtain ⟨hax, -, hx⟩ := (h.slot_iff x).1 ⟨hx, hsx⟩
      exact ⟨hax, hxe, hx, hm⟩
    · have hge := habove x hx
      omega

/-- The cursor behind the VMA. -/
theorem through_cursor :
    (((b.visited pid s new).update Scanner.ticked).behindVma false pid
        b.scan.markCursor).scan.markCursor = b.scan.markCursor ∨
      ((b.scan.markCursor.valid = true ∧ pid = b.scan.markCursor.pid) ∧
        (((b.visited pid s new).update Scanner.ticked).behindVma false pid
          b.scan.markCursor).scan.markCursor = { b.scan.markCursor with addr := 0 }) := by
  unfold Batch.behindVma
  split
  next hown =>
    rw [Bool.and_eq_true, decide_eq_true_eq] at hown
    exact .inr ⟨hown, rfl⟩
  next hown => exact .inl h.walk.adds.keeps.cursor

theorem through_exhausted :
    (((b.visited pid s new).update Scanner.ticked).behindVma false pid
      b.scan.markCursor).exhausted = false := by
  unfold Batch.behindVma
  split <;> exact h.exhausted

section Through

variable (hspent : ¬(s.remaining = 0 ∨ cpuBudgetExpired env startTime s.scan.tick = true))
include hspent

/-- With budgets left the walk has gone to the end of the VMA. -/
theorem end_eq : e = vma.stop := by
  by_contra hne
  have hle := h.walk.le_stop
  exact hspent (h.walk.early (by omega))

/-- The VMA is a part of the cycle that is not cut short. -/
theorem through_pass :
    MarkPass env startTime ((pagesFrom (max start vma.start) vma.stop).length + 2) b
      (((b.visited pid s new).update Scanner.ticked).behindVma false pid b.scan.markCursor)
      (new.map fun x => (pid, x)) := by
  have hlength : (new.map fun x => (pid, x)).length = new.length := List.length_map _
  have hnew := h.walk.length
  have htick : s.scan.tick = b.scan.tick + 1 +
      (pagesFrom (max start vma.start) vma.stop).length := h.walk.tick_eq (h.end_eq hspent)
  have hexhausted := @through_exhausted _ _ pid _ _ _ _ _ _ _ h
  generalize hb : Batch.behindVma _ _ _ _ = b' at hexhausted ⊢
  have hkernel : b'.scan.kernel = b.scan.kernel := by
    rw [← hb, Batch.behindVma]
    split <;> exact h.walk.adds.keeps.kernel
  have hsweeping : b'.scan.sweeping = b.scan.sweeping := by
    rw [← hb, Batch.behindVma]
    split <;> exact h.walk.adds.keeps.sweeping
  have hmarked : b'.marked = b.marked ++ new.map fun x => (pid, x) := by
    rw [← hb, Batch.behindVma]
    split <;> rfl
  have htick' : b'.scan.tick = s.scan.tick + 1 := by
    rw [← hb, Batch.behindVma]
    split <;> rfl
  have hremaining : b'.remaining = s.remaining := by
    rw [← hb, Batch.behindVma]
    split <;> rfl
  refine ⟨hkernel, hsweeping, hmarked, ?_, ?_, by omega, fun _ => by omega, fun _ => ?_,
    fun hcut => ?_⟩
  · rw [hremaining, hlength]
    exact h.walk.adds.remaining
  · rw [hlength]
    omega
  · rw [hremaining]
    omega
  · rw [hexhausted] at hcut
    cases hcut

/-- What is marked of the VMA. -/
theorem through_enum : Enumerates new fun x =>
    x ∈ pagesFrom vma.start vma.stop ∧ start ≤ x ∧ Markable env.bits b.scan.kernel mm x := by
  refine h.walk.enum.congr fun x => ?_
  have hslot := h.slot_iff x
  rw [h.end_eq hspent]
  constructor
  · rintro ⟨hax, hxs, hx, hm⟩
    obtain ⟨hin, hsx⟩ := hslot.2 ⟨hax, hxs, hx⟩
    exact ⟨hin, hsx, hm⟩
  · rintro ⟨hin, hsx, hm⟩
    obtain ⟨hax, hxs, hx⟩ := hslot.1 ⟨hin, hsx⟩
    exact ⟨hax, hxs, hx, hm⟩

theorem through_time : ∃ t, b.scan.tick ≤ t ∧ cpuBudgetExpired env startTime t = false := by
  have hle := h.tick_le
  refine ⟨s.scan.tick, by omega, ?_⟩
  rw [not_or, Bool.not_eq_true] at hspent
  exact hspent.2

end Through

end VmaVisit

/-- A cursor that has lost its address leads into a later VMA as before. -/
theorem enter_of_cursor {cursor cursor' : Cursor} {pid start : Nat} {v : Vma}
    (hcursor : cursor' = cursor ∨ ((cursor.valid = true ∧ pid = cursor.pid) ∧
      cursor' = { cursor with addr := 0 }))
    (hscanned : v.scanned = true) (hstart : start ≤ v.start)
    (henter : cursor.enter pid v = max start v.start) :
    cursor'.enter pid v = max start v.start := by
  rw [max_eq_right hstart] at henter ⊢
  rcases hcursor with rfl | ⟨-, rfl⟩
  · exact henter
  · have hne : v.start ≠ 0 := by
      simp only [Vma.scanned, Vma.drained, Bool.and_eq_true, decide_eq_true_eq] at hscanned
      exact hscanned.1.1.1.1.2
    rw [Cursor.enter, if_neg]
    simp [hne]

include henv

/-- **The loop over the VMAs** in a mark cycle. -/
theorem scanVmas_mark (codec : Codec) (startTime : Int) (pid mm start : Nat)
    (hstart : pageSize ∣ start) (vmas : List Vma) (hvmas : VmasOk vmas)
    (hbehind : ∀ vma ∈ vmas, start < vma.stop) (n : Nat) {b : Batch}
    (hexhausted : b.exhausted = false) (hleft : 0 < b.remaining)
    (henter : ∀ vma ∈ vmas, vma.scanned = true →
      b.scan.markCursor.enter pid vma = max start vma.start) :
    ∃ n' b' new, scanVmas codec env startTime false pid mm vmas (n, b) = (n', b') ∧
      MarkPass env startTime (vmasCost start vmas) b b' (new.map fun x => (pid, x)) ∧
      MarkEnd env startTime pid start (InVmas vmas)
        (fun x => Markable env.bits b.scan.kernel mm x) b b' new := by
  induction vmas generalizing n b with
  | nil =>
      refine ⟨n, b, [], rfl, .idle 0 rfl rfl rfl rfl rfl hexhausted hleft, .through hexhausted
        (.inl rfl) (.nil fun x h => ?_) fun h => ?_⟩
      · obtain ⟨⟨v, hv, -⟩, -⟩ := h
        cases hv
      · obtain ⟨x, ⟨v, hv, -⟩, -⟩ := h
        cases hv
  | cons vma vmas ih =>
      have hrest : VmasOk vmas := hvmas.tail
      have habove := (List.pairwise_cons.1 hvmas.ascending).1
      have hrestBehind : ∀ v ∈ vmas, start < v.stop :=
        fun v hv => hbehind v (List.mem_cons_of_mem _ hv)
      have hrestEnter : ∀ v ∈ vmas, v.scanned = true →
          b.scan.markCursor.enter pid v = max start v.start :=
        fun v hv => henter v (List.mem_cons_of_mem _ hv)
      have habovePages : ∀ x, InVmas vmas x → vma.stop ≤ x := by
        rintro x ⟨v, hv, -, hx⟩
        have halignedV := hrest.aligned v hv
        rw [mem_pagesFrom halignedV.1] at hx
        exact (habove v hv).trans hx.1
      cases hscanned : vma.scanned with
      | false =>
          obtain ⟨b₁, hskip, hidle, hcursor, hexhausted₁⟩ :=
            @scanVmas_skip env codec startTime pid mm n vma vmas b hscanned hexhausted hleft
          obtain ⟨n', b', new, hvisit, hpass, hend⟩ := @ih hrest hrestBehind n b₁ hexhausted₁
            (hidle.left hexhausted₁) (by rw [hcursor]; exact hrestEnter)
          have hcost : vmasCost start (vma :: vmas) = 0 + vmasCost start vmas := by
            rw [vmasCost, hscanned]
            rfl
          refine ⟨n', b', [] ++ new, hskip.trans hvisit, ?_, ?_⟩
          · rw [hcost]
            exact hidle.trans hexhausted₁ hpass
          · rw [hidle.kernel] at hend
            refine (hend.cons (.inl hcursor) hidle.tick_le (.nil fun x h => h.1)
              (fun x h => False.elim h) habovePages fun h => False.elim h.choose_spec.1).congr
              fun x _ => ?_
            rw [inVmas_cons, hscanned]
            simp
      | true =>
          have hvma := List.mem_cons_self (a := vma) (l := vmas)
          obtain ⟨e, s, new, hscan, hvisit⟩ := vmaVisit_of_scanned henv codec startTime pid mm
            hstart hscanned (hvmas.aligned vma hvma) (hvmas.nonempty vma hvma) (hbehind vma hvma)
            hexhausted hleft
          rw [← henter vma hvma hscanned] at hscan
          have hcost : vmasCost start (vma :: vmas) =
              (pagesFrom (max start vma.start) vma.stop).length + 2 + vmasCost start vmas := by
            rw [vmasCost, if_pos hscanned]
          rw [hcost]
          by_cases hspent : s.remaining = 0 ∨ cpuBudgetExpired env startTime s.scan.tick = true
          · exact ⟨_, _, new, scanVmas_halt henv vmas hscanned hscan hspent,
              hvisit.halt_pass hspent _, hvisit.halt_end habovePages⟩
          · have hpass := @VmaVisit.through_pass env startTime pid mm start e vma b s new hvisit
              hspent
            have hcursor := @VmaVisit.through_cursor env startTime pid mm start e vma b s new hvisit
            have hexhausted₂ := @VmaVisit.through_exhausted env startTime pid mm start e vma b s new
              hvisit
            have hthrough := @scanVmas_through env henv codec startTime pid mm n e vma vmas b _
              hscanned hscan hspent
            generalize Batch.behindVma _ _ _ _ = b₂ at hthrough hpass hcursor hexhausted₂
            have henter₂ : ∀ v ∈ vmas, v.scanned = true →
                b₂.scan.markCursor.enter pid v = max start v.start := by
              intro v hv hvscanned
              have hge := habove v hv
              have hnonempty := hvisit.nonempty
              exact enter_of_cursor hcursor hvscanned (by omega) (hrestEnter v hv hvscanned)
            obtain ⟨n', b', new', hrestScan, hpass', hend'⟩ := @ih hrest hrestBehind (n + 1) b₂
              hexhausted₂ (hpass.left hexhausted₂) henter₂
            refine ⟨n', b', new ++ new', hthrough.trans hrestScan, ?_, ?_⟩
            · rw [List.map_append]
              exact hpass.trans hexhausted₂ hpass'
            · rw [hpass.kernel] at hend'
              refine (hend'.cons hcursor hpass.tick_le (hvisit.through_enum hspent)
                (fun x hx => ((mem_pagesFrom hvisit.startAligned).1 hx).2.1)
                habovePages fun _ => hvisit.through_time hspent).congr fun x _ => ?_
              rw [inVmas_cons, hscanned]
              simp

end Vmas

end MiniMem
