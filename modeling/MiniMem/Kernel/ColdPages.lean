import MiniMem.Kernel.Replace
import MiniMem.Kernel.Scanner

/-!
# MiniMem.Kernel.ColdPages

Which pages the sweep takes for cold.  A user access sets the accessed bit of
a page-table entry, and neither pass of the scanner looks at that bit: the
mark pass clears `PG_young`, the sweep asks for `PG_young`, and nothing in
between sets it.  What has been accessed since it was marked is watched here
from outside.
-/

namespace MiniMem

/-! ## Accesses -/

/-- A user read of a mapped page sets the accessed bit of its entry. -/
def userRead (k : Kernel) (mm vaddr : Nat) : Kernel :=
  match k.pteAt mm vaddr with
  | some (.present pfn write _ dirty) => k.setPteAt mm vaddr (.present pfn write true dirty)
  | _ => k

/-- A user access, with what it writes. -/
def userAccess (k : Kernel) (mm vaddr : Nat) : Option Page → Kernel
  | none => userRead k mm vaddr
  | some page => userWrite k mm vaddr page

/-- The frame that an access goes through to. -/
def Kernel.hit (k : Kernel) (mm vaddr : Nat) (written : Option Page) : Option Nat :=
  match k.pteAt mm vaddr with
  | some (.present pfn write _ _) => if write || written.isNone then some pfn else none
  | _ => none

/-! ## What the flags say -/

/-- The flags of a page are as the mark pass has left them. -/
def Scanner.cold (s : Scanner) (pfn : Nat) : Bool := s.idle pfn && !s.young pfn

/-- The frame whose flags `minimem_mark_vma` sets. -/
def Scanner.marks (s : Scanner) (env : ScanEnv) (mm addr : Nat) : Option Nat :=
  match s.scanPage env mm addr with
  | none => none
  | some pfn =>
      if (env.bits pfn).mlocked then none
      else if s.kernel.frames.refs pfn > 2 then none
      else some pfn

/-- The frame of the page that `minimem_sweep_vma` hands to
`minimem_compress_and_replace_pte`. -/
def Scanner.hands (s : Scanner) (env : ScanEnv) (mm addr : Nat) : Option Nat :=
  if s.skipListCheck addr then none else s.coldPage env mm addr

theorem cold_markPage (env : ScanEnv) (mm : Nat) (s : MarkState) (addr pfn : Nat) :
    (markPage env mm s addr).scan.cold pfn =
      if s.scan.marks env mm addr = some pfn then true else s.scan.cold pfn := by
  unfold markPage Scanner.marks
  cases hpage : s.scan.scanPage env mm addr with
  | none => simp [Scanner.cold, Scanner.ticked]
  | some pfn' =>
      dsimp only
      split
      · simp [Scanner.cold, Scanner.count, Scanner.ticked]
      split
      · simp [Scanner.cold, Scanner.count, Scanner.ticked]
      · by_cases hpfn : pfn = pfn'
        · subst hpfn
          simp [Scanner.cold, Scanner.setIdle, Scanner.clearYoung, Scanner.ticked]
        · have hne : some pfn' ≠ some pfn := fun h => hpfn (Option.some.inj h).symm
          simp [Scanner.cold, Scanner.setIdle, Scanner.clearYoung, Scanner.ticked, hpfn, hne]

/-- A sweep makes no page cold. -/
theorem cold_of_cold_sweepPage {codec : Codec} {env : ScanEnv} {mm addr pfn : Nat}
    {s : SweepState} (h : (sweepPage codec env mm s addr).scan.cold pfn = true) :
    s.scan.cold pfn = true := by
  unfold sweepPage at h
  split at h
  · exact h
  next pfn' _ =>
    split at h
    · exact h
    split at h
    · exact h
    split at h
    · exact h
    split at h
    · by_cases hpfn : pfn = pfn'
      · subst hpfn
        simp [Scanner.cold, Scanner.clearIdle, Scanner.clearYoung, Scanner.ticked] at h
      · simpa [Scanner.cold, Scanner.clearIdle, Scanner.clearYoung, Scanner.ticked, hpfn] using h
    split at h
    · exact h
    · dsimp only at h
      split at h <;> exact h

/-- The sweep counts a page as scanned, and calls `minimem_compress_and_replace_pte`, when
it hands one over. -/
theorem sweepPage_hands (codec : Codec) (env : ScanEnv) (mm : Nat) (s : SweepState)
    (addr : Nat) :
    (sweepPage codec env mm s addr).scanned =
        s.scanned + (s.scan.hands env mm addr).toList.length ∧
      (sweepPage codec env mm s addr).scan.kernel =
        match s.scan.hands env mm addr with
        | none => s.scan.kernel
        | some _ =>
            (compressAndReplacePte codec (env.replace s.scan.tick) s.scan.kernel mm addr).2 := by
  unfold sweepPage Scanner.hands Scanner.coldPage
  cases hpage : s.scan.scanPage env mm addr with
  | none => simp [Scanner.ticked]
  | some pfn =>
      dsimp only
      by_cases hshared : s.scan.kernel.frames.refs pfn > 2
      · simp [hshared, Scanner.count, Scanner.ticked]
      by_cases hmlocked : (env.bits pfn).mlocked = true
      · simp [hshared, hmlocked, Scanner.count, Scanner.ticked]
      by_cases hidle : s.scan.idle pfn = false
      · simp [hshared, hmlocked, hidle, Scanner.ticked]
      by_cases hyoung : s.scan.young pfn = true
      · simp [hshared, hmlocked, hidle, hyoung, Scanner.clearYoung, Scanner.clearIdle,
          Scanner.ticked]
      by_cases hskip : s.scan.skipListCheck addr = true
      · simp [hshared, hmlocked, hidle, hyoung, hskip, Scanner.count, Scanner.ticked]
      · simp only [hshared, hmlocked, hidle, hyoung, hskip, Bool.false_eq_true, if_false]
        refine ⟨rfl, ?_⟩
        by_cases hret :
            (compressAndReplacePte codec (env.replace s.scan.tick) s.scan.kernel mm addr).1 = 0
        · simp [hret, Scanner.ticked]
        · simp [hret, Scanner.ticked, Scanner.skipListAdd]

theorem cold_of_hands {env : ScanEnv} {s : Scanner} {mm addr pfn : Nat}
    (h : s.hands env mm addr = some pfn) : s.cold pfn = true := by
  unfold Scanner.hands Scanner.coldPage at h
  split at h
  · cases h
  split at h
  · cases h
  split at h
  · cases h
  split at h
  · cases h
  split at h
  · cases h
  split at h
  · cases h
  next hidle hyoung =>
    injection h with h
    subst h
    simp_all [Scanner.cold]

/-! ## What an access changes -/

/-- The frame that an address is mapped to. -/
def Kernel.frameAt (k : Kernel) (mm vaddr : Nat) : Option Nat :=
  match k.pteAt mm vaddr with
  | some (.present pfn _ _ _) => some pfn
  | _ => none

theorem frameAt_setPteAt_present {k : Kernel} {mm vaddr pfn : Nat} {w y d w' y' d' : Bool}
    (h : k.pteAt mm vaddr = some (.present pfn w y d)) (mm' vaddr' : Nat) :
    (k.setPteAt mm vaddr (.present pfn w' y' d')).frameAt mm' vaddr' = k.frameAt mm' vaddr' := by
  unfold Kernel.frameAt
  rw [pteAt_setPteAt]
  by_cases heq : mm' = mm ∧ vaddrToIndex vaddr' = vaddrToIndex vaddr
  · have hsame : k.pteAt mm' vaddr' = some (.present pfn w y d) := by
      rw [← h, Kernel.pteAt, Kernel.pteAt, heq.1, heq.2]
    rw [if_pos heq, hsame]
  · rw [if_neg heq]

/-- An access moves no page. -/
theorem frameAt_userAccess (k : Kernel) (mm vaddr : Nat) (written : Option Page)
    (mm' vaddr' : Nat) :
    (userAccess k mm vaddr written).frameAt mm' vaddr' = k.frameAt mm' vaddr' := by
  cases written with
  | none =>
      simp only [userAccess, userRead]
      split
      next hpte => exact frameAt_setPteAt_present hpte mm' vaddr'
      · rfl
  | some page =>
      simp only [userAccess, userWrite]
      split
      next pfn _ _ hpte =>
        have hpte' : (k.writeFrame pfn page).pteAt mm vaddr = _ := hpte
        exact frameAt_setPteAt_present hpte' mm' vaddr'
      · rfl

theorem refs_userAccess (k : Kernel) (mm vaddr : Nat) (written : Option Page) :
    (userAccess k mm vaddr written).frames.refs = k.frames.refs := by
  cases written with
  | none =>
      simp only [userAccess, userRead]
      split <;> rfl
  | some page =>
      simp only [userAccess, userWrite]
      split <;> rfl

theorem scanPage_eq_frameAt (s : Scanner) (env : ScanEnv) (mm addr : Nat) :
    s.scanPage env mm addr =
      match (if env.lock s.tick then s.kernel.frameAt mm addr else none) with
      | none => none
      | some pfn =>
          if (env.bits pfn).compound then none
          else if (env.bits pfn).anon = false then none
          else if (env.bits pfn).lru = false then none
          else some pfn := by
  unfold Scanner.scanPage Kernel.frameAt
  cases env.lock s.tick with
  | false => rfl
  | true =>
      rw [if_pos rfl, if_pos rfl]
      cases s.kernel.pteAt mm addr with
      | none => rfl
      | some pte => cases pte <;> rfl

/-- The scanner after an access. -/
def Scanner.accessed (s : Scanner) (mm vaddr : Nat) (written : Option Page) : Scanner :=
  { s with kernel := userAccess s.kernel mm vaddr written }

/-- The sweep hands over the same pages after an access as before it. -/
theorem hands_accessed (s : Scanner) (mm vaddr : Nat) (written : Option Page) (env : ScanEnv)
    (mm' addr : Nat) :
    (s.accessed mm vaddr written).hands env mm' addr = s.hands env mm' addr := by
  have hpage : (s.accessed mm vaddr written).scanPage env mm' addr = s.scanPage env mm' addr := by
    rw [scanPage_eq_frameAt, scanPage_eq_frameAt]
    have hframe : (s.accessed mm vaddr written).kernel.frameAt mm' addr =
        s.kernel.frameAt mm' addr := frameAt_userAccess _ _ _ _ _ _
    rw [hframe]
    rfl
  have hrefs : (s.accessed mm vaddr written).kernel.frames.refs = s.kernel.frames.refs :=
    refs_userAccess _ _ _ _
  unfold Scanner.hands Scanner.coldPage
  rw [hpage, hrefs]
  rfl

/-! ## Accesses and the two passes -/

/-- The scanner, the frames that have been accessed since they were last marked, and the
frames that were handed over although they had been. -/
structure Watch where
  scan : Scanner
  touched : Nat → Bool
  warm : List Nat

/-- A user access, and what either pass does at one address. -/
inductive WatchOp where
  | access (mm vaddr : Nat) (written : Option Page)
  | mark (env : ScanEnv) (mm addr : Nat)
  | sweep (env : ScanEnv) (mm addr : Nat)

/-- Nothing has been accessed yet. -/
def Watch.start (s : Scanner) : Watch := ⟨s, fun _ => false, []⟩

/-- A frame is entered as accessed, or as not accessed. -/
def Watch.touch (w : Watch) (pfn : Option Nat) (b : Bool) : Nat → Bool :=
  match pfn with
  | none => w.touched
  | some pfn => Function.update w.touched pfn b

/-- One step. -/
def watchExec (codec : Codec) (w : Watch) : WatchOp → Watch
  | .access mm vaddr written =>
      { w with
        scan := w.scan.accessed mm vaddr written
        touched := w.touch (w.scan.kernel.hit mm vaddr written) true }
  | .mark env mm addr =>
      { w with
        scan := (markPage env mm ⟨w.scan, 1, 0, []⟩ addr).scan
        touched := w.touch (w.scan.marks env mm addr) false }
  | .sweep env mm addr =>
      { w with
        scan := (sweepPage codec env mm ⟨w.scan, 1, 0, 0, 0, 0⟩ addr).scan
        warm := w.warm ++ (w.scan.hands env mm addr).toList.filter w.touched }

/-- Every step can be taken in every state. -/
def watchStep (codec : Codec) (w : Watch) (op : WatchOp) : Option Watch :=
  some (watchExec codec w op)

/-- No page that has been accessed since it was marked has the flags of a cold one. -/
def Watch.Told (w : Watch) : Prop := ∀ pfn, w.touched pfn = true → w.scan.cold pfn = false

/-- An access is not one to a page whose flags are as the mark pass has left them. -/
def MissesCold (w : Watch) : WatchOp → Prop
  | .access mm vaddr written =>
      ∀ pfn, w.scan.kernel.hit mm vaddr written = some pfn → w.scan.cold pfn = false
  | _ => True

theorem touch_eq (w : Watch) (hit : Option Nat) (b : Bool) (pfn : Nat) :
    w.touch hit b pfn = if hit = some pfn then b else w.touched pfn := by
  cases hit with
  | none => rfl
  | some pfn' => simp [Watch.touch, Function.update_apply, eq_comm]

/-- A step keeps the flags true to the accesses exactly when it is no access to a cold page. -/
theorem told_exec_iff (codec : Codec) {w : Watch} (hw : w.Told) (op : WatchOp) :
    (watchExec codec w op).Told ↔ MissesCold w op := by
  cases op with
  | access mm vaddr written =>
      constructor
      · intro htold pfn hhit
        refine htold pfn ?_
        have htouch := touch_eq w (w.scan.kernel.hit mm vaddr written) true pfn
        rwa [if_pos hhit] at htouch
      · intro hmiss pfn htouched
        have htouch := touch_eq w (w.scan.kernel.hit mm vaddr written) true pfn
        by_cases hhit : w.scan.kernel.hit mm vaddr written = some pfn
        · exact hmiss pfn hhit
        · rw [if_neg hhit] at htouch
          exact hw pfn (htouch.symm.trans htouched)
  | mark env mm addr =>
      refine iff_of_true (fun pfn htouched => ?_) trivial
      have htouch := touch_eq w (w.scan.marks env mm addr) false pfn
      have hcold := cold_markPage env mm ⟨w.scan, 1, 0, []⟩ addr pfn
      have htouched' : w.touch (w.scan.marks env mm addr) false pfn = true := htouched
      by_cases hmarks : w.scan.marks env mm addr = some pfn
      · rw [htouch, if_pos hmarks] at htouched'
        cases htouched'
      · rw [if_neg hmarks] at hcold
        rw [htouch, if_neg hmarks] at htouched'
        exact hcold.trans (hw pfn htouched')
  | sweep env mm addr =>
      refine iff_of_true (fun pfn htouched => ?_) trivial
      by_contra hcold
      have hbefore : w.scan.cold pfn = true :=
        cold_of_cold_sweepPage (Bool.eq_true_of_not_eq_false hcold)
      rw [hw pfn htouched] at hbefore
      cases hbefore

/-- Where the flags are true to the accesses, nothing warm is handed over. -/
theorem warm_exec (codec : Codec) {w : Watch} (hw : w.Told) (op : WatchOp) :
    (watchExec codec w op).warm = w.warm := by
  cases op with
  | access mm vaddr written => rfl
  | mark env mm addr => rfl
  | sweep env mm addr =>
      have hnone : (w.scan.hands env mm addr).toList.filter w.touched = [] := by
        apply List.filter_eq_nil_iff.2
        intro pfn hpfn htouched
        have hcold := cold_of_hands (Option.mem_toList.1 hpfn)
        rw [hw pfn htouched] at hcold
        cases hcold
      show w.warm ++ _ = w.warm
      rw [hnone, List.append_nil]

/-- An access to a page that a sweep would hand over does not keep the sweep from it. -/
theorem warm_of_access (codec : Codec) {w : Watch} {mm vaddr mm' addr pfn : Nat}
    {written : Option Page} {env : ScanEnv}
    (hhit : w.scan.kernel.hit mm vaddr written = some pfn)
    (hhands : w.scan.hands env mm' addr = some pfn) :
    (watchExec codec (watchExec codec w (.access mm vaddr written)) (.sweep env mm' addr)).warm =
      w.warm ++ [pfn] := by
  have htouched : w.touch (w.scan.kernel.hit mm vaddr written) true pfn = true := by
    rw [touch_eq, if_pos hhit]
  have hafter : (w.scan.accessed mm vaddr written).hands env mm' addr = some pfn := by
    rw [hands_accessed, hhands]
  show w.warm ++ ((w.scan.accessed mm vaddr written).hands env mm' addr).toList.filter
    (w.touch (w.scan.kernel.hit mm vaddr written) true) = _
  rw [hafter, Option.toList_some, List.filter_cons_of_pos htouched, List.filter_nil]

/-! ## The loops of both passes are runs -/

def WatchOp.isAccess : WatchOp → Bool
  | .access _ _ _ => true
  | _ => false

/-- What a step does to the scanner depends on nothing but the scanner. -/
theorem scan_markPage (env : ScanEnv) (mm : Nat) (s : MarkState) (addr : Nat) :
    (markPage env mm s addr).scan = (markPage env mm ⟨s.scan, 1, 0, []⟩ addr).scan := by
  unfold markPage
  cases s.scan.scanPage env mm addr with
  | none => rfl
  | some pfn =>
      dsimp only
      split
      · rfl
      split <;> rfl

theorem scan_sweepPage (codec : Codec) (env : ScanEnv) (mm : Nat) (s : SweepState) (addr : Nat) :
    (sweepPage codec env mm s addr).scan =
      (sweepPage codec env mm ⟨s.scan, 1, 0, 0, 0, 0⟩ addr).scan := by
  unfold sweepPage
  cases s.scan.scanPage env mm addr with
  | none => rfl
  | some pfn =>
      dsimp only
      split
      · rfl
      split
      · rfl
      split
      · rfl
      split
      · rfl
      split <;> rfl

/-- The scanners agree but for the tick. -/
def SameButTick (s s' : Scanner) : Prop := ∃ tick, s' = { s with tick := tick }

/-- A call of `minimem_mark_vma` is a run of steps. -/
theorem markPages_run (codec : Codec) (env : ScanEnv) (startTime : Int) (mm stop : Nat)
    (addrs : List Nat) {s : MarkState} {w : Watch} (h : w.scan = s.scan) :
    ∃ ops w', Run (watchStep codec) (fun _ op => op.isAccess = false) w ops w' ∧
      SameButTick w'.scan (markPages env startTime mm stop addrs s).2.scan := by
  induction addrs generalizing s w with
  | nil => exact ⟨[], w, .nil w, s.scan.tick, by rw [h]; rfl⟩
  | cons addr addrs ih =>
      unfold markPages
      split
      · exact ⟨[], w, .nil w, s.scan.tick, by rw [h]⟩
      split
      · exact ⟨[], w, .nil w, s.scan.tick, by rw [h]⟩
      split
      · exact ⟨[], w, .nil w, s.scan.tick + 1, by rw [h]; rfl⟩
      · have hstep : (watchExec codec w (.mark env mm addr)).scan =
            (markPage env mm s addr).scan := by
          rw [scan_markPage, ← h]
          rfl
        obtain ⟨ops, w', hrun, hscan⟩ := ih hstep
        exact ⟨.mark env mm addr :: ops, w', .cons rfl rfl hrun, hscan⟩

/-- The loop of `minimem_sweep_vma` is a run of steps. -/
theorem sweepPages_run (codec : Codec) (env : ScanEnv) (startTime : Int) (mm stop : Nat)
    (addrs : List Nat) {s : SweepState} {w : Watch} (h : w.scan = s.scan) :
    ∃ ops w', Run (watchStep codec) (fun _ op => op.isAccess = false) w ops w' ∧
      SameButTick w'.scan (sweepPages codec env startTime mm stop addrs s).2.scan := by
  induction addrs generalizing s w with
  | nil => exact ⟨[], w, .nil w, s.scan.tick, by rw [h]; rfl⟩
  | cons addr addrs ih =>
      unfold sweepPages
      split
      · exact ⟨[], w, .nil w, s.scan.tick, by rw [h]⟩
      split
      · exact ⟨[], w, .nil w, s.scan.tick, by rw [h]⟩
      split
      · exact ⟨[], w, .nil w, s.scan.tick + 1, by rw [h]; rfl⟩
      · have hstep : (watchExec codec w (.sweep env mm addr)).scan =
            (sweepPage codec env mm s addr).scan := by
          rw [scan_sweepPage, ← h]
          rfl
        obtain ⟨ops, w', hrun, hscan⟩ := ih hstep
        exact ⟨.sweep env mm addr :: ops, w', .cons rfl rfl hrun, hscan⟩

/-! ## Runs -/

theorem told_start (s : Scanner) : (Watch.start s).Told := fun _ h => by cases h

/-- **Cold pages**: from any scanner, the flags stay true to the accesses along a run exactly
when no access of the run is to a page that has the flags of a cold one, and along such a run
no page is handed over that was accessed since it was last marked. -/
theorem coldPages_along (codec : Codec) (s : Scanner) (ops : List WatchOp) :
    (Along (watchStep codec) Watch.Told (.start s) ops ↔
      Guarded (watchStep codec) MissesCold (.start s) ops) ∧
    (Guarded (watchStep codec) MissesCold (.start s) ops →
      Along (watchStep codec) (fun w => w.warm = []) (.start s) ops) := by
  constructor
  · apply along_iff_guarded (I := fun _ => True) _ _ _ ops (told_start s) trivial
    · intro w op _ hstep
      cases hstep
    · intro _ _ _ _ _
      trivial
    · intro w op w' htold _ hstep
      cases hstep
      exact told_exec_iff codec htold op
  · intro hguarded
    have hkeep : ∀ w op w', (w.Told ∧ w.warm = []) → MissesCold w op →
        watchStep codec w op = some w' → (w'.Told ∧ w'.warm = []) := by
      rintro w op w' ⟨htold, hwarm⟩ hmiss hstep
      cases hstep
      exact ⟨(told_exec_iff codec htold op).2 hmiss, (warm_exec codec htold op).trans hwarm⟩
    exact hguarded.along (I := fun w => w.Told ∧ w.warm = []) hkeep (fun _ h => h.2)
      ⟨told_start s, rfl⟩

/-- A page is read, marked and handed over. -/
theorem coldPages_along_onePage :
    Along (watchStep samePageCodec) (fun w => w.warm = []) (.start (.fresh onePage))
      [.access 0 0x1000 none, .mark .ok 0 0x1000, .sweep .ok 0 0x1000] :=
  (coldPages_along samePageCodec (.fresh onePage) _).2
    ⟨fun _ _ => rfl, fun _ _ => ⟨trivial, fun _ _ => ⟨trivial, fun _ _ => trivial⟩⟩⟩

/-- A page is marked, read and handed over. -/
theorem not_coldPages_onePage :
    ¬Along (watchStep samePageCodec) (fun w => w.warm = []) (.start (.fresh onePage))
      [.mark .ok 0 0x1000, .access 0 0x1000 none, .sweep .ok 0 0x1000] := by
  rintro ⟨-, hmark⟩
  have haccess := (hmark _ rfl).2
  have hsweep := (haccess _ rfl).2
  have hwarm := (hsweep _ rfl).head
  have hhit : (markPage .ok 0 ⟨.fresh onePage, 1, 0, []⟩ 0x1000).scan.kernel.hit 0 0x1000 none =
      some 0 := by decide
  have hhands : (markPage .ok 0 ⟨.fresh onePage, 1, 0, []⟩ 0x1000).scan.hands .ok 0 0x1000 =
      some 0 := by decide
  rw [warm_of_access samePageCodec hhit hhands] at hwarm
  cases hwarm

end MiniMem
