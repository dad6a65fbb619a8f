import Mathlib.Order.Basic
import Mathlib.Tactic.Common

/-!
# MiniMem.Machine

Runs of a partial step function, for any state and label type.  `Run` is a
finite run all of whose steps meet a guard; `Along` says that a property
holds in every state of the run a label list drives, and `Guarded` that
every step of it meets the guard.  A label whose step is not enabled ends
the run.
-/

namespace MiniMem

section Machine

variable {σ α : Type*} {step : σ → α → Option σ}

/-- A run from one state to another all of whose steps meet the guard `G`. -/
inductive Run (step : σ → α → Option σ) (G : σ → α → Prop) : σ → List α → σ → Prop
  | nil (s : σ) : Run step G s [] s
  | cons {s s' t : σ} {a : α} {as : List α} (hstep : step s a = some s') (hG : G s a)
      (hrun : Run step G s' as t) : Run step G s (a :: as) t

/-- What every guarded step preserves holds at the end of a guarded run. -/
theorem Run.invariant {G : σ → α → Prop} {Inv : σ → Prop}
    (hpres : ∀ s a s', Inv s → G s a → step s a = some s' → Inv s')
    {s t : σ} {as : List α} (hrun : Run step G s as t) (hs : Inv s) : Inv t := by
  induction hrun with
  | nil s => exact hs
  | cons hstep hG _ ih => exact ih (hpres _ _ _ hs hG hstep)

/-- A run that meets one guard meets every weaker one. -/
theorem Run.mono {G H : σ → α → Prop} (hGH : ∀ s a, G s a → H s a) {s t : σ} {as : List α}
    (hrun : Run step G s as t) : Run step H s as t := by
  induction hrun with
  | nil s => exact .nil s
  | cons hstep hG _ ih => exact .cons hstep (hGH _ _ hG) ih

/-- Runs compose. -/
theorem Run.append {G : σ → α → Prop} {s t u : σ} {as bs : List α} (hrun : Run step G s as t)
    (hrun' : Run step G t bs u) : Run step G s (as ++ bs) u := by
  induction hrun with
  | nil s => exact hrun'
  | cons hstep hG _ ih => exact .cons hstep hG (ih hrun')

/-- A run of labels is the step of the first and the run of the others. -/
theorem foldlM_cons_eq_some {s t : σ} {a : α} {as : List α} :
    (a :: as).foldlM step s = some t ↔
      ∃ s', step s a = some s' ∧ as.foldlM step s' = some t := by
  rw [List.foldlM_cons]
  exact Option.bind_eq_some_iff

/-- Executing the labels one by one is a run. -/
theorem run_of_foldlM {s t : σ} {as : List α} (h : as.foldlM step s = some t) :
    Run step (fun _ _ => True) s as t := by
  induction as generalizing s with
  | nil =>
      injection h with h
      rw [← h]
      exact .nil s
  | cons a as ih =>
      obtain ⟨s', hstep, hrun⟩ := foldlM_cons_eq_some.1 h
      exact .cons hstep trivial (ih hrun)

/-- The property holds in every state of the run from `s`. -/
def Along (step : σ → α → Option σ) (P : σ → Prop) : σ → List α → Prop
  | s, [] => P s
  | s, a :: as => P s ∧ ∀ s', step s a = some s' → Along step P s' as

/-- Every step of the run from `s` meets the guard. -/
def Guarded (step : σ → α → Option σ) (G : σ → α → Prop) : σ → List α → Prop
  | _, [] => True
  | s, a :: as => G s a ∧ ∀ s', step s a = some s' → Guarded step G s' as

theorem Along.head {P : σ → Prop} {s : σ} {as : List α} (h : Along step P s as) : P s := by
  cases as with
  | nil => exact h
  | cons a as => exact h.1

/-- What holds in every state of a run holds at its end. -/
theorem Along.last {P : σ → Prop} {s t : σ} {as : List α} (h : Along step P s as)
    (hrun : as.foldlM step s = some t) : P t := by
  induction as generalizing s with
  | nil =>
      injection hrun with hrun
      rw [← hrun]
      exact h
  | cons a as ih =>
      obtain ⟨s', hstep, hrest⟩ := foldlM_cons_eq_some.1 hrun
      exact ih (h.2 s' hstep) hrest

/-- A property of an invariant that every guarded step preserves holds along guarded runs. -/
theorem Guarded.along {P I : σ → Prop} {G : σ → α → Prop}
    (hI : ∀ s a s', I s → G s a → step s a = some s' → I s') (hP : ∀ s, I s → P s) {s : σ}
    {as : List α} (hs : I s) (h : Guarded step G s as) : Along step P s as := by
  induction as generalizing s with
  | nil => exact hP s hs
  | cons a as ih =>
      exact ⟨hP s hs, fun s' hstep => ih (hI s a s' hs h.1 hstep) (h.2 s' hstep)⟩

/-- Where every step keeps an invariant, what follows from it holds along every run. -/
theorem along_of_invariant {P I : σ → Prop} (hI : ∀ s a s', I s → step s a = some s' → I s')
    (hP : ∀ s, I s → P s) {s : σ} (as : List α) (hs : I s) : Along step P s as := by
  induction as generalizing s with
  | nil => exact hP s hs
  | cons a as ih => exact ⟨hP s hs, fun s' hstep => ih (hI s a s' hs hstep)⟩

/-- A run that meets one guard meets every weaker one. -/
theorem Guarded.mono {G H : σ → α → Prop} (hGH : ∀ s a, G s a → H s a) {s : σ} {as : List α}
    (h : Guarded step G s as) : Guarded step H s as := by
  induction as generalizing s with
  | nil => trivial
  | cons a as ih => exact ⟨hGH s a h.1, fun s' hstep => ih (h.2 s' hstep)⟩

/-- Whether a run meets a guard that can be decided. -/
instance decidableGuarded {G : σ → α → Prop} [∀ s a, Decidable (G s a)] :
    (s : σ) → (as : List α) → Decidable (Guarded step G s as)
  | _, [] => .isTrue trivial
  | s, a :: as =>
      match hstep : step s a with
      | none => decidable_of_iff (G s a) <| by simp [Guarded, hstep]
      | some s' =>
          have : Decidable (Guarded step G s' as) := decidableGuarded s' as
          decidable_of_iff (G s a ∧ Guarded step G s' as) <| by simp [Guarded, hstep]

/-- A guarded run goes on with an enabled step. -/
theorem guarded_cons_of_step {G : σ → α → Prop} {s s' : σ} {a : α} {as : List α}
    (hstep : step s a = some s') (hG : G s a) (h : Guarded step G s' as) :
    Guarded step G s (a :: as) := by
  refine ⟨hG, fun s'' hs'' => ?_⟩
  rw [hstep] at hs''
  injection hs'' with hs''
  rwa [← hs'']

/-- Executing the labels one by one, with every step meeting the guard, is a guarded run. -/
theorem Guarded.run {G : σ → α → Prop} {s t : σ} {as : List α} (hG : Guarded step G s as)
    (h : as.foldlM step s = some t) : Run step G s as t := by
  induction as generalizing s with
  | nil =>
      injection h with h
      rw [← h]
      exact .nil s
  | cons a as ih =>
      obtain ⟨s', hstep, hrest⟩ := foldlM_cons_eq_some.1 h
      exact .cons hstep hG.1 (ih (hG.2 s' hstep) hrest)

/-- Where the guard of an enabled step decides, on an auxiliary invariant, whether
the step preserves a property, the property holds along a run exactly when every
step meets its guard. -/
theorem along_iff_guarded {P I : σ → Prop} {G : σ → α → Prop}
    (henabled : ∀ s a, I s → step s a = none → G s a)
    (hI : ∀ s a s', I s → step s a = some s' → I s')
    (hP : ∀ s a s', P s → I s → step s a = some s' → (P s' ↔ G s a))
    {s : σ} (as : List α) (hs : P s) (hIs : I s) :
    Along step P s as ↔ Guarded step G s as := by
  induction as generalizing s with
  | nil => simp [Along, Guarded, hs]
  | cons a as ih =>
      simp only [Along, Guarded, hs, true_and]
      cases hstep : step s a with
      | none => simp [henabled s a hIs hstep]
      | some s' =>
          have hkeep := hP s a s' hs hIs hstep
          have hIs' := hI s a s' hIs hstep
          simp only [Option.some.injEq, forall_eq']
          constructor
          · intro halong
            exact ⟨hkeep.1 halong.head, (ih (hkeep.1 halong.head |> hkeep.2) hIs').1 halong⟩
          · rintro ⟨hG, hguarded⟩
            exact (ih (hkeep.2 hG) hIs').2 hguarded

/-- Every step of the run from `s` is enabled, and the property holds in every state of it. -/
def AlongAll (step : σ → α → Option σ) (P : σ → Prop) : σ → List α → Prop
  | s, [] => P s
  | s, a :: as => P s ∧ ∃ s', step s a = some s' ∧ AlongAll step P s' as

theorem AlongAll.head {P : σ → Prop} {s : σ} {as : List α} (h : AlongAll step P s as) : P s := by
  cases as with
  | nil => exact h
  | cons a as => exact h.1

/-- Where the guard of a step decides, on an auxiliary invariant, whether the step is enabled
and preserves a property, a run has all its steps and keeps the property exactly when every
step meets its guard. -/
theorem alongAll_iff_guarded {P I : σ → Prop} {G : σ → α → Prop}
    (hI : ∀ s a s', I s → step s a = some s' → I s')
    (hP : ∀ s a, P s → I s → ((∃ s', step s a = some s' ∧ P s') ↔ G s a))
    {s : σ} (as : List α) (hs : P s) (hIs : I s) :
    AlongAll step P s as ↔ Guarded step G s as := by
  induction as generalizing s with
  | nil => simp [AlongAll, Guarded, hs]
  | cons a as ih =>
      simp only [AlongAll, Guarded, hs, true_and, ← hP s a hs hIs]
      constructor
      · rintro ⟨s', hstep, hall⟩
        refine ⟨⟨s', hstep, hall.head⟩, fun s'' hstep' => ?_⟩
        rw [hstep, Option.some.injEq] at hstep'
        rw [← hstep']
        exact (ih hall.head (hI s a s' hIs hstep)).1 hall
      · rintro ⟨⟨s', hstep, hs'⟩, hguarded⟩
        exact ⟨s', hstep, (ih hs' (hI s a s' hIs hstep)).2 (hguarded s' hstep)⟩

/-- Where a guarded step is enabled and keeps an invariant, a guarded run has all its steps, and
what follows from the invariant holds in every state of it. -/
theorem Guarded.alongAll {P I : σ → Prop} {G : σ → α → Prop}
    (hI : ∀ s a, I s → G s a → ∃ s', step s a = some s' ∧ I s') (hP : ∀ s, I s → P s) {s : σ}
    {as : List α} (hs : I s) (h : Guarded step G s as) : AlongAll step P s as := by
  induction as generalizing s with
  | nil => exact hP s hs
  | cons a as ih =>
      obtain ⟨s', hstep, hs'⟩ := hI s a hs h.1
      exact ⟨hP s hs, s', hstep, ih hs' (h.2 s' hstep)⟩

section Measure

variable {β : Type*} [PartialOrder β] {μ : σ → β} {G : σ → α → Prop}

/-- What no step lowers, no run lowers. -/
theorem foldlM_measure_le (hmono : ∀ s a s', step s a = some s' → μ s ≤ μ s') {s t : σ}
    {as : List α} (h : as.foldlM step s = some t) : μ s ≤ μ t := by
  induction as generalizing s with
  | nil =>
      injection h with h
      exact le_of_eq (by rw [h])
  | cons a as ih =>
      obtain ⟨s', hstep, hrest⟩ := foldlM_cons_eq_some.1 h
      exact le_trans (hmono s a s' hstep) (ih hrest)

/-- Where no step lowers a measure, and a step leaves it alone exactly when it meets its
guard, a run leaves it alone exactly when all its steps meet theirs. -/
theorem foldlM_measure_eq_iff (hmono : ∀ s a s', step s a = some s' → μ s ≤ μ s')
    (hG : ∀ s a s', step s a = some s' → (μ s' = μ s ↔ G s a)) {s t : σ} {as : List α}
    (h : as.foldlM step s = some t) : μ t = μ s ↔ Guarded step G s as := by
  induction as generalizing s with
  | nil =>
      injection h with h
      simp [h, Guarded]
  | cons a as ih =>
      obtain ⟨s', hstep, hrest⟩ := foldlM_cons_eq_some.1 h
      have hle := hmono s a s' hstep
      have hle' : μ s' ≤ μ t := foldlM_measure_le hmono hrest
      simp only [Guarded, hstep, Option.some.injEq, forall_eq', ← ih hrest, ← hG s a s' hstep]
      constructor
      · intro heq
        have hback : μ s' = μ s := le_antisymm (heq ▸ hle') hle
        exact ⟨hback, heq.trans hback.symm⟩
      · rintro ⟨hfirst, hlast⟩
        exact hlast.trans hfirst

end Measure

end Machine

end MiniMem
