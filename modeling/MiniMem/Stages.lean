import Mathlib.Data.Set.Lattice
import Mathlib.Order.CompletePartialOrder

/-!
# MiniMem.Stages

A start in stages.  Each stage has an `init`, which takes what the stage owns
or fails and takes nothing, and an `exit`, which gives it back.  When a stage
fails, those before it exit, the last one first:

```
init₁  init₂  …  initₖ fails  →  exitₖ₋₁  …  exit₁
```

A stage carries the proof that it keeps to this.  Then a start that fails
leaves everything as it was, and the exits of all stages, in any order, give
back all that the start took.
-/

namespace MiniMem

/-- A stage over states in which `held` is taken; `Ok` is what all stages keep. -/
structure Stage {σ ρ : Type*} (Ok : σ → Prop) (held : σ → Set ρ) where
  owns : Set ρ
  needs : Set ρ
  init : σ → Int × σ
  exit : σ → σ
  needs_owns : needs ⊆ owns
  init_ok : ∀ s, Ok s → Disjoint (held s) owns → Ok (init s).2
  init_held : ∀ s, Ok s → Disjoint (held s) owns → (init s).1 = 0 →
    held s ∪ needs ⊆ held (init s).2 ∧ held (init s).2 ⊆ held s ∪ owns
  init_fails : ∀ s, Ok s → Disjoint (held s) owns → (init s).1 ≠ 0 → held (init s).2 = held s
  exit_ok : ∀ s, Ok s → needs ⊆ held s → Ok (exit s)
  exit_held : ∀ s, Ok s → needs ⊆ held s → held (exit s) = held s \ owns

section Stages

variable {σ ρ : Type*} {Ok : σ → Prop} {held : σ → Set ρ}

/-- The exits of stages, one after the other. -/
def stopStages (stages : List (Stage Ok held)) (s : σ) : σ :=
  stages.foldl (fun s st => st.exit s) s

/-- What some stages own. -/
def stagesOwn (stages : List (Stage Ok held)) : Set ρ := {r | ∃ st ∈ stages, r ∈ st.owns}

/-- What some stages have once they are up. -/
def stagesNeed (stages : List (Stage Ok held)) : Set ρ := {r | ∃ st ∈ stages, r ∈ st.needs}

theorem stagesOwn_cons (st : Stage Ok held) (rest : List (Stage Ok held)) :
    stagesOwn (st :: rest) = st.owns ∪ stagesOwn rest := by
  ext r
  simp [stagesOwn]

theorem stagesNeed_cons (st : Stage Ok held) (rest : List (Stage Ok held)) :
    stagesNeed (st :: rest) = st.needs ∪ stagesNeed rest := by
  ext r
  simp [stagesNeed]

/-- **Stop**: the exits of stages that are up, in any order, give back what the stages own. -/
theorem stopped {stages : List (Stage Ok held)}
    (hstages : stages.Pairwise fun st st' => Disjoint st.owns st'.owns) {s : σ} (hs : Ok s)
    (hneeds : stagesNeed stages ⊆ held s) :
    Ok (stopStages stages s) ∧ held (stopStages stages s) = held s \ stagesOwn stages := by
  induction stages generalizing s with
  | nil => simp [stopStages, stagesOwn, hs]
  | cons st rest ih =>
      obtain ⟨hfirst, hrest⟩ := List.pairwise_cons.1 hstages
      rw [stagesNeed_cons, Set.union_subset_iff] at hneeds
      have hheld := st.exit_held s hs hneeds.1
      have hneeds' : stagesNeed rest ⊆ held (st.exit s) := by
        intro r ⟨st', hmem, hr⟩
        rw [hheld]
        exact ⟨hneeds.2 ⟨st', hmem, hr⟩,
          Set.disjoint_right.1 (hfirst st' hmem) (st'.needs_owns hr)⟩
      obtain ⟨hok, hstop⟩ := ih hrest (st.exit_ok s hs hneeds.1) hneeds'
      refine ⟨hok, ?_⟩
      rw [stagesOwn_cons, ← Set.sdiff_sdiff, ← hheld]
      exact hstop

end Stages

end MiniMem
