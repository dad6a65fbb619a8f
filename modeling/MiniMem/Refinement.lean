import MiniMem.Machine

/-!
# MiniMem.Refinement

A machine seen from outside.  A step may emit an event; a specification says
which events may come next and where they lead.  `Refines` is a refinement
mapping that is known to work on the states of an invariant, for the steps
that meet a guard:

```
      s --a, e?--> s'
      |            |
     abs          abs        no event: abs s' = abs s
      v            v
    abs s --e?--> abs s'     event e:  spec (abs s) e = some (abs s')
```

The events of a guarded run are then a run of the specification.
-/

namespace MiniMem

section Refinement

variable {σ α ε τ : Type*}

/-- A run whose steps meet the guard `G`, with the events that it emits. -/
inductive Emits (step : σ → α → Option (σ × Option ε)) (G : σ → α → Prop) :
    σ → List α → List ε → σ → Prop
  | nil (s : σ) : Emits step G s [] [] s
  | cons {s s' t : σ} {a : α} {as : List α} {e : Option ε} {es : List ε}
      (hstep : step s a = some (s', e)) (hG : G s a) (hrun : Emits step G s' as es t) :
      Emits step G s (a :: as) (e.toList ++ es) t

/-- A step does nothing that the specification sees, or what its event says. -/
def Simulates (spec : τ → ε → Option τ) (m m' : τ) : Option ε → Prop
  | none => m' = m
  | some e => spec m e = some m'

/-- The map `abs` is a refinement mapping on the states of `Inv`. -/
structure Refines (step : σ → α → Option (σ × Option ε)) (G : σ → α → Prop)
    (spec : τ → ε → Option τ) (abs : σ → τ) (Inv : σ → Prop) : Prop where
  keeps : ∀ s a s' e, Inv s → G s a → step s a = some (s', e) → Inv s'
  simulates : ∀ s a s' e, Inv s → G s a → step s a = some (s', e) →
    Simulates spec (abs s) (abs s') e

variable {step : σ → α → Option (σ × Option ε)} {G : σ → α → Prop} {spec : τ → ε → Option τ}
  {abs : σ → τ} {Inv : σ → Prop}

/-- An event or none is a run of the specification of that length. -/
theorem Simulates.foldlM {m m' : τ} {e : Option ε} (h : Simulates spec m m' e) :
    e.toList.foldlM spec m = some m' := by
  cases e with
  | none =>
      rw [Simulates] at h
      simp [h]
  | some e =>
      rw [Simulates] at h
      simp [h]

/-- The invariant holds at the end of a run. -/
theorem Refines.inv (h : Refines step G spec abs Inv) {s t : σ} {as : List α} {es : List ε}
    (hrun : Emits step G s as es t) (hs : Inv s) : Inv t := by
  induction hrun with
  | nil s => exact hs
  | cons hstep hG _ ih => exact ih (h.keeps _ _ _ _ hs hG hstep)

/-- The events of a run are a run of the specification. -/
theorem Refines.foldlM (h : Refines step G spec abs Inv) {s t : σ} {as : List α} {es : List ε}
    (hrun : Emits step G s as es t) (hs : Inv s) :
    es.foldlM spec (abs s) = some (abs t) := by
  induction hrun with
  | nil s => rfl
  | cons hstep hG _ ih =>
      have hfirst := (h.simulates _ _ _ _ hs hG hstep).foldlM
      rw [List.foldlM_append, hfirst]
      exact ih (h.keeps _ _ _ _ hs hG hstep)

end Refinement

end MiniMem
