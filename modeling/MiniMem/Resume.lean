import Mathlib.Data.List.Nodup
import Mathlib.Order.Lattice

/-!
# MiniMem.Resume

Walks over a list of stations that halt somewhere and go on later, for any
station type.  A station has a key, and work at places; a walk that halts at
a place of a station saves its key and the place.  The walk that goes on
from there skips the stations of smaller key, starts at the saved place in
the station of that key, and does all the work of every other one.

The keys say nothing about the order of the list.  The walks do everything
once if a station at which they can halt comes behind the work of smaller
keys and before the work of larger keys; otherwise one halt is enough to
leave work out or to do it twice.
-/

namespace MiniMem

/-! ## Lists that enumerate a property -/

/-- The list has everything with the property, and that once. -/
structure Enumerates {α : Type*} (l : List α) (P : α → Prop) : Prop where
  nodup : l.Nodup
  mem_iff : ∀ x, x ∈ l ↔ P x

namespace Enumerates

variable {α β : Type*} {l l' : List α} {P Q : α → Prop}

theorem nil (h : ∀ x, ¬P x) : Enumerates [] P := ⟨List.nodup_nil, fun x => by simp [h x]⟩

theorem congr (h : Enumerates l P) (hPQ : ∀ x, P x ↔ Q x) : Enumerates l Q :=
  ⟨h.nodup, fun x => (h.mem_iff x).trans (hPQ x)⟩

theorem append (h : Enumerates l P) (h' : Enumerates l' Q) (hdisj : ∀ x, P x → ¬Q x) :
    Enumerates (l ++ l') fun x => P x ∨ Q x where
  nodup := by
    rw [List.nodup_append]
    refine ⟨h.nodup, h'.nodup, fun x hx y hy heq => ?_⟩
    subst heq
    exact hdisj x ((h.mem_iff x).1 hx) ((h'.mem_iff x).1 hy)
  mem_iff x := by rw [List.mem_append, h.mem_iff, h'.mem_iff]

theorem map {f : α → β} (hf : Function.Injective f) (h : Enumerates l P) :
    Enumerates (l.map f) fun y => ∃ x, P x ∧ f x = y where
  nodup := h.nodup.map hf
  mem_iff y := by simp [h.mem_iff]

/-- One key before every element. -/
theorem tag {κ : Type*} (key : κ) (h : Enumerates l P) :
    Enumerates (l.map fun x => (key, x)) fun y => key = y.1 ∧ P y.2 := by
  have hinj : Function.Injective fun x : α => (key, x) := fun _ _ heq => (Prod.ext_iff.1 heq).2
  refine (h.map hinj).congr fun y => ?_
  constructor
  · rintro ⟨x, hx, rfl⟩
    exact ⟨rfl, hx⟩
  · rintro ⟨hkey, hx⟩
    exact ⟨y.2, hx, Prod.ext hkey rfl⟩

variable [BEq α] [LawfulBEq α]

theorem count_of (h : Enumerates l P) {x : α} (hx : P x) : l.count x = 1 :=
  List.count_eq_one_of_mem h.nodup ((h.mem_iff x).2 hx)

theorem count_of_not (h : Enumerates l P) {x : α} (hx : ¬P x) : l.count x = 0 :=
  List.count_eq_zero_of_not_mem fun hmem => hx ((h.mem_iff x).1 hmem)

end Enumerates

/-! ## Stations -/

/-- A station is in one place of the list. -/
theorem key_ne_of_split {σ κ : Type*} {key : σ → κ} {stations : List σ}
    (hkeys : (stations.map key).Nodup) {pre post : List σ} {p : σ}
    (hsplit : stations = pre ++ p :: post) :
    (∀ s ∈ pre, key s ≠ key p) ∧ (∀ s ∈ post, key s ≠ key p) ∧
      ∀ s ∈ pre, ∀ s' ∈ post, key s ≠ key s' := by
  rw [hsplit, List.map_append, List.map_cons, List.nodup_append, List.nodup_cons] at hkeys
  obtain ⟨-, ⟨hpost, -⟩, hpre⟩ := hkeys
  refine ⟨fun s hs => hpre _ (List.mem_map_of_mem hs) _ (List.mem_cons_self ..), fun s hs h => ?_,
    fun s hs s' hs' => hpre _ (List.mem_map_of_mem hs) _
      (List.mem_cons_of_mem _ (List.mem_map_of_mem hs'))⟩
  exact hpost (h ▸ List.mem_map_of_mem hs)

section Walks

variable {σ κ π : Type*} [LinearOrder κ] [LinearOrder π]

/-! ## Where a walk goes on -/

/-- What a walk that goes on from `c` may still do; from `none` on that is everything. -/
def Pending (c : Option (κ × π)) (y : κ × π) : Prop :=
  ∀ p ∈ c, p.1 < y.1 ∨ (p.1 = y.1 ∧ p.2 ≤ y.2)

theorem pending_none (y : κ × π) : Pending none y := by
  intro p hp
  cases hp

theorem pending_some {p y : κ × π} : Pending (some p) y ↔ p.1 < y.1 ∨ (p.1 = y.1 ∧ p.2 ≤ y.2) := by
  simp [Pending]

/-- What is left behind a place at which the walk arrived was left before. -/
theorem Pending.trans {c : Option (κ × π)} {p y : κ × π} (hc : Pending c p)
    (hp : Pending (some p) y) : Pending c y := by
  intro q hq
  rw [pending_some] at hp
  rcases hc q hq with hlt | ⟨heq, hle⟩
  · rcases hp with hlt' | ⟨heq', -⟩
    · exact .inl (hlt.trans hlt')
    · exact .inl (heq' ▸ hlt)
  · rcases hp with hlt' | ⟨heq', hle'⟩
    · exact .inl (heq ▸ hlt')
    · exact .inr ⟨heq.trans heq', hle.trans hle'⟩

/-! ## Walks -/

variable (key : σ → κ) (work : σ → π → Prop) (halts : σ → Prop)

/-- One walk from `c` and what it does: it comes to the end of the list, or halts at a
place of a station, behind the work of all the stations before. -/
inductive Leg (stations : List σ) (c : Option (κ × π)) : List (κ × π) → Option (κ × π) → Prop
  | whole {out : List (κ × π)}
      (hout : Enumerates out fun y => Pending c y ∧ ∃ s ∈ stations, key s = y.1 ∧ work s y.2) :
      Leg stations c out none
  | halted {pre : List σ} {p : σ} {post : List σ} {e : π} {out : List (κ × π)}
      (hsplit : stations = pre ++ p :: post) (hhalts : halts p) (hplace : Pending c (key p, e))
      (hout : Enumerates out fun y => Pending c y ∧
        ((∃ s ∈ pre, key s = y.1 ∧ work s y.2) ∨ (key p = y.1 ∧ work p y.2 ∧ y.2 < e))) :
      Leg stations c out (some (key p, e))

/-- Walks from `c` up to the first that comes to the end of the list. -/
inductive Journey (stations : List σ) : Option (κ × π) → List (κ × π) → Prop
  | last {c : Option (κ × π)} {out : List (κ × π)} (h : Leg key work halts stations c out none) :
      Journey stations c out
  | next {c : Option (κ × π)} {d : κ × π} {out out' : List (κ × π)}
      (h : Leg key work halts stations c out (some d)) (h' : Journey stations (some d) out') :
      Journey stations c (out ++ out')

/-- Every station at which walks can halt comes behind the stations with work of smaller key
and before those of larger key. -/
def Ordered (stations : List σ) : Prop :=
  ∀ pre p post, stations = pre ++ p :: post → halts p → ∀ q x, work q x →
    (q ∈ pre → key q < key p) ∧ (q ∈ post → key p < key q)

variable {key work halts}

/-- The walk over no station. -/
theorem Leg.nil (c : Option (κ × π)) : Leg key work halts [] c [] none :=
  .whole (.nil fun y => by simp)

/-- A walk that halts at the first station. -/
theorem Leg.first {s : σ} {c : Option (κ × π)} {e : π} {out : List (κ × π)} (stations : List σ)
    (hhalts : halts s) (hplace : Pending c (key s, e))
    (hout : Enumerates out fun y => Pending c y ∧ key s = y.1 ∧ work s y.2 ∧ y.2 < e) :
    Leg key work halts (s :: stations) c out (some (key s, e)) :=
  .halted (List.nil_append (s :: stations)).symm hhalts hplace (hout.congr fun y => by simp)

/-- A walk that goes through the first station. -/
theorem Leg.cons {s : σ} {stations : List σ} (hkeys : ((s :: stations).map key).Nodup)
    {c d : Option (κ × π)} {out out' : List (κ × π)}
    (hout : Enumerates out fun y => Pending c y ∧ key s = y.1 ∧ work s y.2)
    (h : Leg key work halts stations c out' d) :
    Leg key work halts (s :: stations) c (out ++ out') d := by
  obtain ⟨-, hpost, -⟩ := key_ne_of_split hkeys (List.nil_append (s :: stations)).symm
  cases h with
  | whole hout' =>
      refine .whole ((hout.append hout' ?_).congr fun y => ?_)
      · rintro y ⟨-, hkey, -⟩ ⟨-, s', hs', hkey', -⟩
        exact hpost s' hs' (hkey'.trans hkey.symm)
      · simp only [List.exists_mem_cons_iff, and_or_left]
  | @halted pre p post e _ hsplit hhalts hplace hout' =>
      have hsplit' : s :: stations = (s :: pre) ++ p :: post := by rw [hsplit, List.cons_append]
      refine .halted hsplit' hhalts hplace ((hout.append hout' ?_).congr fun y => ?_)
      · rintro y ⟨-, hkey, -⟩ ⟨-, ⟨s', hs', hkey', -⟩ | ⟨hkey', -, -⟩⟩
        · refine hpost s' ?_ (hkey'.trans hkey.symm)
          rw [hsplit]
          exact List.mem_append_left _ hs'
        · refine hpost p ?_ (hkey'.trans hkey.symm)
          rw [hsplit]
          simp
      · simp only [List.exists_mem_cons_iff, and_or_left, or_assoc]

variable {stations : List σ} (hkeys : (stations.map key).Nodup)
include hkeys

/-- **One walk**: in an ordered list it does what was left and is left no more. -/
theorem Leg.mem_iff (hordered : Ordered key work halts stations) {c : Option (κ × π)} {d : κ × π}
    {out : List (κ × π)}
    (h : Leg key work halts stations c out (some d)) {s : σ} {x : π} (hs : s ∈ stations)
    (hx : work s x) :
    (key s, x) ∈ out ↔ Pending c (key s, x) ∧ ¬Pending (some d) (key s, x) := by
  cases h with
  | @halted pre p post e _ hsplit hhalts hplace hout =>
      obtain ⟨hpre, hpost, hacross⟩ := key_ne_of_split hkeys hsplit
      obtain ⟨hbefore, hafter⟩ := hordered pre p post hsplit hhalts s x hx
      rw [hout.mem_iff, and_congr_right_iff, pending_some]
      intro _
      have hmem := hs
      rw [hsplit, List.mem_append, List.mem_cons] at hmem
      rcases hmem with hin | rfl | hin
      · have hlt := hbefore hin
        exact iff_of_true (.inl ⟨s, hin, rfl, hx⟩) (by simp [hlt.asymm, hlt.ne'])
      · constructor
        · rintro (⟨s', hs', hkey, -⟩ | ⟨-, -, hlt⟩)
          · exact absurd hkey (hpre s' hs')
          · simpa using hlt
        · intro hnot
          exact .inr ⟨rfl, hx, by simpa using hnot⟩
      · refine iff_of_false ?_ (by simp [hafter hin])
        rintro (⟨s', hs', hkey, -⟩ | ⟨hkey, -, -⟩)
        · exact hacross s' hs' s hin hkey
        · exact hpost s hin hkey.symm

/-- **All walks**: in an ordered list, the walks from `c` on do everything once that is
left there, and nothing else. -/
theorem Journey.count (hordered : Ordered key work halts stations) {c : Option (κ × π)}
    {out : List (κ × π)}
    (h : Journey key work halts stations c out) {s : σ} {x : π} (hs : s ∈ stations)
    (hx : work s x) :
    (Pending c (key s, x) → out.count (key s, x) = 1) ∧
      (¬Pending c (key s, x) → out.count (key s, x) = 0) := by
  induction h with
  | last h =>
      cases h with
      | whole hout =>
          exact ⟨fun hc => hout.count_of ⟨hc, s, hs, rfl, hx⟩,
            fun hc => hout.count_of_not fun hall => hc hall.1⟩
  | @next c d out out' h h' ih =>
      have hmem := h.mem_iff hkeys hordered hs hx
      have hleg : ∃ P, Enumerates out P := by
        cases h with
        | halted _ _ _ hout => exact ⟨_, hout⟩
      obtain ⟨P, hout⟩ := hleg
      have hback : Pending (some d) (key s, x) → Pending c (key s, x) := by
        cases h with
        | halted _ _ hplace _ => exact hplace.trans
      rw [List.count_append]
      by_cases hd : Pending (some d) (key s, x)
      · have hnot : (key s, x) ∉ out := fun hin => (hmem.1 hin).2 hd
        rw [ih.1 hd, List.count_eq_zero_of_not_mem hnot]
        exact ⟨fun _ => rfl, fun hc => absurd (hback hd) hc⟩
      · rw [ih.2 hd, Nat.add_zero]
        refine ⟨fun hc => ?_, fun hc => ?_⟩
        · exact hout.count_of ((hout.mem_iff _).1 (hmem.2 ⟨hc, hd⟩))
        · exact List.count_eq_zero_of_not_mem fun hin => hc (hmem.1 hin).1

/-! ## Lists out of order -/

omit [LinearOrder π] in
/-- The halt that goes wrong in a list out of order: work of smaller key is behind it, or
work of larger key before it. -/
theorem exists_of_not_ordered (h : ¬Ordered key work halts stations) :
    ∃ pre p post q x, stations = pre ++ p :: post ∧ halts p ∧ work q x ∧
      ((q ∈ post ∧ key q < key p) ∨ (q ∈ pre ∧ key p < key q)) := by
  unfold Ordered at h
  push Not at h
  obtain ⟨pre, p, post, hsplit, hhalts, q, x, hx, hwrong⟩ := h
  obtain ⟨hpre, hpost, -⟩ := key_ne_of_split hkeys hsplit
  refine ⟨pre, p, post, q, x, hsplit, hhalts, hx, ?_⟩
  by_cases hgood : q ∈ pre → key q < key p
  · obtain ⟨hin, hle⟩ := hwrong hgood
    exact .inl ⟨hin, lt_of_le_of_ne hle (hpost q hin)⟩
  · push Not at hgood
    exact .inr ⟨hgood.1, lt_of_le_of_ne hgood.2 (hpre q hgood.1).symm⟩

/-- Two walks, of which the first halts there: that work is left out, or done twice. -/
theorem count_ne_one_of_halt {pre post : List σ} {p q : σ} {e x : π} {out out' : List (κ × π)}
    (hsplit : stations = pre ++ p :: post) (hx : work q x)
    (hwrong : (q ∈ post ∧ key q < key p) ∨ (q ∈ pre ∧ key p < key q))
    (h : Leg key work halts stations none out (some (key p, e)))
    (h' : Leg key work halts stations (some (key p, e)) out' none) :
    (out ++ out').count (key q, x) ≠ 1 := by
  obtain ⟨hpre, hpost, hacross⟩ := key_ne_of_split hkeys hsplit
  have hout : Enumerates out fun y => Pending none y ∧
      ((∃ s ∈ pre, key s = y.1 ∧ work s y.2) ∨ (key p = y.1 ∧ work p y.2 ∧ y.2 < e)) := by
    generalize hd : some (key p, e) = d at h
    cases h with
    | whole => cases hd
    | @halted pre' p' post' e' _ hsplit' _ _ hout =>
        simp only [Option.some.injEq, Prod.mk.injEq] at hd
        obtain ⟨hkey, rfl⟩ := hd
        have hmem : p ∈ stations := by simp [hsplit]
        have hmem' : p' ∈ stations := by simp [hsplit']
        have hp : p = p' := List.inj_on_of_nodup_map hkeys hmem hmem' hkey
        subst hp
        rw [hsplit, List.append_cons_inj_of_notMem (fun hin => hpre p hin rfl)
          (fun hin => hpost p hin rfl)] at hsplit'
        rw [hsplit'.1]
        exact hout
  rw [List.count_append]
  cases h' with
  | whole hout' =>
      rcases hwrong with ⟨hin, hlt⟩ | ⟨hin, hlt⟩
      · have hfirst : out.count (key q, x) = 0 := by
          refine hout.count_of_not ?_
          rintro ⟨-, ⟨s, hs, hkey, -⟩ | ⟨hkey, -, -⟩⟩
          · exact hacross s hs q hin hkey
          · exact hpost q hin hkey.symm
        have hsecond : out'.count (key q, x) = 0 := by
          refine hout'.count_of_not ?_
          rintro ⟨hpending, -⟩
          rw [pending_some] at hpending
          rcases hpending with hlt' | ⟨heq, -⟩
          · exact hlt.asymm hlt'
          · exact hlt.ne' heq
        omega
      · have hmem : q ∈ stations := by
          rw [hsplit]
          exact List.mem_append_left _ hin
        have hfirst : out.count (key q, x) = 1 :=
          hout.count_of ⟨pending_none _, .inl ⟨q, hin, rfl, hx⟩⟩
        have hsecond : out'.count (key q, x) = 1 :=
          hout'.count_of ⟨pending_some.2 (.inl hlt), q, hmem, rfl, hx⟩
        omega

end Walks

end MiniMem
