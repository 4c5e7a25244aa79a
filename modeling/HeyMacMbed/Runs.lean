import Mathlib.Tactic.Common

/-!
# Runs of a transition system

A run is a path of labelled steps. `Reach` collects the states of all runs
whose steps pass a guard, with the invariant rule; `safe_iff` says when a guard
is exact, that is, when a run is safe in all its states just if each of its
steps passes the guard.
-/

namespace Runs

universe u v
variable {S : Type u} {L : Type v}

/-- The states reached from `init` by steps that pass `guard`. -/
inductive Reach (init : S → Prop) (step : S → L → S → Prop) (guard : S → L → Prop) : S → Prop where
  | start {s : S} : init s → Reach init step guard s
  | next {s t : S} {l : L} : Reach init step guard s → guard s l → step s l t →
      Reach init step guard t

section Reach
variable {init : S → Prop} {step : S → L → S → Prop} {guard : S → L → Prop}

/-- What holds initially and is kept by every guarded step holds of every state reached. -/
theorem Reach.invariant {I : S → Prop} (hinit : ∀ s, init s → I s)
    (hstep : ∀ s l t, I s → guard s l → step s l t → I t) {s : S}
    (h : Reach init step guard s) : I s := by
  induction h with
  | start h => exact hinit _ h
  | next _ hg hs ih => exact hstep _ _ _ ih hg hs

/-- A weaker guard lets through all runs, and more. -/
theorem Reach.mono {guard' : S → L → Prop} (hg : ∀ s l, guard s l → guard' s l) {s : S}
    (h : Reach init step guard s) : Reach init step guard' s := by
  induction h with
  | start h => exact .start h
  | next _ hl hs ih => exact .next ih (hg _ _ hl) hs

/-- Forward simulation: if every guarded step leaves the related state related or is a
guarded step of the other system, then each state reached is related to one reached there. -/
theorem Reach.simulate {T : Type*} {M : Type*} {init' : T → Prop} {step' : T → M → T → Prop}
    {guard' : T → M → Prop} {R : S → T → Prop} (hinit : ∀ s, init s → ∃ t, init' t ∧ R s t)
    (hstep : ∀ s t l s', R s t → guard s l → step s l s' →
      R s' t ∨ ∃ m t', guard' t m ∧ step' t m t' ∧ R s' t') {s : S}
    (h : Reach init step guard s) : ∃ t, Reach init' step' guard' t ∧ R s t := by
  induction h with
  | start h =>
    obtain ⟨t, ht, hR⟩ := hinit _ h
    exact ⟨t, .start ht, hR⟩
  | next _ hg hs ih =>
    obtain ⟨t, ht, hR⟩ := ih
    rcases hstep _ t _ _ hR hg hs with hR' | ⟨m, t', hg', hs', hR'⟩
    · exact ⟨t, ht, hR'⟩
    · exact ⟨t', .next ht hg' hs', hR'⟩

end Reach

/-- A run from `s`, as the list of its labels with the states they lead to. -/
inductive Path (step : S → L → S → Prop) : S → List (L × S) → Prop where
  | nil (s : S) : Path step s []
  | cons {s t : S} {l : L} {p : List (L × S)} : step s l t → Path step t p →
      Path step s ((l, t) :: p)

/-- Every step of the run passes the guard in the state it is taken in. -/
def Guarded (guard : S → L → Prop) : S → List (L × S) → Prop
  | _, [] => True
  | s, (l, t) :: p => guard s l ∧ Guarded guard t p

/-- If a guard tells for one step from a safe state whether the next state is safe,
then it tells for whole runs. -/
theorem Path.safe_iff {step : S → L → S → Prop} {guard : S → L → Prop} {Safe : S → Prop}
    (hstep : ∀ s l t, Safe s → step s l t → (Safe t ↔ guard s l)) {s : S}
    {p : List (L × S)} (h : Path step s p) (hs : Safe s) :
    (∀ x ∈ p, Safe x.2) ↔ Guarded guard s p := by
  induction h with
  | nil s => simp [Guarded]
  | @cons s t l p hst _ ih =>
    have hone := hstep s l t hs hst
    constructor
    · intro hall
      have ht : Safe t := hall _ List.mem_cons_self
      exact ⟨hone.mp ht, (ih ht).mp fun x hx => hall x (List.mem_cons_of_mem _ hx)⟩
    · rintro ⟨hg, hrest⟩ x hx
      have ht : Safe t := hone.mpr hg
      rcases List.mem_cons.mp hx with rfl | hx
      · exact ht
      · exact (ih ht).mpr hrest x hx

end Runs
