import Mathlib.Data.List.Forall2
import HeyMacMbed.Threads

/-!
# Two runs in step

A likeness says what passes for the same in two runs: calls, results, worlds, actions of
the environment, what a round leaves. If like calls do like things to like worlds, and
the bodies make like calls as long as they get like results, then two runs along like
labels stay alike. An excused call may hold up the second run where the first goes on.
-/

namespace Threads

variable {Op : Type} {Res : Op → Type} {W E C L α β γ δ : Type}

structure Likeness (Res : Op → Type) (W E L : Type) where
  op : Op → Op → Prop
  res : (o o' : Op) → Res o → Res o' → Prop
  world : W → W → Prop
  env : E → E → Prop
  locals : L → L → Prop
  excused : Op → Prop

namespace Likeness

variable (φ : Likeness Res W E L)

/-- Programs that make like calls as long as they get like results. -/
inductive Progs (A : α → β → Prop) : Prog Res α → Prog Res β → Prop where
  | ret {a : α} {b : β} : A a b → Progs A (.ret a) (.ret b)
  | call {o o' : Op} {k : Res o → Prog Res α} {k' : Res o' → Prog Res β} : φ.op o o' →
      (∀ r r', φ.res o o' r r' → Progs A (k r) (k' r')) → Progs A (.call o k) (.call o' k')

variable {φ}

theorem progs_bind {A : α → β → Prop} {B : γ → δ → Prop} {p : Prog Res α} {q : Prog Res β}
    {f : α → Prog Res γ} {g : β → Prog Res δ} (h : φ.Progs A p q)
    (hf : ∀ a b, A a b → φ.Progs B (f a) (g b)) : φ.Progs B (p >>= f) (q >>= g) := by
  induction h with
  | ret hab => exact hf _ _ hab
  | call ho _ ih => exact .call ho ih

theorem progs_perform {A : α → β → Prop} {o o' : Op} {k : Res o → Prog Res α}
    {k' : Res o' → Prog Res β} (ho : φ.op o o')
    (hk : ∀ r r', φ.res o o' r r' → φ.Progs A (k r) (k' r')) :
    φ.Progs A (Prog.perform o >>= k) (Prog.perform o' >>= k') := .call ho hk

/-- Like programs are about to make like calls, or have both returned. -/
theorem Progs.nextOp {A : α → β → Prop} {p : Prog Res α} {q : Prog Res β} (h : φ.Progs A p q) :
    (p.nextOp = none ∧ q.nextOp = none) ∨
      ∃ o o', p.nextOp = some o ∧ q.nextOp = some o' ∧ φ.op o o' := by
  cases h with
  | ret _ => exact Or.inl ⟨rfl, rfl⟩
  | call ho _ => exact Or.inr ⟨_, _, rfl, rfl, ho⟩

variable (φ)

structure Configs (c d : Config Res W L) : Prop where
  world : φ.world c.world d.world
  prog : φ.Progs φ.locals c.prog d.prog

/-- What a call finds by itself may differ. -/
def Labels : Label E C → Label E C → Prop
  | .env e, .env e' => φ.env e e'
  | .act _, .act _ => True
  | _, _ => False

/-- Like steps of the two systems lead from like configurations to like ones. -/
structure InStep (sys sys' : System Res W E C L) : Prop where
  env : ∀ {e e' w w' v}, φ.env e e' → φ.world w w' → sys.env e w = some v →
    ∃ v', sys'.env e' w' = some v' ∧ φ.world v v'
  exec : ∀ {o o' ch w w' r v} (ch' : C), φ.op o o' → φ.world w w' → sys.exec o ch w = some (r, v) →
    (∃ r' v', sys'.exec o' ch' w' = some (r', v') ∧ φ.res o o' r r' ∧ φ.world v v') ∨
      φ.excused o' ∧ sys'.exec o' ch' w' = none
  body : ∀ {l l'}, φ.locals l l' → φ.Progs φ.locals (sys.body l) (sys'.body l')

/-- The thread is held up at an excused call. -/
def HeldUp (sys : System Res W E C L) (c : Config Res W L) : Label E C → Prop
  | .env _ => False
  | .act ch => ∃ o, c.prog.nextOp = some o ∧ φ.excused o ∧ sys.exec o ch c.world = none

variable {φ} {sys sys' : System Res W E C L} (h : φ.InStep sys sys')
  {c c' d : Config Res W L}
include h

theorem InStep.step {l l' : Label E C} (hc : φ.Configs c c') (hl : φ.Labels l l')
    (hs : sys.step c l = some d) :
    (∃ d', sys'.step c' l' = some d' ∧ φ.Configs d d') ∨ φ.HeldUp sys' c' l' := by
  obtain ⟨w, p⟩ := c
  obtain ⟨w', p'⟩ := c'
  obtain ⟨hw, hp⟩ := hc
  cases l with
  | env e =>
    cases l' with
    | act ch' => cases hl
    | env e' =>
      obtain ⟨v, hv, rfl⟩ := Option.map_eq_some_iff.mp hs
      obtain ⟨v', hv', hvv⟩ := h.env hl hw hv
      exact Or.inl ⟨⟨v', p'⟩,
        congrArg (Option.map fun w => (⟨w, p'⟩ : Config Res W L)) hv', hvv, hp⟩
  | act ch =>
    cases l' with
    | env e' => cases hl
    | act ch' =>
      cases hp with
      | ret hab =>
        cases hs
        exact Or.inl ⟨_, rfl, hw, h.body hab⟩
      | @call o o' k k' ho hk =>
        have hmap : (sys.exec o ch w).map (fun x => (⟨x.2, k x.1⟩ : Config Res W L)) = some d := hs
        obtain ⟨⟨r, v⟩, hx, rfl⟩ := Option.map_eq_some_iff.mp hmap
        rcases h.exec ch' ho hw hx with ⟨r', v', hx', hr, hvv⟩ | ⟨hexc, hnone⟩
        · refine Or.inl ⟨⟨v', k' r'⟩, ?_, hvv, hk r r' hr⟩
          exact congrArg (Option.map fun x => (⟨x.2, k' x.1⟩ : Config Res W L)) hx'
        · exact Or.inr ⟨o', rfl, hexc, hnone⟩

/-- Two runs along like labels stay alike until the second is held up. -/
theorem InStep.run {ls ls' : List (Label E C)} (hc : φ.Configs c c')
    (hls : List.Forall₂ φ.Labels ls ls') (hr : sys.run (fun _ _ => true) c ls = some d) :
    (∃ d', sys'.run (fun _ _ => true) c' ls' = some d' ∧ φ.Configs d d') ∨
      ∃ done l rest e, ls' = done ++ l :: rest ∧
        sys'.run (fun _ _ => true) c' done = some e ∧ φ.HeldUp sys' e l := by
  induction hls generalizing c c' with
  | nil =>
    cases hr
    exact Or.inl ⟨c', rfl, hc⟩
  | @cons l l' ls ls' hl _ ih =>
    have hrun : ((sys.step c l).bind fun c => sys.run (fun _ _ => true) c ls) = some d := hr
    obtain ⟨e, hs, hrest⟩ := Option.bind_eq_some_iff.mp hrun
    rcases h.step hc hl hs with ⟨e', hs', he⟩ | hheld
    · have hcons : ∀ ks, sys'.run (fun _ _ => true) c' (l' :: ks) =
          sys'.run (fun _ _ => true) e' ks := fun ks =>
        congrArg (Option.bind · fun c => sys'.run (fun _ _ => true) c ks) hs'
      rcases ih he hrest with ⟨d', hd', hdd⟩ | ⟨done, m, rest, f, rfl, hdone, hheld⟩
      · exact Or.inl ⟨d', (hcons ls').trans hd', hdd⟩
      · exact Or.inr ⟨l' :: done, m, rest, f, rfl, (hcons done).trans hdone, hheld⟩
    · exact Or.inr ⟨[], l', ls', c', rfl, rfl, hheld⟩

end Likeness

end Threads
