import HeyMacMbed.Runs
import Mathlib.Logic.Relation

/-!
# A thread among others

A thread runs a program of atomic calls on a shared world, over and over; between
any two calls the environment may act. `wp` is the weakest precondition of a
program under that interference, with an assertion before every call. If the
body of the thread's loop keeps an invariant, the assertions hold in every run.
-/

namespace Threads

variable {Op : Type} (Res : Op → Type)

/-- A program, by its next call and what it does with the result. -/
inductive Prog (α : Type) where
  | ret (a : α)
  | call (o : Op) (k : Res o → Prog α)

variable {Res} {α β : Type}

namespace Prog

def bind : Prog Res α → (α → Prog Res β) → Prog Res β
  | .ret a, f => f a
  | .call o k, f => .call o fun r => (k r).bind f

instance : Monad (Prog Res) where
  pure := .ret
  bind := Prog.bind

/-- A single call. -/
def perform (o : Op) : Prog Res (Res o) := .call o .ret

def nextOp : Prog Res α → Option Op
  | .ret _ => none
  | .call o _ => some o

/-- All calls a program can make satisfy `φ`. -/
def Calls (φ : Op → Prop) : Prog Res α → Prop
  | .ret _ => True
  | .call o k => φ o ∧ ∀ r, (k r).Calls φ

theorem calls_bind {φ : Op → Prop} {p : Prog Res α} {f : α → Prog Res β} (hp : p.Calls φ)
    (hf : ∀ a, (f a).Calls φ) : (p >>= f).Calls φ := by
  induction p with
  | ret a => exact hf a
  | call o k ih => exact ⟨hp.1, fun r => ih r (hp.2 r)⟩

end Prog

/-- `exec` and `env` say what a call and an environment's action do to the world, if
they can happen; `C` resolves what a call leaves open. -/
structure System (Res : Op → Type) (W E C L : Type) where
  exec : (o : Op) → C → W → Option (Res o × W)
  env : E → W → Option W
  body : L → Prog Res L

inductive Label (E C : Type) where
  | env (e : E)
  | act (c : C)

structure Config (Res : Op → Type) (W L : Type) where
  world : W
  prog : Prog Res L

variable {W E C L : Type} (sys : System Res W E C L)

namespace System

/-- One step: an environment's action, the next call, or the next round of the loop. -/
def step : Config Res W L → Label E C → Option (Config Res W L)
  | ⟨w, p⟩, .env e => (sys.env e w).map fun w' => ⟨w', p⟩
  | ⟨w, .call o k⟩, .act c => (sys.exec o c w).map fun x => ⟨x.2, k x.1⟩
  | ⟨w, .ret l⟩, .act _ => some ⟨w, sys.body l⟩

/-- The run along given labels, as long as `ok` lets it. -/
def run (ok : Config Res W L → Label E C → Bool) :
    Config Res W L → List (Label E C) → Option (Config Res W L)
  | c, [] => some c
  | c, l :: ls => if ok c l then (sys.step c l).bind fun c' => run ok c' ls else none

/-- The configurations of the runs from `init` whose steps pass `guard`. -/
def Reach (init : Config Res W L → Prop) (guard : Config Res W L → Label E C → Prop) :
    Config Res W L → Prop :=
  Runs.Reach init (fun c l c' => sys.step c l = some c') guard

variable {sys}

theorem reach_run {init : Config Res W L → Prop} {guard : Config Res W L → Label E C → Prop}
    {ok : Config Res W L → Label E C → Bool} (hok : ∀ c l, ok c l = true → guard c l)
    {c c' : Config Res W L} {ls : List (Label E C)} (h : sys.Reach init guard c)
    (hr : sys.run ok c ls = some c') : sys.Reach init guard c' := by
  induction ls generalizing c with
  | nil =>
    cases hr
    exact h
  | cons l ls ih =>
    obtain ⟨hl, hr⟩ := Option.ite_none_right_eq_some.mp hr
    obtain ⟨d, hd, hrest⟩ := Option.bind_eq_some_iff.mp hr
    exact ih (.next h (hok c l hl) hd) hrest

/-- A run that ends as `P` tells reaches such a configuration. -/
theorem reach_of_any {init : Config Res W L → Prop}
    {guard : Config Res W L → Label E C → Prop} {ok : Config Res W L → Label E C → Bool}
    (hok : ∀ c l, ok c l = true → guard c l) {c : Config Res W L} (hc : init c)
    (ls : List (Label E C)) (P : Config Res W L → Bool) (h : (sys.run ok c ls).any P = true) :
    ∃ c', sys.Reach init guard c' ∧ P c' = true := by
  obtain ⟨c', hr, hP⟩ := (Option.any_eq_true P _).mp h
  exact ⟨c', reach_run hok (.start hc) hr, hP⟩

end System

/-- What is assumed of every environment's action and of every call when it happens, and
what is asserted before every call. -/
structure Contract (Op W E : Type) where
  envOk : W → E → Prop
  opOk : Op → W → Prop
  pre : Op → W → Prop

variable (ct : Contract Op W E)

/-- The steps that meet the contract's assumptions. -/
def Contract.guard (c : Config Res W L) : Label E C → Prop
  | .env e => ct.envOk c.world e
  | .act _ => ∀ o, c.prog.nextOp = some o → ct.opOk o c.world

/-- One action of the environment. -/
def Rely (w w' : W) : Prop := ∃ e, ct.envOk w e ∧ sys.env e w = some w'

def Stable (P : W → Prop) : Prop := ∀ w w', P w → Rely sys ct w w' → P w'

/-- The assertions of the contract hold before every call of the program and `Q` when it
returns, whatever the environment does meanwhile. -/
def wp : Prog Res α → (α → W → Prop) → W → Prop
  | .ret a, Q, w => ∀ w₁, Relation.ReflTransGen (Rely sys ct) w w₁ → Q a w₁
  | .call o k, Q, w => ∀ w₁, Relation.ReflTransGen (Rely sys ct) w w₁ →
      ct.pre o w₁ ∧ ∀ c r w₂, ct.opOk o w₁ → sys.exec o c w₁ = some (r, w₂) → wp (k r) Q w₂

variable {sys ct}

theorem Stable.star {P : W → Prop} (hP : Stable sys ct P) {w w' : W} (hw : P w)
    (h : Relation.ReflTransGen (Rely sys ct) w w') : P w' := by
  induction h with
  | refl => exact hw
  | tail _ hstep ih => exact hP _ _ ih hstep

theorem Stable.and {P Q : W → Prop} (hP : Stable sys ct P) (hQ : Stable sys ct Q) :
    Stable sys ct fun w => P w ∧ Q w :=
  fun w w' h hr => ⟨hP w w' h.1 hr, hQ w w' h.2 hr⟩

theorem wp_rely {p : Prog Res α} {Q : α → W → Prop} {w w' : W} (h : wp sys ct p Q w)
    (hr : Rely sys ct w w') : wp sys ct p Q w' := by
  cases p with
  | ret a => exact fun w₁ h₁ => h w₁ (.head hr h₁)
  | call o k => exact fun w₁ h₁ => h w₁ (.head hr h₁)

theorem wp_pre {o : Op} {k : Res o → Prog Res α} {Q : α → W → Prop} {w : W}
    (h : wp sys ct (.call o k) Q w) : ct.pre o w := (h w .refl).1

theorem wp_post {a : α} {Q : α → W → Prop} {w : W} (h : wp sys ct (.ret a) Q w) : Q a w :=
  h w .refl

section Rules
variable {P : W → Prop} {Q : α → W → Prop} {w : W}

theorem wp_mono {Q' : α → W → Prop} {p : Prog Res α} (hQ : ∀ a w, Q a w → Q' a w)
    (h : wp sys ct p Q w) : wp sys ct p Q' w := by
  induction p generalizing w with
  | ret a => exact fun w₁ h₁ => hQ a w₁ (h w₁ h₁)
  | call o k ih =>
    intro w₁ h₁
    obtain ⟨hpre, hnext⟩ := h w₁ h₁
    exact ⟨hpre, fun c r w₂ hok hx => ih r (hnext c r w₂ hok hx)⟩

theorem wp_bind {p : Prog Res β} {f : β → Prog Res α}
    (h : wp sys ct p (fun b w => wp sys ct (f b) Q w) w) : wp sys ct (p >>= f) Q w := by
  induction p generalizing w with
  | ret b => exact wp_post h
  | call o k ih =>
    intro w₁ h₁
    obtain ⟨hpre, hnext⟩ := h w₁ h₁
    exact ⟨hpre, fun c r w₂ hok hx => ih r (hnext c r w₂ hok hx)⟩

theorem wp_pure {a : α} (hP : Stable sys ct P) (hw : P w) (h : ∀ w, P w → Q a w) :
    wp sys ct (pure a) Q w :=
  fun w₁ h₁ => h w₁ (hP.star hw h₁)

/-- A call from a stable assertion. -/
theorem wp_perform {o : Op} {k : Res o → Prog Res α} (hP : Stable sys ct P) (hw : P w)
    (hpre : ∀ w, P w → ct.pre o w)
    (h : ∀ w c r w', P w → ct.opOk o w → sys.exec o c w = some (r, w') →
      wp sys ct (k r) Q w') : wp sys ct (Prog.perform o >>= k) Q w :=
  fun w₁ h₁ => ⟨hpre w₁ (hP.star hw h₁), fun c r w₂ hok hx =>
    h w₁ c r w₂ (hP.star hw h₁) hok hx⟩

theorem wp_last {o : Op} {Q : Res o → W → Prop} (hP : Stable sys ct P) (hw : P w)
    (hpre : ∀ w, P w → ct.pre o w)
    (h : ∀ w c r w', P w → ct.opOk o w → sys.exec o c w = some (r, w') →
      wp sys ct (pure r) Q w') : wp sys ct (Prog.perform o) Q w :=
  fun w₁ h₁ => ⟨hpre w₁ (hP.star hw h₁), fun c r w₂ hok hx =>
    h w₁ c r w₂ (hP.star hw h₁) hok hx⟩

/-- The call keeps the assertion. -/
def Keeps (sys : System Res W E C L) (ct : Contract Op W E) (P : W → Prop) (o : Op) : Prop :=
  ∀ w c r w', P w → ct.opOk o w → sys.exec o c w = some (r, w') → P w'

theorem wp_keep {o : Op} {k : Res o → Prog Res α} (hP : Stable sys ct P)
    (hpre : ∀ w, P w → ct.pre o w) (hk : Keeps sys ct P o) (hw : P w)
    (h : ∀ r w, P w → wp sys ct (k r) Q w) : wp sys ct (Prog.perform o >>= k) Q w :=
  wp_perform hP hw hpre fun w c r w' hw hok hx => h r w' (hk w c r w' hw hok hx)

/-- A program all of whose calls keep an assertion keeps it. -/
theorem wp_calls {φ : Op → Prop} {p : Prog Res α} (hP : Stable sys ct P)
    (hpre : ∀ o w, P w → φ o → ct.pre o w) (hk : ∀ o, φ o → Keeps sys ct P o)
    (hp : p.Calls φ) (hw : P w) : wp sys ct p (fun _ w => P w) w := by
  induction p generalizing w with
  | ret a => exact fun w₁ h₁ => hP.star hw h₁
  | call o k ih =>
    intro w₁ h₁
    have hw₁ := hP.star hw h₁
    exact ⟨hpre o w₁ hw₁ hp.1, fun c r w₂ hok hx =>
      ih r (hp.2 r) (hk o hp.1 w₁ c r w₂ hw₁ hok hx)⟩

end Rules

/-- If the first program establishes the loop's invariant and the body keeps it, every
configuration reached meets the weakest precondition of what it has still to run. -/
theorem reach_wp {init : Config Res W L → Prop} {J : L → W → Prop}
    (hinit : ∀ c, init c → wp sys ct c.prog J c.world)
    (hbody : ∀ l w, J l w → wp sys ct (sys.body l) J w) {c : Config Res W L}
    (h : sys.Reach init ct.guard c) : wp sys ct c.prog J c.world := by
  refine Runs.Reach.invariant (I := fun c => wp sys ct c.prog J c.world) hinit ?_ h
  rintro ⟨w, p⟩ l c' hI hg hstep
  cases l with
  | env e =>
    obtain ⟨w', hw', rfl⟩ := Option.map_eq_some_iff.mp hstep
    exact wp_rely hI ⟨e, hg, hw'⟩
  | act ch =>
    cases p with
    | ret a =>
      cases hstep
      exact hbody a w (wp_post hI)
    | call o k =>
      obtain ⟨⟨r, w'⟩, hx, rfl⟩ := Option.map_eq_some_iff.mp hstep
      exact (hI w .refl).2 ch r w' (hg o rfl) hx

/-- Before every call of a run its assertion holds. -/
theorem pre_of_wp {c : Config Res W L} {J : L → W → Prop} (h : wp sys ct c.prog J c.world)
    {o : Op} (ho : c.prog.nextOp = some o) : ct.pre o c.world := by
  obtain ⟨w, p⟩ := c
  cases p with
  | ret a => cases ho
  | call o' k =>
    cases ho
    exact wp_pre h

/-- The contract with something known of every state a call is made in. -/
def Contract.assuming (ct : Contract Op W E) (A : W → Prop) : Contract Op W E :=
  { ct with opOk := fun o w => ct.opOk o w ∧ A w }

/-- A contract whose assumptions hold in all runs is about all runs. -/
theorem reach_guard {init : Config Res W L → Prop} (he : ∀ w e, ct.envOk w e)
    (ho : ∀ c, sys.Reach init (fun _ _ => True) c →
      ∀ o, c.prog.nextOp = some o → ct.opOk o c.world) {c : Config Res W L}
    (h : sys.Reach init (fun _ _ => True) c) : sys.Reach init ct.guard c := by
  induction h with
  | start h => exact .start h
  | @next s t l hr _ hs ih =>
    refine .next ih ?_ hs
    cases l with
    | env e => exact he s.world e
    | act ch => exact ho s hr

/-- What holds in all runs may be assumed of each call. -/
theorem reach_assuming {init : Config Res W L → Prop} {A : W → Prop}
    (hA : ∀ c, sys.Reach init (fun _ _ => True) c → A c.world) {c : Config Res W L}
    (h : sys.Reach init ct.guard c) : sys.Reach init (ct.assuming A).guard c := by
  have free : ∀ {c}, sys.Reach init ct.guard c → sys.Reach init (fun _ _ => True) c := by
    intro c h
    induction h with
    | start h => exact .start h
    | next _ _ hs ih => exact .next ih trivial hs
  induction h with
  | start h => exact .start h
  | @next s t l hr hg hs ih =>
    refine .next ih ?_ hs
    cases l with
    | env e => exact hg
    | act ch => exact fun o ho => ⟨hg o ho, hA s (free hr)⟩

theorem Stable.const {P : Prop} : Stable sys ct fun _ => P := fun _ _ h _ => h

theorem Stable.imp {A : Prop} {P : W → Prop} (hP : Stable sys ct P) :
    Stable sys ct fun w => A → P w :=
  fun w w' h hr ha => hP w w' (h ha) hr

end Threads
