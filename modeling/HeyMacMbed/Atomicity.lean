import HeyMacMbed.Progress

/-!
# Atomic calls

A call may itself be a program of finer calls, with the environment acting between
those too. If all of them but the last can be put off till after what the environment
does, nothing is lost by taking the call for atomic: wherever the thread with the
finer calls gets, it is part of the way through a call of a run with atomic ones.
-/

namespace Threads

variable {Op Op' : Type} {Res : Op → Type} {Res' : Op' → Type} {W E C L α β : Type}

namespace Prog

/-- Every call replaced by the program of finer calls it stands for. -/
def expand (f : (o : Op) → Prog Res' (Res o)) : Prog Res α → Prog Res' α
  | .ret a => .ret a
  | .call o k => (f o).bind fun r => (k r).expand f

/-- The program is at a call. -/
def Busy (p : Prog Res α) : Prop := ∃ o k, p = .call o k

end Prog

/-- What a program does to `w` whose calls always return and leave nothing open. -/
def Prog.interp (exec : (o : Op) → W → Res o × W) : Prog Res α → W → α × W
  | .ret a, w => (a, w)
  | .call o k, w => (k (exec o w).1).interp exec (exec o w).2

theorem interp_bind (exec : (o : Op) → W → Res o × W) (p : Prog Res α) (g : α → Prog Res β)
    (w : W) : (p >>= g).interp exec w = (g (p.interp exec w).1).interp exec (p.interp exec w).2 := by
  induction p generalizing w with
  | ret a => rfl
  | call o k ih => exact ih _ _

/-- The call can be put off till after any action of the environment. -/
def PutOff (sys : System Res W E C L) (o : Op) : Prop :=
  ∀ c w r w₁ e w₂, sys.exec o c w = some (r, w₁) → sys.env e w₁ = some w₂ →
    ∃ w', sys.env e w = some w' ∧ sys.exec o c w' = some (r, w₂)

/-- All calls but the last satisfy `φ`. -/
def Prog.AllButLast (φ : Op → Prop) : Prog Res α → Prop
  | .ret _ => True
  | .call o k => (∀ r, ¬ (k r).Busy) ∨ (φ o ∧ ∀ r, (k r).AllButLast φ)

theorem Prog.Calls.allButLast {φ : Op → Prop} {p : Prog Res α} (h : p.Calls φ) :
    p.AllButLast φ := by
  induction p with
  | ret a => trivial
  | call o k ih => exact Or.inr ⟨h.1, fun r => ih r (h.2 r)⟩

/-- All calls but the last can be put off. -/
def Atomic (sys : System Res W E C L) (p : Prog Res α) : Prop := p.AllButLast (PutOff sys)

/-- From `p` in `w₀` the thread has come to where it is by calls that can be put off. -/
inductive Underway (sys : System Res W E C L) (p : Prog Res α) (w₀ : W) :
    Prog Res α → W → Prop where
  | start : Underway sys p w₀ p w₀
  | call {o : Op} {k : Res o → Prog Res α} {c : C} {w w' : W} {r : Res o} :
      Underway sys p w₀ (.call o k) w → PutOff sys o → sys.exec o c w = some (r, w') →
      Underway sys p w₀ (k r) w'

section Underway
variable {sys : System Res W E C L} {p q : Prog Res α} {w₀ w w' : W}

/-- What is left to run completes a run of the whole. -/
theorem Underway.alone {a : α} (h : Underway sys p w₀ q w) (hq : Alone sys q w a w') :
    Alone sys p w₀ a w' := by
  induction h with
  | start => exact hq
  | call _ _ hx ih => exact ih (.call hx hq)

/-- What the environment does meanwhile could have happened before. -/
theorem Underway.env {e : E} (h : Underway sys p w₀ q w) (he : sys.env e w = some w') :
    ∃ w₀', sys.env e w₀ = some w₀' ∧ Underway sys p w₀' q w' := by
  induction h generalizing w' with
  | start => exact ⟨w', he, .start⟩
  | call _ hput hx ih =>
    obtain ⟨w₁, he₁, hx₁⟩ := hput _ _ _ _ _ _ hx he
    obtain ⟨w₀', he₀, hunder⟩ := ih he₁
    exact ⟨w₀', he₀, .call hunder hput hx₁⟩

theorem Underway.calls {φ : Op → Prop} (h : Underway sys p w₀ q w) (hp : p.Calls φ) :
    q.Calls φ := by
  induction h with
  | start => exact hp
  | call _ _ _ ih => exact ih.2 _

/-- Within a single call the thread is before it. -/
theorem Underway.of_last {o : Op} {k : Res o → Prog Res α} (h : Underway sys p w₀ q w)
    (hp : p = .call o k) (hlast : ∀ r, ¬ (k r).Busy) : (q = p ∧ w = w₀) ∨ ¬ q.Busy := by
  induction h with
  | start => exact Or.inl ⟨rfl, rfl⟩
  | call _ _ _ ih =>
    rcases ih with ⟨hq, _⟩ | hidle
    · rw [hp] at hq
      cases hq
      exact Or.inr (hlast _)
    · exact absurd ⟨_, _, rfl⟩ hidle

end Underway

/-- The fine system runs the program `f o` for the call `o` of the coarse one: at least a
call, all but the last can be put off, and left to itself it does what `o` does. -/
structure Expands (coarse : System Res W E C L) (fine : System Res' W E C L)
    (f : (o : Op) → Prog Res' (Res o)) : Prop where
  env : fine.env = coarse.env
  body : ∀ l, fine.body l = (coarse.body l).expand f
  busy : ∀ o, (f o).Busy
  atomic : ∀ o, Atomic fine (f o)
  does : ∀ o w r w', Alone fine (f o) w r w' ↔ ∃ c, coarse.exec o c w = some (r, w')

def Config.expand (f : (o : Op) → Prog Res' (Res o)) (c : Config Res W L) : Config Res' W L :=
  ⟨c.world, c.prog.expand f⟩

/-- Where the thread with finer calls is: between two rounds of the loop, or part of the
way through the next call. -/
inductive Within (fine : System Res' W E C L) (f : (o : Op) → Prog Res' (Res o)) :
    Config Res' W L → Config Res W L → Prop where
  | between (w : W) (l : L) : Within fine f ⟨w, .ret l⟩ ⟨w, .ret l⟩
  | inside {w₀ w : W} {o : Op} {k : Res o → Prog Res L} {q : Prog Res' (Res o)} :
      Underway fine (f o) w₀ q w → q.Busy → Atomic fine q →
      Within fine f ⟨w, q.bind fun r => (k r).expand f⟩ ⟨w₀, .call o k⟩

section Expanding
variable {coarse : System Res W E C L} {fine : System Res' W E C L}
  {f : (o : Op) → Prog Res' (Res o)} (h : Expands coarse fine f)
include h

theorem within_expand (c : Config Res W L) : Within fine f (c.expand f) c := by
  obtain ⟨w, p⟩ := c
  cases p with
  | ret l => exact .between w l
  | call o k => exact .inside .start (h.busy o) (h.atomic o)

/-- A step with finer calls is a step of a run with atomic ones, or goes on within its
next call. -/
theorem within_step {c' d' : Config Res' W L} {c : Config Res W L} {l : Label E C}
    (hc : Within fine f c' c) (hs : fine.step c' l = some d') :
    Within fine f d' c ∨ ∃ m d, coarse.step c m = some d ∧ Within fine f d' d := by
  cases l with
  | env e =>
    cases hc with
    | between w l =>
      obtain ⟨w', he, rfl⟩ := Option.map_eq_some_iff.mp hs
      refine Or.inr ⟨.env e, ⟨w', .ret l⟩, ?_, .between w' l⟩
      have he : coarse.env e w = some w' := h.env ▸ he
      simp [System.step, he]
    | @inside w₀ w o k q hunder hbusy hatomic =>
      obtain ⟨w', he, rfl⟩ := Option.map_eq_some_iff.mp hs
      obtain ⟨w₀', he₀, hunder'⟩ := hunder.env he
      refine Or.inr ⟨.env e, ⟨w₀', .call o k⟩, ?_, .inside hunder' hbusy hatomic⟩
      have he₀ : coarse.env e w₀ = some w₀' := h.env ▸ he₀
      simp [System.step, he₀]
  | act ch =>
    cases hc with
    | between w l =>
      cases hs
      have hbody := within_expand h ⟨w, coarse.body l⟩
      rw [Config.expand, ← h.body] at hbody
      exact Or.inr ⟨.act ch, _, rfl, hbody⟩
    | @inside w₀ w o k q hunder hbusy hatomic =>
      obtain ⟨o', k', rfl⟩ := hbusy
      obtain ⟨⟨r, w'⟩, hx, rfl⟩ := Option.map_eq_some_iff.mp hs
      cases hq : k' r with
      | ret a =>
        -- the last call: here the atomic one happens
        have halone : Alone fine (f o) w₀ a w' := by
          refine hunder.alone (.call hx ?_)
          rw [hq]
          exact .ret a w'
        obtain ⟨c, hc⟩ := (h.does o w₀ a w').mp halone
        refine Or.inr ⟨.act c, ⟨w', k a⟩, ?_, ?_⟩
        · simp [System.step, hc]
        · have hnext := within_expand h ⟨w', k a⟩
          simp only [hq]
          exact hnext
      | call o₂ k₂ =>
        rcases hatomic with hlast | ⟨hput, hrest⟩
        · exact absurd ⟨o₂, k₂, hq⟩ (hlast r)
        · have hunder' := hunder.call hput hx
          have hatomic' := hrest r
          exact Or.inl (.inside hunder' ⟨o₂, k₂, hq⟩ hatomic')

/-- Wherever the thread with finer calls gets, it is within a call of a run with atomic
ones. -/
theorem reach_within {init : Config Res W L → Prop} {init' : Config Res' W L → Prop}
    (hinit : ∀ c', init' c' → ∃ c, init c ∧ c' = c.expand f) {c' : Config Res' W L}
    (hr : fine.Reach init' (fun _ _ => True) c') :
    ∃ c, coarse.Reach init (fun _ _ => True) c ∧ Within fine f c' c := by
  refine Runs.Reach.simulate (fun c' hc' => ?_) (fun c' c l d' hc _ hs => ?_) hr
  · obtain ⟨c, hc, rfl⟩ := hinit c' hc'
    exact ⟨c, hc, within_expand h c⟩
  · rcases within_step h hc hs with hsame | ⟨m, d, hstep, hd⟩
    · exact Or.inl hsame
    · exact Or.inr ⟨m, d, trivial, hstep, hd⟩

/-- Conversely the runs with atomic calls are runs with finer ones. -/
theorem reach_expand {init : Config Res W L → Prop} {init' : Config Res' W L → Prop}
    (hinit : ∀ c, init c → init' (c.expand f)) {c : Config Res W L}
    (hr : coarse.Reach init (fun _ _ => True) c) :
    fine.Reach init' (fun _ _ => True) (c.expand f) := by
  induction hr with
  | start hc => exact .start (hinit _ hc)
  | @next s t l _ _ hs ih =>
    obtain ⟨w, p⟩ := s
    cases l with
    | env e =>
      obtain ⟨w', he, rfl⟩ := Option.map_eq_some_iff.mp hs
      refine .next (l := .env e) ih trivial ?_
      have he : fine.env e w = some w' := h.env ▸ he
      simp [Config.expand, System.step, he]
    | act ch =>
      cases p with
      | ret l =>
        cases hs
        refine .next (l := .act ch) ih trivial ?_
        simp [Config.expand, Prog.expand, System.step, h.body]
      | call o k =>
        obtain ⟨⟨r, w'⟩, hx, rfl⟩ := Option.map_eq_some_iff.mp hs
        have halone : Alone fine (f o) w r w' := (h.does o w r w').mpr ⟨ch, hx⟩
        have hleads : Leads fine (fun _ => True) ⟨w, (f o).bind fun r => (k r).expand f⟩
            ⟨w', (k r).expand f⟩ := Leads.alone halone fun r => (k r).expand f
        exact hleads.reach ih

end Expanding

/-- A call that is the whole of one program and in no other shows where the thread is. -/
theorem Within.at_single {fine : System Res' W E C L} {f : (o : Op) → Prog Res' (Res o)}
    {o : Op} {o' : Op'} (ho : ∃ k, f o = .call o' k ∧ ∀ r, ¬ (k r).Busy)
    (hother : ∀ o₁, o₁ ≠ o → (f o₁).Calls (· ≠ o')) {c' : Config Res' W L}
    {c : Config Res W L} (hc : Within fine f c' c) (hnext : c'.prog.nextOp = some o') :
    c.prog.nextOp = some o ∧ c.world = c'.world := by
  cases hc with
  | between w l => cases hnext
  | @inside w₀ w o₁ k q hunder hbusy hatomic =>
    obtain ⟨o₂, k₂, rfl⟩ := hbusy
    have ho₂ : o₂ = o' := Option.some.inj hnext
    by_cases heq : o₁ = o
    · subst heq
      obtain ⟨k', hf, hlast⟩ := ho
      rcases hunder.of_last hf hlast with ⟨_, hw⟩ | hidle
      · exact ⟨rfl, hw.symm⟩
      · exact absurd ⟨_, _, rfl⟩ hidle
    · have hcalls := hunder.calls (hother o₁ heq)
      exact absurd ho₂ hcalls.1

end Threads
