import HeyMacMbed.Histories

/-!
# Runs on record

A system that keeps, beside its world, what its calls leave on record. Records
change nothing: every run has one, and without it is the run it was. The
environment reaches the world alone.
-/

namespace Threads

variable {Op : Type} {Res : Op → Type} {N W E C L : Type}

/-- `obs` is what a call leaves on record. -/
def System.observed (sys : System Res W E C L) (obs : Op → List N) :
    System Res (History W N) E C L where
  exec o c h := (sys.exec o c h.world).map fun x => (x.1, ⟨x.2, h.trace ++ obs o⟩)
  env e h := (sys.env e h.world).map fun w => ⟨w, h.trace⟩
  body := sys.body

/-- The configuration without its record. -/
def Config.forget (c : Config Res (History W N) L) : Config Res W L := ⟨c.world.world, c.prog⟩

section Records
variable {sys : System Res W E C L} {obs : Op → List N}

theorem observed_step {c c' : Config Res (History W N) L} {l : Label E C}
    (h : (sys.observed obs).step c l = some c') : sys.step c.forget l = some c'.forget := by
  obtain ⟨x, p⟩ := c
  cases l with
  | env e =>
    obtain ⟨x', hx, rfl⟩ := Option.map_eq_some_iff.mp h
    obtain ⟨w, hw, rfl⟩ := Option.map_eq_some_iff.mp hx
    simp [System.step, Config.forget, hw]
  | act ch =>
    cases p with
    | ret a =>
      cases h
      rfl
    | call o k =>
      obtain ⟨⟨r, x'⟩, hx, rfl⟩ := Option.map_eq_some_iff.mp h
      obtain ⟨⟨r', w⟩, hw, hr⟩ := Option.map_eq_some_iff.mp hx
      cases hr
      simp [System.step, Config.forget, hw]

theorem step_observed {c : Config Res (History W N) L} {d : Config Res W L} {l : Label E C}
    (h : sys.step c.forget l = some d) :
    ∃ c', (sys.observed obs).step c l = some c' ∧ c'.forget = d := by
  obtain ⟨x, p⟩ := c
  cases l with
  | env e =>
    obtain ⟨w, hw, rfl⟩ := Option.map_eq_some_iff.mp h
    have hw : sys.env e x.world = some w := hw
    exact ⟨⟨⟨w, x.trace⟩, p⟩, by simp [System.step, System.observed, hw], rfl⟩
  | act ch =>
    cases p with
    | ret a =>
      cases h
      exact ⟨⟨x, sys.body a⟩, rfl, rfl⟩
    | call o k =>
      obtain ⟨⟨r, w⟩, hw, rfl⟩ := Option.map_eq_some_iff.mp h
      have hw : sys.exec o ch x.world = some (r, w) := hw
      exact ⟨⟨⟨w, x.trace ++ obs o⟩, k r⟩, by simp [System.step, System.observed, hw], rfl⟩

/-- Runs start with nothing on record. -/
def Unrecorded (init : Config Res W L → Prop) (c : Config Res (History W N) L) : Prop :=
  init c.forget ∧ c.world.trace = []

/-- The runs on record are, without it, the runs. -/
theorem reach_observed_iff {init : Config Res W L → Prop} {d : Config Res W L} :
    sys.Reach init (fun _ _ => True) d ↔
      ∃ c, (sys.observed obs).Reach (Unrecorded init) (fun _ _ => True) c ∧ c.forget = d := by
  constructor
  · intro h
    induction h with
    | @start d h => exact ⟨⟨⟨d.world, []⟩, d.prog⟩, .start ⟨h, rfl⟩, rfl⟩
    | next _ _ hs ih =>
      obtain ⟨c, hc, rfl⟩ := ih
      obtain ⟨c', hs', rfl⟩ := step_observed hs
      exact ⟨c', .next hc trivial hs', rfl⟩
  · rintro ⟨c, hc, rfl⟩
    induction hc with
    | start h => exact .start h.1
    | next _ _ hs ih => exact .next ih trivial (observed_step hs)

/-- The environment leaves the record alone. -/
theorem stable_observed {ct : Contract Op (History W N) E} {P : History W N → Prop}
    (hP : ∀ w e w' tr, P ⟨w, tr⟩ → sys.env e w = some w' → P ⟨w', tr⟩) :
    Stable (sys.observed obs) ct P := by
  rintro h h' hw ⟨e, _, he⟩
  obtain ⟨w', hstep, rfl⟩ := Option.map_eq_some_iff.mp he
  exact hP _ e w' _ hw hstep

end Records

end Threads
