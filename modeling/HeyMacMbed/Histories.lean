import HeyMacMbed.Threads

/-!
# Threads with a history

A program may make notes beside its calls; calls too may leave something in the
history. `erase` takes the notes out again, and the runs of a thread with notes
are, erased, exactly the runs of the thread without. What a history is like is
said of its neighbours.
-/

namespace Threads

universe u

/-! Histories. -/

section Neighbours
variable {N : Type u} {R : List N → N → N → Prop}

/-- Every two neighbours are as `R` tells, which also sees what was before them. -/
def Neighbours (R : List N → N → N → Prop) (tr : List N) : Prop :=
  ∀ before a b after, tr = before ++ a :: b :: after → R before a b

theorem neighbours_nil : Neighbours R [] := by
  intro before a b after h
  simp at h

theorem neighbours_single (a : N) : Neighbours R [a] := by
  intro before a' b after h
  have hlen := congrArg List.length h
  simp only [List.length_append, List.length_cons, List.length_nil] at hlen
  omega

/-- Appending makes one new pair of neighbours. -/
theorem Neighbours.snoc {before : List N} {a b : N} (h : Neighbours R (before ++ [a]))
    (hab : R before a b) : Neighbours R (before ++ [a] ++ [b]) := by
  intro before' a' b' after heq
  rcases List.eq_nil_or_concat after with rfl | ⟨after', x, rfl⟩
  · have hsplit : before ++ [a] ++ [b] = before' ++ [a'] ++ [b'] := by simpa using heq
    obtain ⟨hfst, hb⟩ := List.append_inj' hsplit rfl
    obtain ⟨rfl, ha⟩ := List.append_inj' hfst rfl
    cases ha
    cases hb
    exact hab
  · have hsplit : before ++ [a] ++ [b] = (before' ++ a' :: b' :: after') ++ [x] := by
      simpa using heq
    obtain ⟨hfst, _⟩ := List.append_inj' hsplit rfl
    exact h before' a' b' after' hfst

end Neighbours

variable {Op : Type} {Res : Op → Type} {N α β : Type}

/-- A call, or a note. -/
inductive Noted (Op N : Type) where
  | op (o : Op)
  | note (n : N)

/-- A note has no result. -/
@[reducible] def NotedRes (Res : Op → Type) (N : Type) : Noted Op N → Type
  | .op o => Res o
  | .note _ => Unit

abbrev NotedProg (Res : Op → Type) (N α : Type) := Prog (NotedRes Res N) α

namespace Prog

/-- A program without notes. -/
def lift : Prog Res α → NotedProg Res N α
  | .ret a => .ret a
  | .call o k => .call (.op o) fun r => (k r).lift

/-- Takes the notes out. -/
def erase : NotedProg Res N α → Prog Res α
  | .ret a => .ret a
  | .call (.op o) k => .call o fun r => (k r).erase
  | .call (.note _) k => (k ()).erase

/-- A note. -/
def note (n : N) : NotedProg Res N Unit := .call (.note n) .ret

theorem erase_lift (p : Prog Res α) : (p.lift : NotedProg Res N α).erase = p := by
  induction p with
  | ret a => rfl
  | call o k ih => exact congrArg (Prog.call o) (funext ih)

theorem erase_bind (p : NotedProg Res N α) (f : α → NotedProg Res N β) :
    (p >>= f).erase = p.erase >>= fun a => (f a).erase := by
  induction p with
  | ret a => rfl
  | call o k ih =>
    cases o with
    | op o => exact congrArg (Prog.call o) (funext ih)
    | note n => exact ih ()

end Prog

/-- A world with its history. -/
structure History (W N : Type) where
  world : W
  trace : List N

variable {W E C L : Type}

/-- A thread's system with notes: `obs` is what a call leaves in the history. -/
def System.noted (sys : System Res W E C L) (obs : (o : Op) → Res o → List N)
    (body : L → NotedProg Res N L) : System (NotedRes Res N) (History W N) E C L where
  exec
    | .op o, c, h => (sys.exec o c h.world).map fun x => (x.1, ⟨x.2, h.trace ++ obs o x.1⟩)
    | .note n, _, h => some ((), ⟨h.world, h.trace ++ [n]⟩)
  env e h := (sys.env e h.world).map fun w => ⟨w, h.trace⟩
  body := body

/-- The configuration without notes and history. -/
def Config.erase (c : Config (NotedRes Res N) (History W N) L) : Config Res W L :=
  ⟨c.world.world, c.prog.erase⟩

section Erasure
variable {sys : System Res W E C L} {obs : (o : Op) → Res o → List N}
  {body : L → NotedProg Res N L}

/-- A step with notes is, erased, a step or no step at all. -/
theorem noted_step (hbody : ∀ l, (body l).erase = sys.body l)
    {c c' : Config (NotedRes Res N) (History W N) L} {l : Label E C}
    (h : (sys.noted obs body).step c l = some c') :
    c'.erase = c.erase ∨ sys.step c.erase l = some c'.erase := by
  obtain ⟨x, p⟩ := c
  cases l with
  | env e =>
    obtain ⟨x', hx, rfl⟩ := Option.map_eq_some_iff.mp h
    obtain ⟨w, hw, rfl⟩ := Option.map_eq_some_iff.mp hx
    refine Or.inr ?_
    simp [System.step, Config.erase, hw]
  | act ch =>
    cases p with
    | ret a =>
      cases h
      refine Or.inr ?_
      simp [System.step, Config.erase, Prog.erase, System.noted, hbody]
    | call o k =>
      obtain ⟨⟨r, x'⟩, hx, rfl⟩ := Option.map_eq_some_iff.mp h
      cases o with
      | note n =>
        cases hx
        exact Or.inl rfl
      | op o =>
        obtain ⟨⟨r', w'⟩, hw, hr⟩ := Option.map_eq_some_iff.mp hx
        cases hr
        refine Or.inr ?_
        simp [System.step, Config.erase, Prog.erase, hw]

/-- The notes ahead can be made, so that the thread is where it is without them. -/
theorem make_notes {init : Config (NotedRes Res N) (History W N) L → Prop}
    {c : Config (NotedRes Res N) (History W N) L}
    (h : (sys.noted obs body).Reach init (fun _ _ => True) c) (ch : C) :
    ∃ c', (sys.noted obs body).Reach init (fun _ _ => True) c' ∧ c'.erase = c.erase ∧
      ∀ n, c'.prog.nextOp ≠ some (.note n) := by
  obtain ⟨x, p⟩ := c
  induction p generalizing x with
  | ret a => exact ⟨_, h, rfl, fun n hn => by cases hn⟩
  | call o k ih =>
    cases o with
    | op o =>
      refine ⟨_, h, rfl, fun n hn => ?_⟩
      cases hn
    | note n =>
      have hnext : (sys.noted obs body).Reach init (fun _ _ => True)
          ⟨⟨x.world, x.trace ++ [n]⟩, k ()⟩ :=
        .next (l := .act ch) h trivial rfl
      obtain ⟨c', hc', herase, hfree⟩ := ih () _ hnext
      exact ⟨c', hc', herase, hfree⟩

/-- The runs with notes are, erased, the runs without. -/
theorem reach_erase_iff (hbody : ∀ l, (body l).erase = sys.body l)
    {init : Config Res W L → Prop} {init' : Config (NotedRes Res N) (History W N) L → Prop}
    (hto : ∀ c, init' c → init c.erase) (hfrom : ∀ c, init c → ∃ t, init' t ∧ t.erase = c)
    {c : Config Res W L} :
    sys.Reach init (fun _ _ => True) c ↔
      ∃ t, (sys.noted obs body).Reach init' (fun _ _ => True) t ∧ t.erase = c := by
  constructor
  · intro h
    induction h with
    | start h =>
      obtain ⟨t, ht, rfl⟩ := hfrom _ h
      exact ⟨t, .start ht, rfl⟩
    | @next s s' l _ _ hs ih =>
      obtain ⟨t, ht, rfl⟩ := ih
      cases l with
      | env e =>
        obtain ⟨w, hw, rfl⟩ := Option.map_eq_some_iff.mp hs
        refine ⟨⟨⟨w, t.world.trace⟩, t.prog⟩, .next (l := .env e) ht trivial ?_, rfl⟩
        have hw : sys.env e t.world.world = some w := hw
        simp [System.step, System.noted, hw]
      | act ch =>
        obtain ⟨⟨x, p⟩, ht', herase, hfree⟩ := make_notes ht ch
        rw [← herase] at hs
        cases p with
        | ret a =>
          cases hs
          refine ⟨⟨x, body a⟩, .next (l := .act ch) ht' trivial rfl, ?_⟩
          rw [Config.erase, hbody]
        | call o k =>
          cases o with
          | note n => exact absurd rfl (hfree n)
          | op o =>
            obtain ⟨⟨r, w'⟩, hw, rfl⟩ := Option.map_eq_some_iff.mp hs
            refine ⟨⟨⟨w', x.trace ++ obs o r⟩, k r⟩, .next (l := .act ch) ht' trivial ?_, rfl⟩
            have hw : sys.exec o ch x.world = some (r, w') := hw
            simp [System.step, System.noted, hw]
  · rintro ⟨t, ht, rfl⟩
    induction ht with
    | start h => exact .start (hto _ h)
    | next _ _ hs ih =>
      rcases noted_step hbody hs with hsame | hstep
      · rw [hsame]
        exact ih
      · exact .next ih trivial hstep

end Erasure

end Threads
