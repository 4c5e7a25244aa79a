import HeyMacMbed.Threads

/-!
# Where a thread can get from here

The steps a thread takes on its own, and runs that go on from a configuration with
the help of some actions of the environment only. A program whose calls always return
comes to its end by itself.
-/

namespace Threads

variable {Op : Type} {Res : Op → Type} {W E C L α β : Type}

/-- Left to itself the program gets from `w` to `w'` and returns `a`. -/
inductive Alone (sys : System Res W E C L) : Prog Res α → W → α → W → Prop where
  | ret (a : α) (w : W) : Alone sys (.ret a) w a w
  | call {o : Op} {k : Res o → Prog Res α} {c : C} {w w₁ w' : W} {r : Res o} {a : α} :
      sys.exec o c w = some (r, w₁) → Alone sys (k r) w₁ a w' → Alone sys (.call o k) w a w'

/-- The thread goes on, or the environment does something that satisfies `ok`. -/
def Label.Within (ok : E → Prop) : Label E C → Prop
  | .env e => ok e
  | .act _ => True

/-- A run from `c` to `c'` whose environment's actions satisfy `ok`. -/
def Leads (sys : System Res W E C L) (ok : E → Prop) :
    Config Res W L → Config Res W L → Prop :=
  Relation.ReflTransGen fun c c' => ∃ l : Label E C, l.Within ok ∧ sys.step c l = some c'

section Leads
variable {sys : System Res W E C L} {ok : E → Prop} {w w' : W} {q : Prog Res α}

theorem Alone.bind {g : α → Prog Res β} {a : α} {b : β} {w'' : W} (h : Alone sys q w a w')
    (hg : Alone sys (g a) w' b w'') : Alone sys (q >>= g) w b w'' := by
  induction h with
  | ret a w => exact hg
  | call hx _ ih => exact .call hx (ih hg)

/-- Calls that return, whatever they find. -/
theorem alone_calls {φ : Op → Prop} {S : W → W → Prop} (hrefl : ∀ w, S w w)
    (htrans : ∀ w₁ w₂ w₃, S w₁ w₂ → S w₂ w₃ → S w₁ w₃)
    (hφ : ∀ o, φ o → ∀ w, ∃ c r w', sys.exec o c w = some (r, w') ∧ S w w')
    (hq : q.Calls φ) (w : W) : ∃ a w', Alone sys q w a w' ∧ S w w' := by
  induction q generalizing w with
  | ret a => exact ⟨a, w, .ret a w, hrefl w⟩
  | call o k ih =>
    obtain ⟨c, r, w₁, hx, hs⟩ := hφ o hq.1 w
    obtain ⟨a, w', halone, hs'⟩ := ih r (hq.2 r) w₁
    exact ⟨a, w', .call hx halone, htrans _ _ _ hs hs'⟩

theorem Leads.env {q : Prog Res L} {e : E} (he : ok e) (h : sys.env e w = some w') :
    Leads sys ok ⟨w, q⟩ ⟨w', q⟩ := by
  refine .single ⟨.env e, he, ?_⟩
  simp [System.step, h]

/-- What the thread does alone it does with any environment. -/
theorem Leads.alone {a : α} (h : Alone sys q w a w') (g : α → Prog Res L) :
    Leads sys ok ⟨w, q >>= g⟩ ⟨w', g a⟩ := by
  induction h with
  | ret a w => exact .refl
  | @call o k c w w₁ w' r a hx _ ih =>
    refine .head ⟨.act c, trivial, ?_⟩ ih
    have hstep : sys.step ⟨w, .call o fun r => (k r).bind g⟩ (.act c) =
        some ⟨w₁, (k r).bind g⟩ := by simp [System.step, hx]
    exact hstep

/-- The next round of the loop. -/
theorem Leads.round (c : C) (w : W) (l : L) : Leads sys ok ⟨w, .ret l⟩ ⟨w, sys.body l⟩ :=
  .single ⟨.act c, trivial, rfl⟩

theorem Leads.rest {q : Prog Res L} {a : L} (h : Alone sys q w a w') :
    Leads sys ok ⟨w, q⟩ ⟨w', .ret a⟩ := by
  have hbind : ∀ p : Prog Res L, (p >>= fun a => Prog.ret a) = p := by
    intro p
    induction p with
    | ret a => rfl
    | call o k ih => exact congrArg (Prog.call o) (funext ih)
  have halone : Leads sys ok ⟨w, q >>= fun a => Prog.ret a⟩ ⟨w', .ret a⟩ := Leads.alone h _
  rw [hbind] at halone
  exact halone

theorem Leads.reach {init : Config Res W L → Prop} {c c' : Config Res W L}
    (h : Leads sys ok c c') (hc : sys.Reach init (fun _ _ => True) c) :
    sys.Reach init (fun _ _ => True) c' := by
  induction h with
  | refl => exact hc
  | tail _ hs ih =>
    obtain ⟨l, _, hs⟩ := hs
    exact .next ih trivial hs

end Leads

/-! Where the thread is. -/

namespace Prog

/-- Whatever the program returns satisfies `φ`. -/
def Returns (φ : α → Prop) : Prog Res α → Prop
  | .ret a => φ a
  | .call _ k => ∀ r, (k r).Returns φ

theorem returns_bind {φ : β → Prop} {p : Prog Res α} {f : α → Prog Res β}
    (hf : ∀ a, (f a).Returns φ) : (p >>= f).Returns φ := by
  induction p with
  | ret a => exact hf a
  | call o k ih => exact fun r => ih r

theorem Calls.mono {φ ψ : Op → Prop} (h : ∀ o, φ o → ψ o) {p : Prog Res α}
    (hp : p.Calls φ) : p.Calls ψ := by
  induction p with
  | ret a => trivial
  | call o k ih => exact ⟨h o hp.1, fun r => ih r (hp.2 r)⟩

end Prog

end Threads
