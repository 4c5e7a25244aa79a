import HeyMacMbed.LayerProgress

/-!
# From one wait to the next

A handler that does nothing with its events but go to another state decides where the
loop waits next, whatever happens before it does: nobody else sets the state, and the
entry that follows leaves it alone.
-/

open Bits Threads HeyMacLayer LayerProgress

namespace LayerNextWait

variable (p : Platform)

/-- The loop, which waits in `c`, waits next in `st`: the thread gets there by itself, and
whatever happens meanwhile it comes to no other wait first. -/
structure NextWait (c : LayerConfig) (st : St) : Prop where
  gets : ∃ c', Leads (layer p) (fun _ => False) c c' ∧ c'.prog.nextOp = some .flagsWaitAny ∧
    c'.world.stHandler = st
  only : ∀ ch c₁, (layer p).step c (.act ch) = some c₁ → ∀ c',
    (layer p).Reach (· = c₁) (fun d _ => d.prog.nextOp ≠ some .flagsWaitAny) c' →
      c'.prog.nextOp = some .flagsWaitAny → c'.world.stHandler = st

/-- Up to its next wait the thread is to come to `st`. -/
def onward (st : St) : Contract Call World Event where
  envOk := fun _ _ => True
  opOk := fun o _ => o ≠ .flagsWaitAny
  pre := fun o w => o = .flagsWaitAny → w.stHandler = st

/-- Calls that neither wait nor set the state. -/
def Stays : Call → Prop
  | .flagsWaitAny | .setStHandler _ => False
  | _ => True

/-- A round is over, in `st`. -/
def Onward (st : St) (l : Locals) (w : World) : Prop := (∃ r, l = next r) ∧ w.stHandler = st

variable {p} {α : Type} {st st' : St} {w : World}

theorem wp_stays {q : LayerProg α} (hq : q.Calls Stays) (hw : w.stHandler = st') :
    wp (layer p) (onward st) q (fun _ w => w.stHandler = st') w := by
  refine wp_calls (φ := Stays) (stHandler_stable p (onward st) st') ?_ ?_ hq hw
  · rintro o w _ ho rfl
    exact ho.elim
  · intro o ho w ch r w' hw _ hx
    rw [(exec_frame hx).stHandler]
    cases o with
    | setStHandler s => exact ho.elim
    | _ => exact hw

theorem onInit_stays (f : BitVec 32) : (onInit f).Calls Stays := by
  unfold onInit
  split
  · split
    · exact ⟨trivial, fun _ => trivial⟩
    · trivial
  · trivial

/-- The entries of Rxing and Setting. -/
theorem enter_stays (hst : st = .rxing ∨ st = .setting) :
    (handler p st evtSmEnter).Calls Stays := by
  rcases hst with rfl | rfl
  · trivial
  · refine calls_perform (o := .stngsRequireSleep) trivial fun sleep => ?_
    split <;> exact ⟨trivial, fun _ => trivial⟩

theorem wp_smTran : wp (layer p) (onward st) (smTran st) (fun _ w => w.stHandler = st) w := by
  refine wp_perform (P := fun _ => True) Stable.const trivial (fun _ _ h => by cases h)
    fun w c r w' _ _ hx => ?_
  cases hx
  exact wp_pure (stHandler_stable p (onward st) st) rfl fun _ h => h

/-- A round from the state `st'` whose handler leaves the state `st`. -/
theorem wp_round {l : Locals} {f : BitVec 32} (hw : w.stHandler = st')
    (hh : ∀ w, w.stHandler = st' → wp (layer p) (onward st)
      (handler p st' (f ||| l.evtFlagEnter)) (fun _ w => w.stHandler = st) w) :
    wp (layer p) (onward st) (round p l f) (Onward st) w := by
  refine wp_bind (wp_mono (fun _ w hw => ?_) (wp_stays (onInit_stays f) hw))
  refine wp_perform (stHandler_stable p (onward st) st') hw (fun _ _ h => by cases h)
    fun w c r w' hw _ hx => ?_
  cases hx
  rw [hw]
  refine wp_bind (wp_mono (fun r w hw => ?_) (hh w hw))
  exact wp_pure (stHandler_stable p (onward st) st) hw fun _ hw => ⟨⟨r, rfl⟩, hw⟩

/-- The rounds after the transition, up to the next wait. -/
theorem wp_rounds (hst : st = .rxing ∨ st = .setting) {l : Locals} (h : Onward st l w) :
    wp (layer p) (onward st) (mainLoop p l) (Onward st) w := by
  obtain ⟨⟨r, rfl⟩, hw⟩ := h
  rw [mainLoop_eq, nextFlags]
  by_cases hr : r = .tran
  · subst hr
    exact wp_round hw fun w hw => wp_stays (enter_stays hst) hw
  · have hwaits : (next r).retval ≠ .tran := hr
    rw [if_pos hwaits]
    exact wp_perform (stHandler_stable p (onward st) st) hw (fun _ hw _ => hw)
      fun _ _ _ _ _ hok => absurd rfl hok

/-- A wait whose events the handler answers with a transition. -/
theorem nextWait_of_tran {c : LayerConfig} (h : (layer p).Reach Started (fun _ _ => True) c)
    (hwait : c.prog.nextOp = some .flagsWaitAny) (hany : has c.world.flags evtAll = true)
    (htran : handler p c.world.stHandler c.world.flags = smTran st)
    (hst : st = .rxing ∨ st = .setting) : NextWait p c st := by
  obtain ⟨w, q⟩ := c
  obtain ⟨l, hl, rfl⟩ := waits_located h hwait
  constructor
  · have hat : At w.stHandler w.txQueue w.written w := ⟨rfl, rfl, rfl⟩
    have hleft : ∃ w₁, Leads (layer p) (fun _ => False) ⟨w, mainLoop p l⟩
        ⟨w₁, mainLoop p (next .tran)⟩ ∧ At st w.txQueue w.written w₁ :=
      leads_wait hl hany (at_lasting _ _ _) (fun _ h => h.stHandler) hat.clear
        fun v hv => htran ▸ gets_tran hv
    obtain ⟨w₁, hleads, hw₁⟩ := hleft
    have henter : ∃ r, r ≠ SmRet.tran ∧ ∀ v, At st w.txQueue w.written v →
        Gets p (handler p st evtSmEnter) v r (At st w.txQueue w.written) := by
      rcases hst with rfl | rfl
      · exact ⟨.ignored, by decide, fun v hv => gets_pure hv⟩
      · exact ⟨.handled, by decide, fun v hv => setting_enter rfl hv⟩
    obtain ⟨r, hr, hk⟩ := henter
    have hentered : ∃ w₂, Leads (layer p) (fun _ => False) ⟨w₁, mainLoop p (next .tran)⟩
        ⟨w₂, mainLoop p (next r)⟩ ∧ At st w.txQueue w.written w₂ :=
      leads_enter (at_lasting _ _ _) (fun _ h => h.stHandler) hw₁ hk
    obtain ⟨w₂, hleads', hw₂⟩ := hentered
    exact ⟨_, hleads.trans hleads', (next_waiting hr).nextOp, hw₂.stHandler⟩
  · intro ch c₁ hstep c' hreach hwait'
    have hguard : (layer p).Reach (· = c₁) (onward st).guard c' := by
      refine Runs.Reach.mono (fun d l hd => ?_) hreach
      cases l with
      | env e => trivial
      | act ch =>
        rintro o ho rfl
        exact hd ho
    have hfirst : wp (layer p) (onward st) c₁.prog (Onward st) c₁.world := by
      rw [mainLoop_eq, nextFlags, if_pos hl.1] at hstep
      obtain ⟨⟨f, w'⟩, hx, rfl⟩ := Option.map_eq_some_iff.mp hstep
      obtain ⟨_, hx⟩ := Option.ite_none_right_eq_some.mp hx
      cases hx
      have hor : w.flags ||| l.evtFlagEnter = w.flags := by
        rw [hl.2]
        exact BitVec.or_zero
      have hst' : { w with flags := w.flags &&& ~~~evtAll }.stHandler = w.stHandler := rfl
      refine wp_round hst' fun v _ => ?_
      rw [hor, htran]
      exact wp_smTran
    have hwp := reach_wp (J := Onward st) (fun c hc => hc ▸ hfirst)
      (fun l w h => wp_rounds hst h) hguard
    exact pre_of_wp hwp hwait' rfl

end LayerNextWait
