import HeyMacMbed.LayerLoop
import HeyMacMbed.RadioPins

/-!
# The layer on the radio's pins

Elsewhere the radio's signals arrive of themselves. Here they take the program's
way: an edge on a pin runs what is registered on it, and only a call of the
driver's callback, `_evt_dio`, posts a flag. Nothing is ever registered, so
these runs are the layer's runs without signals, and in them the layer never
hears of a header and never leaves Txing.
-/

open Bits Threads HeyMacLayer

/-- `_evt_dio(sig_dio)`. -/
def HeyMacLayer.evtDio (sigDio : SigDio) (w : World) : World := w.post sigDio.evt

/-- The layer with the pins of its radio. -/
structure PinnedLayer where
  world : World
  dio : Dio → InterruptIn
  sigDioClbk : Option (SigDio → World → World)

/-- Events that stand for a signal of the radio. -/
def Event.Signals : Event → Prop
  | .dio _ | .validHeader | .rxDone => True
  | _ => False

inductive PinEvent where
  | around (e : Event) (h : ¬ e.Signals)
  | edge (d : Dio)

namespace PinnedLayer

def driver (x : PinnedLayer) : PinnedRadio (SigDio → World → World) :=
  ⟨x.world.radio, x.dio, x.sigDioClbk⟩

/-- A rising edge happens on a connected pin, at any time. -/
def env : PinEvent → PinnedLayer → Option PinnedLayer
  | .around e _, x => (e.exec x.world).map fun w => { x with world := w }
  | .edge d, x =>
    if (x.dio d).connected then
      (x.driver.risingEdge d).map fun calls =>
        { x with world := calls.foldl (fun w call => call.1 call.2 w) x.world }
    else none

/-- `init_radio` stores the callback before it resets the radio. -/
def clbkAfter (cb : Option (SigDio → World → World)) : Call → Option (SigDio → World → World)
  | .pinReset => some evtDio
  | _ => cb

def exec (p : Platform) (o : Call) (ch : Choice) (x : PinnedLayer) :
    Option (o.Res × PinnedLayer) :=
  (o.exec p ch x.world).map fun y =>
    (y.1, { x with world := y.2, sigDioClbk := clbkAfter x.sigDioClbk o })

end PinnedLayer

def pinnedLayer (p : Platform) : System Call.Res PinnedLayer PinEvent Choice Locals where
  exec := PinnedLayer.exec p
  env := PinnedLayer.env
  body := mainLoop p

abbrev PinnedConfig := Config Call.Res PinnedLayer Locals

/-- `thread_start` has started `_main` on a layer whose driver has just been constructed. -/
def PinnedStarted (c : PinnedConfig) : Prop :=
  Started ⟨c.world.world, c.prog⟩ ∧
    ∃ memory connected, c.world.driver = PinnedRadio.new memory connected

namespace LayerPins

/-- No signal of the radio is pending. -/
def Deaf (w : World) : Prop := ∀ sig : SigDio, has w.flags sig.evt = false

/-- In state `st`, before anything was written to the FIFO. -/
def Before (st : St) (w : World) : Prop := Deaf w ∧ w.written = [] ∧ w.stHandler = st

/-- In Txing, with one frame written. -/
def After (w : World) : Prop := Deaf w ∧ w.written.length = 1 ∧ w.stHandler = .txing

/-- What holds at any time: the layer leaves Txing no more once it has written a frame. -/
structure Unheard (w : World) : Prop where
  deaf : Deaf w
  once : w.written.length ≤ 1
  stuck : w.written ≠ [] → w.stHandler = .txing

/-- No signal arrives, and nothing is asserted but that the layer does not hear any. -/
def contract : Contract Call World Event where
  envOk := fun _ e => ¬ e.Signals
  opOk := fun _ _ => True
  pre := fun o w => Unheard w ∧ match o with
    | .flagsWaitAny => w.stHandler ≠ .rxing
    | _ => True

def ct : Contract Call World Event := contract.assuming NoEnter

def Idle (w : World) : Prop := After w ∨ ∃ st, st ≠ .rxing ∧ Before st w

def Busy (f : BitVec 32) (w : World) : Prop :=
  (∀ sig : SigDio, has f sig.evt = false) ∧
    ((After w ∧ has f evtSmEnter = false) ∨ ∃ st, st ≠ .rxing ∧ Before st w)

theorem Before.unheard {st : St} {w : World} (h : Before st w) : Unheard w where
  deaf := h.1
  once := by simp [h.2.1]
  stuck := fun hne => absurd h.2.1 hne

theorem After.unheard {w : World} (h : After w) : Unheard w where
  deaf := h.1
  once := by simp [h.2.1]
  stuck := fun _ => h.2.2

variable (p : Platform)

theorem deaf_post {w : World} {f : BitVec 32} (h : Deaf w)
    (hf : ∀ sig : SigDio, has f sig.evt = false) : Deaf (w.post f) := by
  intro sig
  rw [World.post, has_or, h sig, hf sig]
  rfl

/-- No flag but those of `_evt_dio` is one of the radio's. -/
theorem other_flags : ∀ f, f ∈ [evtThrdInit, evtThrdPrdc, evtSmEnter, evtSmNext, evtTxRdy,
    evtBtn] → ∀ sig : SigDio, has f sig.evt = false := by
  intro f hf sig
  simp only [List.mem_cons, List.not_mem_nil, or_false] at hf
  rcases hf with rfl | rfl | rfl | rfl | rfl | rfl <;> cases sig <;> rfl

theorem event_deaf {e : Event} {w w' : World} (hs : ¬ e.Signals) (h : Deaf w)
    (he : e.exec w = some w') : Deaf w' := by
  cases e with
  | threadStarted =>
    obtain ⟨_, he⟩ := Option.ite_none_right_eq_some.mp he
    cases he
    exact deaf_post h (other_flags _ (by decide))
  | tick =>
    obtain ⟨_, he⟩ := Option.ite_none_right_eq_some.mp he
    cases he
    exact deaf_post h (other_flags _ (by decide))
  | btn =>
    cases he
    exact deaf_post h (other_flags _ (by decide))
  | postTxRdy =>
    obtain ⟨_, he⟩ := Option.ite_none_right_eq_some.mp he
    cases he
    exact deaf_post h (other_flags _ (by decide))
  | pushBack frm txTime =>
    cases he
    exact h
  | newFrame =>
    obtain ⟨_, he⟩ := Option.ite_none_right_eq_some.mp he
    cases he
    exact h
  | deleteFrame =>
    obtain ⟨_, he⟩ := Option.ite_none_right_eq_some.mp he
    cases he
    exact h
  | changeFrame frm f =>
    cases he
    exact h
  | dio sig => exact absurd trivial hs
  | validHeader => exact absurd trivial hs
  | rxDone => exact absurd trivial hs

theorem deaf_stable : Stable (layer p) ct Deaf := by
  rintro w w' h ⟨e, hok, he⟩
  exact event_deaf hok h he

theorem before_stable (st : St) : Stable (layer p) ct (Before st) :=
  (deaf_stable p).and (stable_of_around fun _ _ ha h => by
    rw [ha.written, ha.stHandler]
    exact h)

theorem after_stable : Stable (layer p) ct After :=
  (deaf_stable p).and (stable_of_around fun _ _ ha h => by
    rw [ha.written, ha.stHandler]
    exact h)

theorem idle_stable : Stable (layer p) ct Idle := by
  rintro w w' h hr
  rcases h with h | ⟨st, hst, h⟩
  · exact Or.inl (after_stable p w w' h hr)
  · exact Or.inr ⟨st, hst, before_stable p st w w' h hr⟩

theorem busy_stable (f : BitVec 32) : Stable (layer p) ct (Busy f) := by
  rintro w w' ⟨hf, h⟩ hr
  refine ⟨hf, ?_⟩
  rcases h with ⟨h, he⟩ | ⟨st, hst, h⟩
  · exact Or.inl ⟨after_stable p w w' h hr, he⟩
  · exact Or.inr ⟨st, hst, before_stable p st w w' h hr⟩

theorem before_blind (st : St) : Blind (Before st) := fun _ _ _ _ _ _ _ h => h

theorem after_blind : Blind After := fun _ _ _ _ _ _ _ h => h

/-- Waiting takes all that was posted. -/
theorem deaf_wait {w : World} (h : Deaf w) :
    Deaf { w with flags := w.flags &&& ~~~evtAll } :=
  fun sig => has_and_of_left (h sig) _

section Handlers
variable {p} {f : BitVec 32} {w : World} {α : Type} {Q : α → World → Prop}

/-- The calls of a handler besides its transition and the write to the FIFO. -/
def Tame : Call → Prop
  | .flagsWaitAny | .setStHandler _ | .writeFifo _ => False
  | .flagsSet f => f = evtSmNext ∨ f = evtTxRdy
  | _ => True

theorem pre_of_unheard {o : Call} (h : Unheard w) (ho : Tame o) : ct.pre o w := by
  cases o <;> first | exact ⟨h, trivial⟩ | cases ho

theorem tame_keeps {o : Call} (ho : Tame o) (st : St) :
    Keeps (layer p) ct (Before st) o := by
  intro w ch r w' h _ hx
  have quiet : o.Quiet → Before st w' := by
    intro hq
    obtain ⟨tk, rd, id, fr, m, b, rfl⟩ := exec_quiet hq hx
    exact before_blind st w tk rd id fr m b h
  cases o with
  | flagsWaitAny => cases ho
  | setStHandler st' => cases ho
  | writeFifo frm => cases ho
  | flagsSet f =>
    cases hx
    have hf : f ∈ [evtThrdInit, evtThrdPrdc, evtSmEnter, evtSmNext, evtTxRdy, evtBtn] := by
      rcases ho with rfl | rfl <;> decide
    exact ⟨deaf_post h.1 (other_flags f hf), h.2⟩
  | txQueueFront =>
    obtain ⟨_, _, hx⟩ := Option.map_eq_some_iff.mp hx
    cases hx
    exact h
  | txQueuePopFront =>
    obtain ⟨_, _, hx⟩ := Option.map_eq_some_iff.mp hx
    cases hx
    exact h
  | txQueuePushBack d =>
    obtain ⟨frm, t⟩ := d
    cases frm <;> cases hx <;> exact h
  | newFrame =>
    obtain ⟨_, hx⟩ := Option.ite_none_right_eq_some.mp hx
    cases hx
    exact h
  | _ => exact quiet trivial

/-- A tame call before anything was written. -/
theorem wp_go {o : Call} {k : o.Res → LayerProg α} {st : St} (ho : Tame o) (hw : Before st w)
    (h : ∀ r w, Before st w → wp (layer p) ct (k r) Q w) :
    wp (layer p) ct (perform o >>= k) Q w :=
  wp_keep (before_stable p st) (fun _ hw => pre_of_unheard hw.unheard ho) (tame_keeps ho st) hw h

theorem wp_stay {r : SmRet} {st : St} (hr : r ≠ .tran) (hst : st ≠ .rxing)
    (hw : Before st w) : wp (layer p) ct (pure r) (Returned Idle Busy) w :=
  wp_return hr (before_stable p st) hw fun _ hw => Or.inr ⟨st, hst, hw⟩

theorem wp_smTran {st next : St} (hst : next ≠ .rxing) (hw : Before st w) :
    wp (layer p) ct (smTran next) (Returned Idle Busy) w :=
  wp_tran (before_stable p st) hw (fun _ hw => ⟨hw.unheard, trivial⟩) (before_stable p next)
    (fun _ hw => ⟨hw.1, hw.2.1, rfl⟩)
    fun _ hw => ⟨other_flags _ (by decide), Or.inr ⟨next, hst, hw⟩⟩

theorem handle_initing (hw : Before .initing w) :
    wp (layer p) ct (stIniting p f) (Returned Idle Busy) w :=
  wp_stIniting (before_stable p .initing) (before_blind .initing)
    (fun o w hw ho => pre_of_unheard hw.unheard (by cases o <;> trivial)) hw
    (fun _ hw => wp_smTran (by decide) hw) fun _ hw => wp_stay (by decide) (by decide) hw

theorem handle_setting (hw : Before .setting w) :
    wp (layer p) ct (stSetting f) (Returned Idle Busy) w := by
  have done : ∀ {w : World}, Before .setting w →
      wp (layer p) ct (pure SmRet.handled) (Returned Idle Busy) w := fun hw =>
    wp_stay (by decide) (by decide) hw
  have next : ∀ {w : World}, Before .setting w →
      wp (layer p) ct (perform (.flagsSet evtSmNext) >>= fun _ => pure SmRet.handled)
        (Returned Idle Busy) w := fun hw =>
    wp_go (Or.inl rfl) hw fun _ _ hw => done hw
  unfold stSetting
  split
  · refine wp_go trivial hw fun sleep w hw => ?_
    split
    · exact wp_go trivial hw fun _ _ hw => done hw
    · exact next hw
  split
  · exact wp_go trivial hw fun _ _ hw => next hw
  split
  · repeat refine wp_go trivial hw fun _ w hw => ?_
    split
    · repeat refine wp_go trivial hw fun _ w hw => ?_
      exact wp_smTran (by decide) hw
    · repeat refine wp_go trivial hw fun _ w hw => ?_
      exact wp_smTran (by decide) hw
  · exact wp_stay (by decide) (by decide) hw

theorem wp_onBtn (hw : Before .lstning w) : wp (layer p) ct onBtn (Returned Idle Busy) w := by
  unfold onBtn
  repeat refine wp_go trivial hw fun _ w hw => ?_
  refine wp_go (Or.inr rfl) hw fun _ w hw => ?_
  exact wp_stay (by decide) (by decide) hw

theorem handle_lstning (hf : ∀ sig : SigDio, has f sig.evt = false) (hw : Before .lstning w) :
    wp (layer p) ct (stLstning f) (Returned Idle Busy) w := by
  unfold stLstning
  split
  · repeat refine wp_go trivial hw fun _ w hw => ?_
    exact wp_stay (by decide) (by decide) hw
  split
  · refine wp_go trivial hw fun _ w hw => ?_
    exact wp_stay (by decide) (by decide) hw
  split
  · refine wp_go trivial hw fun _ w hw => ?_
    exact wp_smTran (by decide) hw
  split
  · exact wp_onBtn hw
  split
  · rename_i hhdr
    -- a header is never heard of
    have hno : has f evtDioValidHdr = false := hf .validHdr
    rw [hno] at hhdr
    cases hhdr
  · exact wp_stay (by decide) (by decide) hw

theorem writeFifo_after {frm : FrmRef} {ch : Choice} {w' : World} {r : Unit}
    (hw : Before .txing w) (hx : (layer p).exec (.writeFifo frm) ch w = some (r, w')) :
    After w' := by
  cases hx
  refine ⟨hw.1, ?_, hw.2.2⟩
  simp only [hw.2.1, List.nil_append, List.length_singleton]

/-- Entering Txing writes the one frame. -/
theorem handle_txing_enter (hw : Before .txing w) (he : has f evtSmEnter = true) :
    wp (layer p) ct (stTxing f) (Returned Idle Busy) w := by
  unfold stTxing
  rw [if_pos he]
  repeat refine wp_go trivial hw fun _ w hw => ?_
  refine wp_perform (before_stable p .txing) hw (fun _ hw => ⟨hw.unheard, trivial⟩)
    fun w c r w' hw _ hx => ?_
  refine wp_quiet (after_stable p) after_blind trivial
    (fun _ h => ⟨h.unheard, trivial⟩) (writeFifo_after hw hx) fun _ w hw => ?_
  exact wp_return (by decide) (after_stable p) hw fun _ hw => Or.inl hw

/-- Any other event than its signal leaves Txing as it is. -/
theorem handle_txing_other {P : World → Prop} (hs : Stable (layer p) ct P)
    (hidle : ∀ w, P w → Idle w) (hf : ∀ sig : SigDio, has f sig.evt = false)
    (he : has f evtSmEnter = false) (hw : P w) :
    wp (layer p) ct (stTxing f) (Returned Idle Busy) w := by
  have hno : has f evtDioTxDone = false := hf .txDone
  unfold stTxing
  rw [if_neg (by simp [he]), if_neg (by simp [hno])]
  exact wp_return (by decide) hs hw hidle

theorem handle {st : St} (hst : w.stHandler = st) (hb : Busy f w) :
    wp (layer p) ct (handler p st f) (Returned Idle Busy) w := by
  obtain ⟨hf, ⟨hafter, he⟩ | ⟨st', hne, hw⟩⟩ := hb
  · obtain rfl : st = .txing := hst.symm.trans hafter.2.2
    exact handle_txing_other (after_stable p) (fun _ hw => Or.inl hw) hf he hafter
  · obtain rfl : st = st' := hst.symm.trans hw.2.2
    cases st with
    | initing => exact handle_initing hw
    | setting => exact handle_setting hw
    | lstning => exact handle_lstning hf hw
    | rxing => exact absurd rfl hne
    | txing =>
      by_cases he : has f evtSmEnter = true
      · exact handle_txing_enter hw he
      · exact handle_txing_other (before_stable p .txing)
          (fun _ hw => Or.inr ⟨.txing, by decide, hw⟩) hf (by simpa using he) hw

end Handlers

theorem Idle.unheard {w : World} (h : Idle w) : Unheard w := by
  rcases h with h | ⟨st, _, h⟩
  · exact h.unheard
  · exact h.unheard

theorem Busy.unheard {f : BitVec 32} {w : World} (h : Busy f w) : Unheard w := by
  rcases h.2 with ⟨h, _⟩ | ⟨st, _, h⟩
  · exact h.unheard
  · exact h.unheard

theorem Idle.not_rxing {w : World} (h : Idle w) : w.stHandler ≠ .rxing := by
  rcases h with h | ⟨st, hst, h⟩
  · rw [h.2.2]
    decide
  · rw [h.2.2]
    exact hst

theorem loopProof : LoopProof p ct (fun w => Deaf w ∧ w.written = []) Idle Busy where
  boot_stable := (deaf_stable p).and (stable_of_around fun _ _ ha h => ha.written.trans h)
  idle_stable := idle_stable p
  busy_stable := busy_stable p
  boot_pre := fun w h => by
    have hbefore : Before w.stHandler w := ⟨h.1, h.2, rfl⟩
    exact ⟨hbefore.unheard, trivial⟩
  idle_pre := fun w h => ⟨h.unheard, h.not_rxing⟩
  busy_pre := fun f w h => ⟨⟨h.unheard, trivial⟩, ⟨h.unheard, trivial⟩⟩
  noEnter := fun _ h => h.2
  fresh := fun w h => by
    refine ⟨fun sig => ?_, h.written⟩
    rw [h.flags]
    cases sig <;> rfl
  boot := fun w h => Or.inr ⟨.initing, by decide, h.1, h.2, rfl⟩
  wait := fun w h hok => by
    refine ⟨h.unheard.deaf, ?_⟩
    rcases h with h | ⟨st, hst, h⟩
    · exact Or.inl ⟨⟨deaf_wait h.1, h.2⟩, hok.2⟩
    · exact Or.inr ⟨st, hst, deaf_wait h.1, h.2⟩
  attach := fun _ _ h => h
  handle := fun _ _ _ _ hst hb => handle hst hb

/-- The layer has heard of nothing, and does not wait in Rxing. -/
structure NeverHeard (c : LayerConfig) : Prop where
  unheard : Unheard c.world
  waits : c.prog.nextOp = some .flagsWaitAny → c.world.stHandler ≠ .rxing

/-- Runs of the layer without signals. -/
theorem reach_neverHeard {c : LayerConfig} (h : (layer p).Reach Started contract.guard c) :
    NeverHeard c := by
  have hwp := (loopProof p).reach_assuming h
  constructor
  · obtain ⟨w, q⟩ := c
    cases q with
    | ret l =>
      obtain ⟨_, _, hret⟩ : LoopInv Idle Busy l w := wp_post hwp
      unfold Returned at hret
      split at hret
      · exact hret.unheard
      · exact hret.unheard
    | call o k => exact (wp_pre hwp).1
  · intro ho
    have hpre := pre_of_wp hwp ho
    exact hpre.2

/-! From the pins to the layer. -/

def Unregistered (x : PinnedLayer) : Prop := ∀ d, (x.dio d).onRise = none

theorem edge_unheard {x x' : PinnedLayer} {d : Dio} (h : Unregistered x)
    (he : PinnedLayer.env (.edge d) x = some x') : x' = x := by
  obtain ⟨_, he⟩ := Option.ite_none_right_eq_some.mp he
  have hsilent : x.driver.risingEdge d = some [] := PinnedRadio.risingEdge_silent (h d)
  rw [hsilent] at he
  cases he
  rfl

/-- A configuration with pins is one without; no pin has a routine. -/
def Shows (c : PinnedConfig) (d : LayerConfig) : Prop :=
  d = ⟨c.world.world, c.prog⟩ ∧ Unregistered c.world

theorem started_shows {c : PinnedConfig} (h : PinnedStarted c) :
    ∃ d, Started d ∧ Shows c d := by
  obtain ⟨hs, memory, connected, hnew⟩ := h
  refine ⟨_, hs, rfl, fun d => ?_⟩
  have hdio : c.world.dio = fun d => InterruptIn.new (connected d) :=
    congrArg PinnedRadio.dio hnew
  rw [hdio]
  rfl

/-- An edge is no step of the layer; any other step is one, and no signal. -/
theorem step_shows {c c' : PinnedConfig} {d : LayerConfig} {l : Label PinEvent Choice}
    (h : Shows c d) (hs : (pinnedLayer p).step c l = some c') :
    Shows c' d ∨ ∃ m d', contract.guard d m ∧ (layer p).step d m = some d' ∧ Shows c' d' := by
  obtain ⟨rfl, hreg⟩ := h
  obtain ⟨x, q⟩ := c
  cases l with
  | env e =>
    obtain ⟨x', he, rfl⟩ := Option.map_eq_some_iff.mp hs
    cases e with
    | edge d =>
      rw [edge_unheard hreg he]
      exact Or.inl ⟨rfl, hreg⟩
    | around e hno =>
      obtain ⟨w', he', rfl⟩ := Option.map_eq_some_iff.mp he
      exact Or.inr ⟨.env e, ⟨w', q⟩, hno, congrArg (Option.map _) he', rfl, hreg⟩
  | act ch =>
    right
    cases q with
    | ret l =>
      cases hs
      exact ⟨.act ch, _, fun _ _ => trivial, rfl, rfl, hreg⟩
    | call o k =>
      obtain ⟨⟨r, x'⟩, hx, rfl⟩ := Option.map_eq_some_iff.mp hs
      obtain ⟨⟨r', w'⟩, hx', heq⟩ := Option.map_eq_some_iff.mp hx
      cases heq
      exact ⟨.act ch, ⟨w', k r'⟩, fun _ _ => trivial, congrArg (Option.map _) hx', rfl, hreg⟩

/-- What the layer reaches on its pins it reaches without signals. -/
theorem reach_shows {c : PinnedConfig}
    (h : (pinnedLayer p).Reach PinnedStarted (fun _ _ => True) c) :
    ∃ d, (layer p).Reach Started contract.guard d ∧ Shows c d := by
  refine Runs.Reach.simulate (R := Shows) (fun c h => started_shows h) ?_ h
  intro c d l c' hshows _ hs
  exact step_shows p hshows hs

/-- In no run of the driver does an edge call the callback; and in the runs of the layer
on its pins an edge changes nothing, no signal's flag is ever pending, the loop never
waits in Rxing, and once a frame is written to the FIFO it stays in Txing. -/
theorem edges_unheard :
    (∀ (κ : Type) (t : Target) (memory : SX127xRadio) (connected : Dio → Bool)
      (calls : List (PinnedRadio.Call κ)) (d : Dio),
      ((PinnedRadio.new memory connected).run t calls).risingEdge d = some [] ∧
        ¬ ((PinnedRadio.new memory connected).run t calls).EdgeCalls d) ∧
    ∀ c, (pinnedLayer p).Reach PinnedStarted (fun _ _ => True) c →
      (∀ d x', PinnedLayer.env (.edge d) c.world = some x' → x' = c.world) ∧
        NeverHeard ⟨c.world.world, c.prog⟩ := by
  constructor
  · intro κ t memory connected calls d
    have hnone : (((PinnedRadio.new memory connected).run t calls).dio d).onRise = none := by
      rw [PinnedRadio.run_dio]
      rfl
    exact ⟨PinnedRadio.risingEdge_silent hnone, PinnedRadio.not_edgeCalls hnone⟩
  · intro c hc
    obtain ⟨d, hd, rfl, hreg⟩ := reach_shows p hc
    exact ⟨fun _ _ he => edge_unheard hreg he, reach_neverHeard p hd⟩

/-! Runs on fixed inputs. -/

/-- All pins are connected. -/
def plainStart : PinnedConfig :=
  ⟨⟨.plain, fun _ => .new true, none⟩, mainStart 0⟩

theorem plainStart_started : PinnedStarted plainStart :=
  ⟨LayerConfig.plain_started, .zeroed, fun _ => true, rfl⟩

/-- The thread takes `n` steps. -/
def pinActs (n : Nat) : List (Label PinEvent Choice) := List.replicate n (.act .plain)

/-- A frame is queued once the loop waits in Lstning; the loop writes it and waits in Txing. -/
def toTxing : List (Label PinEvent Choice) :=
  .env (.around .threadStarted id) :: pinActs 45 ++
    [.env (.around (.pushBack 0 0) id), .env (.around .postTxRdy id)] ++ pinActs 26

/-- The loop waits in Txing for the edge of TxDone on DIO0. -/
def awaitsTxDone (c : PinnedConfig) : Bool :=
  waitsIn ⟨c.world.world, c.prog⟩ .txing &&
    decide (c.world.world.written.length = 1 ∧
      (c.world.world.radio.rdoStngsApplied .rdoDio0).toNat = 1 ∧
      (PinnedLayer.env (.edge .dio0) c.world).isSome = true)

/-- The edge comes, and leaves the layer in Txing with nothing pending. -/
theorem edges_unheard_txDone : ∃ c x', (pinnedLayer .plain).Reach PinnedStarted
    (fun _ _ => True) c ∧ awaitsTxDone c = true ∧
      PinnedLayer.env (.edge .dio0) c.world = some x' ∧ x' = c.world ∧
      NeverHeard ⟨c.world.world, c.prog⟩ := by
  have hrun : ((pinnedLayer .plain).run (fun _ _ => true) plainStart toTxing).any
      awaitsTxDone = true := by decide +kernel
  obtain ⟨c, hc, hwaits⟩ := System.reach_of_any (fun _ _ _ => trivial) plainStart_started
    toTxing awaitsTxDone hrun
  obtain ⟨_, hd⟩ := Bool.and_eq_true_iff.mp hwaits
  obtain ⟨x', hx⟩ := Option.isSome_iff_exists.mp (of_decide_eq_true hd).2.2
  obtain ⟨hedge, hnever⟩ := (edges_unheard .plain).2 c hc
  exact ⟨c, x', hc, hwaits, hx, hedge .dio0 x' hx, hnever⟩

/-- The driver is set up for TxDone on DIO0, all pins connected and the callback stored:
the edge calls nothing. -/
theorem txDone_edge_lost :
    let x : PinnedRadio Unit := (PinnedRadio.new .zeroed fun _ => true).run .plain
      [.initRadio (), .call (.set .rdoDio0 1) (by intro h; cases h),
        .call (.writeStngs false) (by intro h; cases h)]
    (x.dio .dio0).connected = true ∧ x.sigDioClbk = some () ∧
      (Dio.sigLut .dio0)[(x.radio.rdoStngsApplied .rdoDio0).toNat]? = some .txDone ∧
      x.runIsr .dio0 = some [((), .txDone)] ∧ x.risingEdge .dio0 = some [] ∧
      ¬ x.EdgeCalls .dio0 := by
  intro x
  have hnone : (x.dio .dio0).onRise = none := rfl
  exact ⟨rfl, rfl, by decide +kernel, by decide +kernel, PinnedRadio.risingEdge_silent hnone,
    PinnedRadio.not_edgeCalls hnone⟩

end LayerPins
