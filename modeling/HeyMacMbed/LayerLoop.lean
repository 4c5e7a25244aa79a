import HeyMacMbed.Layer

/-!
# The event loop

What surrounds a handler: which flags it is called with, and what the environment
leaves alone meanwhile. A property of the layer is proved by saying what holds
while the loop waits and what holds while a handler has events to deal with; this
module turns the handlers' proofs into one about all runs.
-/

open Bits Threads HeyMacLayer

/-- What can happen around the thread: an event is posted, a frame queued, made, deleted or
changed, or the chip receives. -/
inductive Event.Effect (w : World) : Event → World → Prop where
  | post {e : Event} (f : BitVec 32) (starting : Bool) (n : Nat) :
      has f evtSmEnter = false → n = w.halfDone ∨ f = evtTxRdy →
      Effect w e { w.post f with starting := starting, halfDone := n }
  | pushBack (frm : Nat) (txTime : BitVec 32) :
      Effect w (.pushBack frm txTime) { w.pushBack ⟨.ext frm, txTime⟩ with
        halfDone := if txTime = 0 then w.halfDone + 1 else w.halfDone }
  | others (e : Event) (n : Nat) : Effect w e { w with others := n }
  | changeFrame (frm : FrmRef) (f : HeyMacFrame) :
      Effect w (.changeFrame frm f) { w with frames := Function.update w.frames frm f }
  | validHeader : w.opMode = some .rxcont →
      Effect w .validHeader { w.latch loraIrqValidHeader evtDioValidHdr with rxBusy := true }
  | rxDone : w.rxBusy = true →
      Effect w .rxDone { w.latch loraIrqRxDone evtDioRxDone with rxBusy := false }

theorem sig_noEnter (sig : SigDio) : has sig.evt evtSmEnter = false := by cases sig <;> rfl

theorem Event.effect {e : Event} {w w' : World} (h : e.exec w = some w') : e.Effect w w' := by
  cases e with
  | threadStarted =>
    obtain ⟨_, h⟩ := Option.ite_none_right_eq_some.mp h
    cases h
    exact .post evtThrdInit false w.halfDone rfl (Or.inl rfl)
  | tick =>
    obtain ⟨_, h⟩ := Option.ite_none_right_eq_some.mp h
    cases h
    exact .post evtThrdPrdc w.starting w.halfDone rfl (Or.inl rfl)
  | btn =>
    cases h
    exact .post evtBtn w.starting w.halfDone rfl (Or.inl rfl)
  | dio sig =>
    cases h
    exact .post sig.evt w.starting w.halfDone (sig_noEnter sig) (Or.inl rfl)
  | pushBack frm txTime =>
    cases h
    exact .pushBack frm txTime
  | postTxRdy =>
    obtain ⟨_, h⟩ := Option.ite_none_right_eq_some.mp h
    cases h
    exact .post evtTxRdy w.starting (w.halfDone - 1) rfl (Or.inr rfl)
  | newFrame =>
    obtain ⟨_, h⟩ := Option.ite_none_right_eq_some.mp h
    cases h
    exact .others _ (w.others + 1)
  | deleteFrame =>
    obtain ⟨_, h⟩ := Option.ite_none_right_eq_some.mp h
    cases h
    exact .others _ (w.others - 1)
  | changeFrame frm f =>
    cases h
    exact .changeFrame frm f
  | validHeader =>
    obtain ⟨hm, h⟩ := Option.ite_none_right_eq_some.mp h
    cases h
    exact .validHeader hm
  | rxDone =>
    obtain ⟨hb, h⟩ := Option.ite_none_right_eq_some.mp h
    cases h
    exact .rxDone hb

/-- What an event around the thread leaves as it is. -/
structure Around (w w' : World) : Prop where
  stHandler : w'.stHandler = w.stHandler
  opMode : w'.opMode = w.opMode
  written : w'.written = w.written
  live : w'.live = w.live
  making : w'.making = w.making
  sending : w'.sending = w.sending
  stngs : w'.radio.rdoStngs = w.radio.rdoStngs
  applied : w'.radio.rdoStngsApplied = w.radio.rdoStngsApplied
  regs : ∀ a, a ≠ regLoraIrqFlags → w'.radio.chip.regs a = w.radio.chip.regs a
  flags : ∀ m, has w.flags m = true → has w'.flags m = true
  queue : ∃ more, w'.txQueue = w.txQueue ++ more ∧
    w'.enqueued = w.enqueued ++ more.map TxData.frm ∧ ∀ d ∈ more, ∃ n, d.frm = .ext n

theorem World.post_flags (w : World) (f m : BitVec 32) (h : has w.flags m = true) :
    has (w.post f).flags m = true := by
  rw [World.post, has_or, h, Bool.true_or]

theorem around_post (w : World) (f : BitVec 32) : Around w (w.post f) where
  stHandler := rfl
  opMode := rfl
  written := rfl
  live := rfl
  making := rfl
  sending := rfl
  stngs := rfl
  applied := rfl
  regs := fun _ _ => rfl
  flags := w.post_flags f
  queue := ⟨[], by simp [World.post]⟩

theorem around_latch (w : World) (m : Octets.Octet) (evt : BitVec 32) :
    Around w (w.latch m evt) := by
  have hregs : ∀ a, a ≠ regLoraIrqFlags →
      Function.update w.radio.chip.regs regLoraIrqFlags
        (w.radio.chip.regs regLoraIrqFlags ||| m) a = w.radio.chip.regs a :=
    fun a ha => Function.update_of_ne ha _ _
  unfold World.latch
  split
  · exact ⟨rfl, rfl, rfl, rfl, rfl, rfl, rfl, rfl, hregs, fun _ h => h, [], by simp [World.setRadio]⟩
  · exact ⟨rfl, rfl, rfl, rfl, rfl, rfl, rfl, rfl, hregs, World.post_flags _ evt, [],
      by simp [World.setRadio, World.post]⟩

theorem Event.around {e : Event} {w w' : World} (h : e.exec w = some w') : Around w w' := by
  cases Event.effect h with
  | post f starting n _ _ =>
    have ha := around_post w f
    exact { ha with }
  | pushBack frm txTime =>
    exact ⟨rfl, rfl, rfl, rfl, rfl, rfl, rfl, rfl, fun _ _ => rfl, fun _ h => h,
      [⟨.ext frm, txTime⟩], rfl, rfl, by simp⟩
  | others e n =>
    exact ⟨rfl, rfl, rfl, rfl, rfl, rfl, rfl, rfl, fun _ _ => rfl, fun _ h => h, [], by simp⟩
  | changeFrame frm f =>
    exact ⟨rfl, rfl, rfl, rfl, rfl, rfl, rfl, rfl, fun _ _ => rfl, fun _ h => h, [], by simp⟩
  | validHeader _ =>
    have ha := around_latch w loraIrqValidHeader evtDioValidHdr
    exact { ha with }
  | rxDone _ =>
    have ha := around_latch w loraIrqRxDone evtDioRxDone
    exact { ha with }

section Stability
variable {p : Platform} {ct : Contract Call World Event}

theorem stable_of_around {P : World → Prop} (h : ∀ w w', Around w w' → P w → P w') :
    Stable (layer p) ct P := by
  rintro w w' hw ⟨e, _, he⟩
  exact h w w' (Event.around he) hw

variable (p ct) in
theorem stHandler_stable (st : St) : Stable (layer p) ct fun w => w.stHandler = st :=
  stable_of_around fun _ _ ha h => ha.stHandler.trans h

/-- An assertion that depends on the current handler. -/
theorem stable_stHandler {P : St → World → Prop} (h : ∀ st, Stable (layer p) ct (P st)) :
    Stable (layer p) ct fun w => P w.stHandler w := by
  rintro w w' hw ⟨e, hok, he⟩
  have hst := (Event.around he).stHandler
  rw [hst]
  exact h _ w w' hw ⟨e, hok, he⟩

end Stability

/-! No code posts the entry event. -/

def NoEnter (w : World) : Prop := has w.flags evtSmEnter = false

/-- The calls as far as posting is concerned. -/
def PostsNoEnter : Call → Prop
  | .flagsSet f => has f evtSmEnter = false
  | _ => True

theorem calls_perform {φ : Call → Prop} {α : Type} {o : Call} {k : o.Res → LayerProg α}
    (ho : φ o) (hk : ∀ r, (k r).Calls φ) : Prog.Calls φ (perform o >>= k) := ⟨ho, hk⟩

theorem calls_smTran (st : St) : (smTran st).Calls PostsNoEnter := ⟨trivial, fun _ => trivial⟩

theorem calls_enqTxFrame (frm : FrmRef) (t : BitVec 32) :
    (enqTxFrame frm t).Calls PostsNoEnter := by
  refine ⟨trivial, fun _ => ?_⟩
  unfold Prog.bind
  split
  · exact ⟨rfl, fun _ => trivial⟩
  · trivial

theorem calls_initRadio : initRadio.Calls PostsNoEnter := by
  repeat' first | trivial | refine calls_perform trivial fun _ => ?_

theorem calls_handler (p : Platform) (st : St) (f : BitVec 32) :
    (handler p st f).Calls PostsNoEnter := by
  cases st <;>
    simp only [handler, stIniting, stSetting, stLstning, stRxing, stTxing, onBtn] <;>
    repeat' first
      | refine calls_perform trivial fun _ => ?_
      | split
      | exact calls_smTran _
      | refine calls_perform rfl fun _ => ?_
      | exact Prog.calls_bind (calls_enqTxFrame _ _) fun _ => trivial
      | refine Prog.calls_bind calls_initRadio fun _ => ?_
      | trivial

theorem calls_nextFlags (l : Locals) : (nextFlags l).Calls PostsNoEnter := by
  unfold nextFlags
  split
  · exact ⟨trivial, fun _ => trivial⟩
  · trivial

theorem calls_onInit (f : BitVec 32) : (onInit f).Calls PostsNoEnter := by
  unfold onInit
  split
  · split
    · exact ⟨trivial, fun _ => trivial⟩
    · trivial
  · trivial

theorem calls_mainLoop (p : Platform) (l : Locals) : (mainLoop p l).Calls PostsNoEnter :=
  Prog.calls_bind (calls_nextFlags l) fun f => Prog.calls_bind (calls_onInit f) fun _ =>
    calls_perform (o := .getStHandler) trivial fun st =>
      Prog.calls_bind (calls_handler p st _) fun _ => trivial

/-- A driver call changes the radio and what is known of its mode. -/
theorem exec_radio {p : Platform} {c : RadioCall} {ch : Choice} {w w' : World} {r : Unit}
    (h : Call.exec p (.radio c) ch w = some (r, w')) :
    ∃ rd m b, w' = { w with radio := rd, opMode := m, rxBusy := b } := by
  cases c <;> cases h <;> exact ⟨_, _, _, rfl⟩

/-- Every driver call but for the op mode changes the radio alone. -/
theorem exec_setRadio {p : Platform} {c : RadioCall} {ch : Choice} {w w' : World} {r : Unit}
    (hc : ∀ m, c ≠ .writeOpMode m) (h : Call.exec p (.radio c) ch w = some (r, w')) :
    w' = w.setRadio (c.exec p.target w.radio) := by
  cases c with
  | writeOpMode m => exact absurd rfl (hc m)
  | _ =>
    cases h
    rfl

/-- Calls on the radio and the driver. -/
def Call.Drives : Call → Prop
  | .pinReset | .resetRdoStngs | .validateChip | .noteLoraMode | .radio _ | .writeFifo _ => True
  | _ => False

/-- What a call does to the flags, the handler, the radio and its mode. -/
structure Call.Frame (o : Call) (w w' : World) : Prop where
  flags : w'.flags = match o with
    | .flagsWaitAny => w.flags &&& ~~~evtAll
    | .flagsSet f => w.flags ||| f
    | _ => w.flags
  stHandler : w'.stHandler = match o with
    | .setStHandler st => st
    | _ => w.stHandler
  radio : ¬ o.Drives → w'.radio = w.radio
  mode : (∀ m, o ≠ .radio (.writeOpMode m)) → w'.opMode = w.opMode ∧ w'.rxBusy = w.rxBusy

theorem exec_frame {p : Platform} {o : Call} {ch : Choice} {w w' : World} {r : o.Res}
    (h : Call.exec p o ch w = some (r, w')) : o.Frame w w' := by
  cases o with
  | flagsWaitAny =>
    obtain ⟨_, h⟩ := Option.ite_none_right_eq_some.mp h
    cases h
    exact ⟨rfl, rfl, fun _ => rfl, fun _ => ⟨rfl, rfl⟩⟩
  | radio c =>
    refine ⟨?_, ?_, fun hd => absurd trivial hd, fun hm => ?_⟩
    · obtain ⟨_, _, _, rfl⟩ := exec_radio h
      rfl
    · obtain ⟨_, _, _, rfl⟩ := exec_radio h
      rfl
    · rw [exec_setRadio (fun m hc => hm m (congrArg Call.radio hc)) h]
      exact ⟨rfl, rfl⟩
  | txQueueFront =>
    obtain ⟨_, _, h⟩ := Option.map_eq_some_iff.mp h
    cases h
    exact ⟨rfl, rfl, fun _ => rfl, fun _ => ⟨rfl, rfl⟩⟩
  | txQueuePopFront =>
    obtain ⟨_, _, h⟩ := Option.map_eq_some_iff.mp h
    cases h
    exact ⟨rfl, rfl, fun _ => rfl, fun _ => ⟨rfl, rfl⟩⟩
  | txQueuePushBack d =>
    obtain ⟨frm, t⟩ := d
    cases frm <;> cases h <;> exact ⟨rfl, rfl, fun _ => rfl, fun _ => ⟨rfl, rfl⟩⟩
  | strlen s =>
    obtain ⟨_, h⟩ := Option.ite_none_right_eq_some.mp h
    cases h
    exact ⟨rfl, rfl, fun _ => rfl, fun _ => ⟨rfl, rfl⟩⟩
  | newFrame =>
    obtain ⟨_, h⟩ := Option.ite_none_right_eq_some.mp h
    cases h
    exact ⟨rfl, rfl, fun _ => rfl, fun _ => ⟨rfl, rfl⟩⟩
  | _ =>
    cases h
    exact ⟨rfl, rfl, fun hd => by first | rfl | exact absurd trivial hd, fun _ => ⟨rfl, rfl⟩⟩

section Clear
variable {m : BitVec 32} {w : World}

theorem post_clear {f : BitVec 32} (h : has w.flags m = false) (hf : has f m = false) :
    has (w.post f).flags m = false := by
  rw [World.post, has_or, h, hf]
  rfl

theorem latch_clear (i : Octets.Octet) {evt : BitVec 32} (h : has w.flags m = false)
    (he : has evt m = false) : has (w.latch i evt).flags m = false := by
  unfold World.latch
  split
  · exact h
  · exact post_clear (w := w.setRadio _) h he

/-- A flag that is neither a signal of the radio's nor any other posted around the thread
stays clear. -/
theorem event_clear {e : Event} {w' : World}
    (hinit : has evtThrdInit m = false) (hprdc : has evtThrdPrdc m = false)
    (hbtn : has evtBtn m = false) (htx : has evtTxRdy m = false)
    (hsig : ∀ sig : SigDio, has sig.evt m = false) (h : has w.flags m = false)
    (he : e.exec w = some w') : has w'.flags m = false := by
  cases e with
  | threadStarted =>
    obtain ⟨_, he⟩ := Option.ite_none_right_eq_some.mp he
    cases he
    exact post_clear h hinit
  | tick =>
    obtain ⟨_, he⟩ := Option.ite_none_right_eq_some.mp he
    cases he
    exact post_clear h hprdc
  | btn =>
    cases he
    exact post_clear h hbtn
  | dio sig =>
    cases he
    exact post_clear h (hsig sig)
  | pushBack frm txTime =>
    cases he
    exact h
  | postTxRdy =>
    obtain ⟨_, he⟩ := Option.ite_none_right_eq_some.mp he
    cases he
    exact post_clear h htx
  | newFrame =>
    obtain ⟨_, he⟩ := Option.ite_none_right_eq_some.mp he
    cases he
    exact h
  | deleteFrame =>
    obtain ⟨_, he⟩ := Option.ite_none_right_eq_some.mp he
    cases he
    exact h
  | changeFrame frm f =>
    cases he
    exact h
  | validHeader =>
    obtain ⟨_, he⟩ := Option.ite_none_right_eq_some.mp he
    cases he
    exact latch_clear _ h (hsig .validHdr)
  | rxDone =>
    obtain ⟨_, he⟩ := Option.ite_none_right_eq_some.mp he
    cases he
    exact latch_clear _ h (hsig .rxDone)

end Clear

theorem event_noEnter {e : Event} {w w' : World} (h : NoEnter w) (he : e.exec w = some w') :
    NoEnter w' := event_clear rfl rfl rfl rfl sig_noEnter h he

/-- The contract that only asserts the absence of the entry event. -/
def noEnterContract : Contract Call World Event where
  envOk := fun _ _ => True
  opOk := fun _ _ => True
  pre := fun _ => NoEnter

theorem noEnter_stable (p : Platform) : Stable (layer p) noEnterContract NoEnter := by
  rintro w w' h ⟨e, _, he⟩
  exact event_noEnter h he

theorem noEnter_keeps (p : Platform) (o : Call) (ho : PostsNoEnter o) :
    Keeps (layer p) noEnterContract NoEnter o := by
  intro w ch r w' h _ hx
  have hf := (exec_frame hx).flags
  unfold NoEnter at h ⊢
  cases o with
  | flagsWaitAny =>
    rw [hf]
    exact has_and_of_left h _
  | flagsSet f =>
    rw [hf, has_or, h]
    exact ho
  | _ =>
    rw [hf]
    exact h

/-- The entry event is never pending as a thread flag. -/
theorem reach_noEnter (p : Platform) {c : LayerConfig}
    (h : (layer p).Reach Started (fun _ _ => True) c) : NoEnter c.world := by
  have hg : (layer p).Reach Started noEnterContract.guard c :=
    reach_guard (fun _ _ => trivial) (fun _ _ _ _ => trivial) h
  have hwp : wp (layer p) noEnterContract c.prog (fun _ w => NoEnter w) c.world := by
    refine reach_wp ?_ ?_ hg
    · rintro ⟨w, q⟩ ⟨hw, uninit, hq⟩
      cases hq
      have h0 : NoEnter w := by
        have h0 : w.flags = 0 := hw.flags
        rw [NoEnter, h0]
        rfl
      have hcalls : (mainStart uninit).Calls PostsNoEnter := ⟨trivial, fun _ => trivial⟩
      exact wp_calls (noEnter_stable p) (fun _ _ h _ => h) (noEnter_keeps p) hcalls h0
    · intro l w hw
      exact wp_calls (noEnter_stable p) (fun _ _ h _ => h) (noEnter_keeps p)
        (calls_mainLoop p l) hw
  obtain ⟨w, q⟩ := c
  cases q with
  | ret l => exact hwp w .refl
  | call o k => exact wp_pre hwp

/-! From the handlers to the loop. -/

section Loop
variable (p : Platform) (ct : Contract Call World Event)

/-- What holds when a handler has returned `r`. -/
def Returned (Idle : World → Prop) (Busy : BitVec 32 → World → Prop) (r : SmRet) (w : World) :
    Prop := if r = .tran then Busy evtSmEnter w else Idle w

section Return
variable {p ct} {Idle : World → Prop} {Busy : BitVec 32 → World → Prop} {P R : World → Prop}
  {w : World}

/-- A handler returns without a transition. -/
theorem wp_return {r : SmRet} (hr : r ≠ .tran) (hP : Stable (layer p) ct P) (hw : P w)
    (hidle : ∀ w, P w → Idle w) : wp (layer p) ct (pure r) (Returned Idle Busy) w := by
  refine wp_pure hP hw fun w hw => ?_
  rw [Returned, if_neg hr]
  exact hidle w hw

/-- A handler returns with `SM_TRAN`: the next one has its entry to deal with. -/
theorem wp_tran {st : St} (hP : Stable (layer p) ct P) (hw : P w)
    (hpre : ∀ w, P w → ct.pre (.setStHandler st) w) (hR : Stable (layer p) ct R)
    (hset : ∀ w, P w → R { w with stHandler := st }) (hbusy : ∀ w, R w → Busy evtSmEnter w) :
    wp (layer p) ct (smTran st) (Returned Idle Busy) w := by
  refine wp_perform hP hw hpre fun w c r w' hw _ hx => ?_
  cases hx
  exact wp_pure hR (hset w hw) hbusy

end Return

/-- What holds between two rounds of the loop. -/
def LoopInv (Idle : World → Prop) (Busy : BitVec 32 → World → Prop) (l : Locals) (w : World) :
    Prop :=
  (l.retval = .tran → l.evtFlags = 0 ∧ l.evtFlagEnter = evtSmEnter) ∧
    (l.retval ≠ .tran → l.evtFlagEnter = 0) ∧ Returned Idle Busy l.retval w

/-- `Idle` holds while the loop waits and `Busy f` while the current handler has the
events `f` to deal with. -/
structure LoopProof (Boot Idle : World → Prop) (Busy : BitVec 32 → World → Prop) : Prop where
  boot_stable : Stable (layer p) ct Boot
  idle_stable : Stable (layer p) ct Idle
  busy_stable : ∀ f, Stable (layer p) ct (Busy f)
  boot_pre : ∀ w, Boot w → ct.pre (.setStHandler .initing) w
  idle_pre : ∀ w, Idle w → ct.pre .flagsWaitAny w
  busy_pre : ∀ f w, Busy f w → ct.pre .attachTicker w ∧ ct.pre .getStHandler w
  noEnter : ∀ w, ct.opOk .flagsWaitAny w → NoEnter w
  fresh : ∀ w, w.Fresh → Boot w
  boot : ∀ w, Boot w → Idle { w with stHandler := .initing }
  wait : ∀ w, Idle w → ct.opOk .flagsWaitAny w →
    Busy w.flags { w with flags := w.flags &&& ~~~evtAll }
  attach : ∀ f w, Busy f w → Busy f { w with ticker := true }
  handle : ∀ st f w, f = evtSmEnter ∨ has f evtSmEnter = false → w.stHandler = st →
    Busy f w → wp (layer p) ct (handler p st f) (Returned Idle Busy) w

variable {p ct} {Boot Idle : World → Prop} {Busy : BitVec 32 → World → Prop}

theorem LoopProof.returned_stable (h : LoopProof p ct Boot Idle Busy) (r : SmRet) :
    Stable (layer p) ct (Returned Idle Busy r) := by
  unfold Returned
  split
  · exact h.busy_stable evtSmEnter
  · exact h.idle_stable

/-- The flags of a round, with or without waiting. -/
theorem LoopProof.nextFlags (h : LoopProof p ct Boot Idle Busy) {l : Locals} {w : World}
    (hl : LoopInv Idle Busy l w) :
    wp (layer p) ct (nextFlags l) (fun f w => Busy (f ||| l.evtFlagEnter) w ∧
      (f ||| l.evtFlagEnter = evtSmEnter ∨ has (f ||| l.evtFlagEnter) evtSmEnter = false)) w := by
  obtain ⟨htran, hwait, hret⟩ := hl
  unfold HeyMacLayer.nextFlags Returned at *
  by_cases ht : l.retval = .tran
  · obtain ⟨hf, he⟩ := htran ht
    rw [if_neg (by simp [ht])]
    rw [if_pos ht] at hret
    refine wp_pure (h.busy_stable evtSmEnter) hret fun w hw => ?_
    rw [hf, he]
    exact ⟨hw, Or.inl rfl⟩
  · have he := hwait ht
    rw [if_pos ht]
    rw [if_neg ht] at hret
    refine wp_last h.idle_stable hret h.idle_pre fun w c r w' hw hok hx => ?_
    obtain ⟨_, hx⟩ := Option.ite_none_right_eq_some.mp hx
    cases hx
    refine wp_pure (h.busy_stable w.flags) (h.wait w hw hok) fun w₁ hw₁ => ?_
    have hor : w.flags ||| 0 = w.flags := BitVec.or_zero
    rw [he, hor]
    exact ⟨hw₁, Or.inr (h.noEnter w hok)⟩

theorem LoopProof.onInit (h : LoopProof p ct Boot Idle Busy) {f g : BitVec 32} {w : World}
    (hw : Busy g w) : wp (layer p) ct (onInit f) (fun _ w => Busy g w) w := by
  have hskip : wp (layer p) ct (pure () : LayerProg Unit) (fun _ w => Busy g w) w :=
    wp_pure (h.busy_stable g) hw fun _ hw => hw
  unfold HeyMacLayer.onInit
  split
  · split
    · refine wp_last (h.busy_stable g) hw (fun w hw => (h.busy_pre g w hw).1)
        fun w c r w' hw _ hx => ?_
      cases hx
      exact wp_pure (h.busy_stable g) (h.attach g w hw) fun _ hw => hw
    · exact hskip
  · exact hskip

/-- One round of the loop keeps the invariant. -/
theorem LoopProof.mainLoop (h : LoopProof p ct Boot Idle Busy) (l : Locals) (w : World)
    (hl : LoopInv Idle Busy l w) :
    wp (layer p) ct (mainLoop p l) (LoopInv Idle Busy) w := by
  refine wp_bind (wp_mono (fun f w hw => ?_) (h.nextFlags hl))
  obtain ⟨hw, hf⟩ := hw
  refine wp_bind (wp_mono (fun _ w hw => ?_) (h.onInit hw))
  refine wp_perform (h.busy_stable _) hw (fun w hw => (h.busy_pre _ w hw).2)
    fun w c r w' hw _ hx => ?_
  cases hx
  refine wp_bind (wp_mono (fun r w hw => ?_) (h.handle w.stHandler _ w hf rfl hw))
  refine wp_pure (h.returned_stable r) hw fun w hw => ?_
  refine ⟨fun hr => ⟨rfl, ?_⟩, fun hr => ?_, hw⟩
  · exact if_pos hr
  · exact if_neg hr

/-- The handlers' proofs as a proof about all runs. -/
theorem LoopProof.reach (h : LoopProof p ct Boot Idle Busy) {c : LayerConfig}
    (hc : (layer p).Reach Started ct.guard c) :
    wp (layer p) ct c.prog (LoopInv Idle Busy) c.world := by
  refine reach_wp ?_ h.mainLoop hc
  rintro ⟨w, q⟩ ⟨hw, uninit, hq⟩
  cases hq
  refine wp_perform h.boot_stable (h.fresh w hw) h.boot_pre fun w c r w' hw _ hx => ?_
  cases hx
  refine wp_pure h.idle_stable (h.boot w hw) fun w hw => ?_
  refine ⟨fun hr => ?_, fun _ => rfl, hw⟩
  cases hr

/-- In all runs that meet the contract's assumptions, the entry event is not pending
besides. -/
theorem LoopProof.reach_assuming {base : Contract Call World Event}
    (h : LoopProof p (base.assuming NoEnter) Boot Idle Busy) {c : LayerConfig}
    (hc : (layer p).Reach Started base.guard c) :
    wp (layer p) (base.assuming NoEnter) c.prog (LoopInv Idle Busy) c.world :=
  h.reach (Threads.reach_assuming (fun _ hc => reach_noEnter p hc) hc)

end Loop

/-! Calls that neither touch queue, flags and handler nor count for the history of frames. -/

def Call.Quiet : Call → Prop
  | .flagsWaitAny | .setStHandler _ | .flagsSet _ | .txQueueFront | .txQueuePopFront
  | .txQueuePushBack _ | .writeFifo _ | .newFrame => False
  | _ => True

/-- The assertion does not look at what a quiet call may change. -/
def Blind (P : World → Prop) : Prop := ∀ w tk rd id fr m b, P w →
  P { w with ticker := tk, radio := rd, hmIdent := id, frames := fr, opMode := m, rxBusy := b }

theorem exec_quiet {p : Platform} {o : Call} {ch : Choice} {w w' : World} {r : o.Res}
    (ho : o.Quiet) (h : Call.exec p o ch w = some (r, w')) :
    ∃ tk rd id fr m b, w' = { w with
      ticker := tk, radio := rd, hmIdent := id, frames := fr, opMode := m, rxBusy := b } := by
  cases o with
  | flagsWaitAny => cases ho
  | setStHandler st => cases ho
  | flagsSet f => cases ho
  | txQueueFront => cases ho
  | txQueuePopFront => cases ho
  | txQueuePushBack d => cases ho
  | writeFifo frm => cases ho
  | newFrame => cases ho
  | radio c =>
    obtain ⟨rd, m, b, rfl⟩ := exec_radio h
    exact ⟨_, _, _, _, _, _, rfl⟩
  | strlen s =>
    obtain ⟨_, h⟩ := Option.ite_none_right_eq_some.mp h
    cases h
    exact ⟨_, _, _, _, _, _, rfl⟩
  | _ =>
    cases h
    exact ⟨_, _, _, _, _, _, rfl⟩

section Quiet
variable {p : Platform} {ct : Contract Call World Event} {P : World → Prop} {α : Type}
  {Q : α → World → Prop} {w : World}

theorem wp_quiet {o : Call} {k : o.Res → LayerProg α} (hP : Stable (layer p) ct P)
    (hb : Blind P) (ho : o.Quiet) (hpre : ∀ w, P w → ct.pre o w) (hw : P w)
    (h : ∀ r w, P w → wp (layer p) ct (k r) Q w) :
    wp (layer p) ct (perform o >>= k) Q w := by
  refine wp_keep hP hpre (fun w c r w' hw _ hx => ?_) hw h
  obtain ⟨tk, rd, id, fr, m, b, rfl⟩ := exec_quiet ho hx
  exact hb w tk rd id fr m b hw

/-- A quiet program keeps what is blind to it. -/
theorem wp_quiet_prog {q : LayerProg α} (hP : Stable (layer p) ct P) (hb : Blind P)
    (hpre : ∀ o w, P w → o.Quiet → ct.pre o w) (hq : q.Calls Call.Quiet) (hw : P w) :
    wp (layer p) ct q (fun _ w => P w) w :=
  wp_calls hP hpre (fun o ho w c r w' hw _ hx => by
    obtain ⟨tk, rd, id, fr, m, b, rfl⟩ := exec_quiet ho hx
    exact hb w tk rd id fr m b hw) hq hw

end Quiet

theorem initRadio_quiet : initRadio.Calls Call.Quiet := by
  repeat' first | trivial | refine calls_perform trivial fun _ => ?_

/-- Initing around its calls, which are all quiet. -/
theorem wp_stIniting {p : Platform} {ct : Contract Call World Event} {P : World → Prop}
    {f : BitVec 32} {Q : SmRet → World → Prop} {w : World} (hP : Stable (layer p) ct P)
    (hb : Blind P) (hpre : ∀ o w, P w → o.Quiet → ct.pre o w) (hw : P w)
    (htran : ∀ w, P w → wp (layer p) ct (smTran .setting) Q w)
    (hignored : ∀ w, P w → wp (layer p) ct (pure .ignored) Q w) :
    wp (layer p) ct (stIniting p f) Q w := by
  unfold stIniting
  split
  · refine wp_quiet hP hb trivial (fun w hw => hpre _ w hw trivial) hw fun _ w hw => ?_
    refine wp_bind (wp_mono (fun _ w hw => ?_) (wp_quiet_prog hP hb hpre initRadio_quiet hw))
    repeat refine wp_quiet hP hb trivial (fun w hw => hpre _ w hw trivial) hw fun _ w hw => ?_
    exact htran w hw
  · exact hignored w hw
