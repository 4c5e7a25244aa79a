import HeyMacMbed.LayerNextWait
import HeyMacMbed.RadioShadow

/-!
# Reception

The chip latches the header and the end of a frame and posts each once. Lstning
and Rxing hear of them unless the wait that takes the event has something else to
offer that their handler looks at first, or the header comes when Lstning is about to
command standby; the header then leads to Rxing, and the end of the frame to Setting.
-/

open Bits Octets Threads HeyMacLayer LayerNextWait

namespace LayerReception

/-- A received header and, for it, a received frame have their events pending. -/
structure Listening (w : World) : Prop where
  header : w.latched loraIrqValidHeader = true → has w.flags evtDioValidHdr = true
  done : w.latched loraIrqRxDone = true →
    w.latched loraIrqValidHeader = true ∧ has w.flags evtDioRxDone = true
  busy : w.rxBusy = true → w.latched loraIrqValidHeader = true

def Receiving (w : World) : Prop :=
  w.latched loraIrqRxDone = true → has w.flags evtDioRxDone = true

/-- The chip does not receive. -/
structure Silent (w : World) : Prop where
  opMode : w.opMode ≠ some .rxcont
  rxBusy : w.rxBusy = false

structure Cleared (w : World) : Prop extends Silent w where
  header : w.latched loraIrqValidHeader = false
  done : w.latched loraIrqRxDone = false

/-- The wait takes the event of a latched header, and Lstning looks at another of its
events instead, or goes to Rxing with the event of the frame's end taken too. -/
def Loses (w : World) : Prop :=
  w.stHandler = .lstning ∧ w.latched loraIrqValidHeader = true ∧
    (has w.flags evtThrdPrdc = true ∨ has w.flags evtTxRdy = true ∨ has w.flags evtBtn = true ∨
      w.latched loraIrqRxDone = true)

/-- A standby command finds a header received in Lstning. -/
def BreaksOff (w : World) : Prop :=
  w.stHandler = .lstning ∧ w.latched loraIrqValidHeader = true

/-- No wait loses an event of reception and no standby command breaks it off. Where the loop
is about to wait the events latched are pending, and Lstning never goes to Setting with a
header received. -/
def contract : Contract Call World Event where
  envOk := fun _ _ => True
  opOk := fun o w => match o with
    | .flagsWaitAny => ¬ Loses w
    | .radio (.writeOpMode .stby) => ¬ BreaksOff w
    | _ => True
  pre := fun o w => match o with
    | .flagsWaitAny =>
      (w.stHandler = .lstning → w.latched loraIrqValidHeader = true →
        has w.flags evtDioValidHdr = true) ∧
      (w.stHandler = .rxing → w.latched loraIrqRxDone = true →
        has w.flags evtDioRxDone = true)
    | .setStHandler .setting => w.stHandler = .lstning → w.latched loraIrqValidHeader = false
    | _ => True

def ct : Contract Call World Event := contract.assuming NoEnter

/-- Lstning goes to Rxing. -/
structure Takes (f : BitVec 32) : Prop where
  prdc : has f evtThrdPrdc = false
  txRdy : has f evtTxRdy = false
  btn : has f evtBtn = false
  header : has f evtDioValidHdr = true

def IdleAt : St → World → Prop
  | .lstning, w => Listening w
  | .rxing, w => Receiving w
  | _, _ => True

def BusyAt (f : BitVec 32) : St → World → Prop
  | .lstning, w => (has f evtSmEnter = true → Silent w) ∧
      (has f evtSmEnter = false → Listening w ∨ Takes f ∧ Receiving w)
  | .rxing, w => has f evtDioRxDone = true ∨ Receiving w
  | _, _ => True

def Idle (w : World) : Prop := IdleAt w.stHandler w

def Busy (f : BitVec 32) (w : World) : Prop := BusyAt f w.stHandler w

theorem Listening.receiving {w : World} (h : Listening w) : Receiving w := fun hr => (h.done hr).2

theorem Listening.unlatched_done {w : World} (h : Listening w)
    (hv : w.latched loraIrqValidHeader = false) : w.latched loraIrqRxDone = false := by
  by_contra hr
  exact absurd (hv.symm.trans (h.done (by simpa using hr)).1) Bool.false_ne_true

theorem listening_of_unlatched {w : World} (hv : w.latched loraIrqValidHeader = false)
    (hr : w.latched loraIrqRxDone = false) (hb : w.rxBusy = false) : Listening w where
  header := fun h => absurd (hv.symm.trans h) Bool.false_ne_true
  done := fun h => absurd (hr.symm.trans h) Bool.false_ne_true
  busy := fun h => absurd (hb.symm.trans h) Bool.false_ne_true

/-! Calls and events that leave reception alone. -/

/-- What most calls and events keep. -/
structure Spared (w w' : World) : Prop where
  stHandler : w'.stHandler = w.stHandler
  irqFlags : w'.radio.chip.regs regLoraIrqFlags = w.radio.chip.regs regLoraIrqFlags
  opMode : w'.opMode = w.opMode
  rxBusy : w'.rxBusy = w.rxBusy
  flags : ∀ m, has w.flags m = true → has w'.flags m = true

theorem Spared.latched {w w' : World} (h : Spared w w') (m : Octet) :
    w'.latched m = w.latched m := by
  rw [World.latched, h.irqFlags]
  rfl

theorem Spared.listening {w w' : World} (h : Spared w w') (hw : Listening w) : Listening w' := by
  constructor
  · intro hv
    rw [h.latched] at hv
    exact h.flags _ (hw.header hv)
  · intro hr
    rw [h.latched] at hr ⊢
    exact ⟨(hw.done hr).1, h.flags _ (hw.done hr).2⟩
  · intro hb
    rw [h.latched]
    exact hw.busy (h.rxBusy ▸ hb)

theorem Spared.receiving {w w' : World} (h : Spared w w') (hw : Receiving w) : Receiving w' := by
  intro hr
  rw [h.latched] at hr
  exact h.flags _ (hw hr)

theorem Spared.silent {w w' : World} (h : Spared w w') (hw : Silent w) : Silent w' :=
  ⟨h.opMode ▸ hw.opMode, h.rxBusy ▸ hw.rxBusy⟩

theorem Spared.cleared {w w' : World} (h : Spared w w') (hw : Cleared w) : Cleared w' where
  toSilent := h.silent hw.toSilent
  header := (h.latched _).trans hw.header
  done := (h.latched _).trans hw.done

theorem Spared.busy {f : BitVec 32} {w w' : World} (h : Spared w w') (hw : Busy f w) :
    Busy f w' := by
  unfold Busy at hw ⊢
  rw [h.stHandler]
  cases hst : w.stHandler with
  | lstning =>
    rw [hst] at hw
    refine ⟨fun he => h.silent (hw.1 he), fun he => ?_⟩
    rcases hw.2 he with hl | ⟨ht, hr⟩
    · exact Or.inl (h.listening hl)
    · exact Or.inr ⟨ht, h.receiving hr⟩
  | rxing =>
    rw [hst] at hw
    rcases hw with hd | hr
    · exact Or.inl hd
    · exact Or.inr (h.receiving hr)
  | _ => trivial

/-- No driver call but two touches the interrupt flags. -/
theorem radio_irqFlags (t : Target) (r : SX127xRadio) {c : RadioCall} (hi : c ≠ .initRadio)
    (hc : ∀ m, c ≠ .writeLoraIrqFlags m) :
    (c.exec t r).chip.regs regLoraIrqFlags = r.chip.regs regLoraIrqFlags := by
  cases c with
  | initRadio => exact absurd rfl hi
  | writeLoraIrqFlags m => exact absurd rfl (hc m)
  | readOpMode => exact congrFun (r.readReg_regs _) _
  | set fld val => exact congrFun (congrArg Chip.regs (r.set_chip t fld val)) _
  | updtRng => exact congrFun (r.readReg_regs _) _
  | writeFifo data sz => exact congrFun (r.writeFifo_regs data sz) _
  | writeFifoPtr offset =>
    rw [RadioCall.exec, SX127xRadio.writeFifoPtr_regs]
    rfl
  | writeLoraIrqMask d e =>
    rw [RadioCall.exec, SX127xRadio.writeLoraIrqMask_regs]
    rfl
  | writeOpMode m =>
    rw [RadioCall.exec, SX127xRadio.writeOpMode_regs]
    rfl
  | writeStngs forRx =>
    rw [RadioCall.exec, SX127xRadio.writeStngs_eq,
      SX127xRadio.writeFlds_regs_other _ _ _ fun fld => (SX127xRadio.regStart_plain fld).2.2.symm,
      SX127xRadio.beforeFlds_regs_other _ _ (by decide)]
  | writeSleepStngs => exact r.writeSleepStngs_regs_other (by decide)

/-- Calls that neither wait nor change state, mode or interrupt flags. -/
def Spares : Call → Prop
  | .flagsWaitAny | .setStHandler _ | .pinReset | .radio .initRadio
  | .radio (.writeLoraIrqFlags _) | .radio (.writeOpMode _) => False
  | _ => True

theorem pre_spares {o : Call} (ho : Spares o) (w : World) : ct.pre o w := by
  cases o <;> trivial

theorem pre_quiet {o : Call} (ho : o.Quiet) (w : World) : ct.pre o w := by
  cases o <;> trivial

/-- No call that spares reception touches the interrupt flags. -/
theorem exec_irqFlags {p : Platform} {o : Call} {ch : Choice} {w w' : World} {r : o.Res}
    (ho : Spares o) (h : Call.exec p o ch w = some (r, w')) :
    w'.radio.chip.regs regLoraIrqFlags = w.radio.chip.regs regLoraIrqFlags := by
  cases o with
  | pinReset => cases ho
  | resetRdoStngs =>
    cases h
    rfl
  | noteLoraMode =>
    cases h
    rfl
  | validateChip =>
    cases h
    exact congrFun (w.radio.readReg_regs _) _
  | writeFifo frm =>
    cases h
    exact congrFun (w.radio.writeFifo_regs _ _) _
  | radio c =>
    have hw : w' = w.setRadio (c.exec p.target w.radio) :=
      exec_setRadio (by rintro m rfl; exact ho) h
    rw [hw]
    exact radio_irqFlags p.target w.radio (by rintro rfl; exact ho) (by rintro m rfl; exact ho)
  | _ => exact congrArg (·.chip.regs regLoraIrqFlags) ((exec_frame h).radio id)

theorem exec_spares {p : Platform} {o : Call} {ch : Choice} {w w' : World} {r : o.Res}
    (ho : Spares o) (h : Call.exec p o ch w = some (r, w')) : Spared w w' := by
  have hf := exec_frame h
  have hmode := hf.mode (by rintro m rfl; exact ho)
  refine ⟨?_, exec_irqFlags ho h, hmode.1, hmode.2, fun m hm => ?_⟩
  · cases o with
    | setStHandler st => cases ho
    | _ => exact hf.stHandler
  · cases o with
    | flagsWaitAny => cases ho
    | flagsSet f =>
      rw [hf.flags]
      exact w.post_flags f m hm
    | _ =>
      rw [hf.flags]
      exact hm

/-- An event spares reception, or is the header of a frame, or its end. -/
theorem event_cases {e : Event} {w w' : World} (h : e.exec w = some w') :
    Spared w w' ∨
    (w.opMode = some .rxcont ∧
      w' = { w.latch loraIrqValidHeader evtDioValidHdr with rxBusy := true }) ∨
    (w.rxBusy = true ∧ w' = { w.latch loraIrqRxDone evtDioRxDone with rxBusy := false }) := by
  cases Event.effect h with
  | post f starting n _ _ => exact Or.inl ⟨rfl, rfl, rfl, rfl, w.post_flags f⟩
  | pushBack frm txTime => exact Or.inl ⟨rfl, rfl, rfl, rfl, fun _ h => h⟩
  | others e n => exact Or.inl ⟨rfl, rfl, rfl, rfl, fun _ h => h⟩
  | changeFrame frm f => exact Or.inl ⟨rfl, rfl, rfl, rfl, fun _ h => h⟩
  | validHeader hm => exact Or.inr (Or.inl ⟨hm, rfl⟩)
  | rxDone hb => exact Or.inr (Or.inr ⟨hb, rfl⟩)

theorem latch_latched (w : World) (m n : Octet) (evt : BitVec 32) :
    (w.latch m evt).latched n = (w.latched n || has m n) := by
  unfold World.latch
  split <;>
    simp only [World.latched, World.setRadio, World.post, Function.update_self, has_or]

theorem latch_flags (w : World) (m : Octet) (evt : BitVec 32) {n : BitVec 32}
    (h : has w.flags n = true) : has (w.latch m evt).flags n = true := by
  unfold World.latch
  split
  · exact h
  · exact World.post_flags _ evt n h

/-- A flag that was clear posts its event. -/
theorem latch_posts (w : World) (m : Octet) (evt : BitVec 32) (he : has evt evt = true)
    (h : w.latched m = true → has w.flags evt = true) :
    has (w.latch m evt).flags evt = true := by
  unfold World.latch
  split
  · rename_i hm
    exact h hm
  · rw [World.post, has_or, he, Bool.or_true]

section Stability
variable (p : Platform)

theorem listening_stable : Stable (layer p) ct Listening := by
  rintro w w' h ⟨e, _, he⟩
  have hhd : has loraIrqValidHeader loraIrqRxDone = false := rfl
  have hdh : has loraIrqRxDone loraIrqValidHeader = false := rfl
  rcases event_cases he with hs | ⟨_, rfl⟩ | ⟨hb, rfl⟩
  · exact hs.listening h
  · constructor
    · intro _
      exact latch_posts w _ evtDioValidHdr rfl h.header
    · intro hr
      have hr : (w.latch loraIrqValidHeader evtDioValidHdr).latched loraIrqRxDone = true := hr
      rw [latch_latched, hhd, Bool.or_false] at hr
      obtain ⟨hv, hf⟩ := h.done hr
      refine ⟨?_, latch_flags w _ _ hf⟩
      have hl := latch_latched w loraIrqValidHeader loraIrqValidHeader evtDioValidHdr
      rw [hv, Bool.true_or] at hl
      exact hl
    · intro _
      have hl := latch_latched w loraIrqValidHeader loraIrqValidHeader evtDioValidHdr
      have hself : has loraIrqValidHeader loraIrqValidHeader = true := rfl
      rw [hself, Bool.or_true] at hl
      exact hl
  · have hv := h.busy hb
    have hl := latch_latched w loraIrqRxDone loraIrqValidHeader evtDioRxDone
    rw [hv, Bool.true_or] at hl
    constructor
    · intro _
      exact latch_flags w _ _ (h.header hv)
    · intro _
      exact ⟨hl, latch_posts w _ evtDioRxDone rfl fun hr => (h.done hr).2⟩
    · intro hf
      cases hf

theorem receiving_stable : Stable (layer p) ct Receiving := by
  rintro w w' h ⟨e, _, he⟩
  rcases event_cases he with hs | ⟨_, rfl⟩ | ⟨_, rfl⟩
  · exact hs.receiving h
  · intro hr
    have hhd : has loraIrqValidHeader loraIrqRxDone = false := rfl
    have hl := latch_latched w loraIrqValidHeader loraIrqRxDone evtDioValidHdr
    rw [hhd, Bool.or_false] at hl
    exact latch_flags w _ _ (h (hl ▸ hr))
  · intro _
    exact latch_posts w _ evtDioRxDone rfl h

theorem silent_event {e : Event} {w w' : World} (h : Silent w) (he : e.exec w = some w') :
    Spared w w' := by
  rcases event_cases he with hs | ⟨hm, _⟩ | ⟨hb, _⟩
  · exact hs
  · exact absurd hm h.opMode
  · exact absurd (h.rxBusy.symm.trans hb) Bool.false_ne_true

theorem silent_stable : Stable (layer p) ct Silent := by
  rintro w w' h ⟨e, _, he⟩
  exact (silent_event h he).silent h

theorem cleared_stable : Stable (layer p) ct Cleared := by
  rintro w w' h ⟨e, _, he⟩
  exact (silent_event h.toSilent he).cleared h

theorem idle_stable : Stable (layer p) ct Idle := by
  refine stable_stHandler fun st => ?_
  cases st with
  | lstning => exact listening_stable p
  | rxing => exact receiving_stable p
  | _ => exact Stable.const

theorem busy_stable (f : BitVec 32) : Stable (layer p) ct (Busy f) := by
  refine stable_stHandler fun st => ?_
  cases st with
  | lstning =>
    refine (silent_stable p).imp.and ?_
    rintro w w' h hr he
    rcases h he with h | ⟨hf, h⟩
    · exact Or.inl (listening_stable p w w' h hr)
    · exact Or.inr ⟨hf, receiving_stable p w w' h hr⟩
  | rxing =>
    rintro w w' h hr
    rcases h with h | h
    · exact Or.inl h
    · exact Or.inr (receiving_stable p w w' h hr)
  | _ => exact Stable.const

end Stability

section Handlers
variable {p : Platform} {f : BitVec 32} {w : World} {α : Type} {Q : α → World → Prop}

/-- In state `st`, with something that spared calls keep. -/
structure Kept (p : Platform) (st : St) (P : World → Prop) : Prop where
  stable : Stable (layer p) ct P
  spared : ∀ w w', Spared w w' → P w → P w'
  at_st : ∀ w, P w → w.stHandler = st

theorem kept_listening :
    Kept p .lstning fun w => w.stHandler = .lstning ∧ Listening w where
  stable := (stHandler_stable p ct .lstning).and (listening_stable p)
  spared := fun _ _ hs h => ⟨hs.stHandler.trans h.1, hs.listening h.2⟩
  at_st := fun _ h => h.1

theorem kept_silent (st : St) : Kept p st fun w => w.stHandler = st ∧ Silent w where
  stable := (stHandler_stable p ct st).and (silent_stable p)
  spared := fun _ _ hs h => ⟨hs.stHandler.trans h.1, hs.silent h.2⟩
  at_st := fun _ h => h.1

theorem kept_cleared : Kept p .lstning fun w => w.stHandler = .lstning ∧ Cleared w where
  stable := (stHandler_stable p ct .lstning).and (cleared_stable p)
  spared := fun _ _ hs h => ⟨hs.stHandler.trans h.1, hs.cleared h.2⟩
  at_st := fun _ h => h.1

theorem wp_spare {st : St} {P : World → Prop} {o : Call} {k : o.Res → LayerProg α}
    (hP : Kept p st P) (ho : Spares o) (hw : P w)
    (h : ∀ r w, P w → wp (layer p) ct (k r) Q w) : wp (layer p) ct (perform o >>= k) Q w :=
  wp_keep hP.stable (fun w _ => pre_spares ho w)
    (fun w _ _ w' hw _ hx => hP.spared w w' (exec_spares ho hx) hw) hw h

/-- The states of which nothing is asked. -/
def Other (st : St) : Prop := st ≠ .lstning ∧ st ≠ .rxing

instance (st : St) : Decidable (Other st) := inferInstanceAs (Decidable (_ ∧ _))

theorem busy_other {st : St} (hst : Other st) (h : w.stHandler = st) : Busy f w := by
  unfold Busy
  rw [h]
  cases st with
  | lstning => exact absurd rfl hst.1
  | rxing => exact absurd rfl hst.2
  | _ => trivial

theorem idle_other {st : St} (hst : Other st) (h : w.stHandler = st) : Idle w := by
  unfold Idle
  rw [h]
  cases st with
  | lstning => exact absurd rfl hst.1
  | rxing => exact absurd rfl hst.2
  | _ => trivial

theorem pre_leave {st st' : St} (hst : st ≠ .lstning) (hw : w.stHandler = st) :
    ct.pre (.setStHandler st') w := by
  cases st' with
  | setting => exact fun hl => absurd (hw.symm.trans hl) hst
  | _ => trivial

theorem wp_smTran {st st' : St} (hst : st ≠ .lstning) (hst' : Other st')
    (hw : w.stHandler = st) : wp (layer p) ct (smTran st') (Returned Idle Busy) w :=
  wp_tran (stHandler_stable p ct st) hw (fun _ hw => pre_leave hst hw)
    (stHandler_stable p ct st') (fun _ _ => rfl) fun _ hw => busy_other hst' hw

theorem wp_stay {st : St} {r : SmRet} (hst : Other st) (hr : r ≠ .tran)
    (hw : w.stHandler = st) : wp (layer p) ct (pure r) (Returned Idle Busy) w :=
  wp_return hr (stHandler_stable p ct st) hw fun _ hw => idle_other hst hw

/-- A quiet call of a state of which nothing is asked. -/
theorem wp_go {st : St} {o : Call} {k : o.Res → LayerProg α} (ho : o.Quiet)
    (hw : w.stHandler = st) (h : ∀ r w, w.stHandler = st → wp (layer p) ct (k r) Q w) :
    wp (layer p) ct (perform o >>= k) Q w :=
  wp_quiet (stHandler_stable p ct st) (fun _ _ _ _ _ _ _ h => h) ho (fun w _ => pre_quiet ho w) hw h

theorem wp_flagsSet {st : St} {g : BitVec 32} {k : Unit → LayerProg α} (hw : w.stHandler = st)
    (h : ∀ w, w.stHandler = st → wp (layer p) ct (k ()) Q w) :
    wp (layer p) ct (perform (.flagsSet g) >>= k) Q w := by
  refine wp_perform (stHandler_stable p ct st) hw (fun _ _ => trivial) fun w c r w' hw _ hx => ?_
  cases hx
  exact h _ hw

theorem handle_initing (hw : w.stHandler = .initing) :
    wp (layer p) ct (stIniting p f) (Returned Idle Busy) w :=
  wp_stIniting (stHandler_stable p ct .initing) (fun _ _ _ _ _ _ _ h => h)
    (fun _ w _ ho => pre_quiet ho w) hw (fun _ hw => wp_smTran (by decide) (by decide) hw)
    fun _ hw => wp_stay (by decide) (by decide) hw

theorem handle_setting (hw : w.stHandler = .setting) :
    wp (layer p) ct (stSetting f) (Returned Idle Busy) w := by
  have done : ∀ {w : World}, w.stHandler = .setting →
      wp (layer p) ct (pure SmRet.handled) (Returned Idle Busy) w := fun hw =>
    wp_stay (by decide) (by decide) hw
  unfold stSetting
  split
  · refine wp_go trivial hw fun sleep w hw => ?_
    split
    · exact wp_go trivial hw fun _ w hw => done hw
    · exact wp_flagsSet hw fun w hw => done hw
  split
  · refine wp_go trivial hw fun _ w hw => ?_
    exact wp_flagsSet hw fun w hw => done hw
  split
  · -- in standby the chip does not receive
    refine wp_perform (stHandler_stable p ct .setting) hw (fun _ _ => trivial) fun w c r w' hw _ hx => ?_
    cases hx
    have hk := kept_silent (p := p) .setting
    have hsilent : Silent { w with
        radio := w.radio.writeOpMode .stby, opMode := some .stby, rxBusy := false } :=
      ⟨(fun h => by cases h), rfl⟩
    refine wp_spare hk trivial ⟨hw, hsilent⟩ fun empty w hw => ?_
    split
    · repeat refine wp_spare hk trivial hw fun _ w hw => ?_
      exact wp_smTran (by decide) (by decide) hw.1
    · repeat refine wp_spare hk trivial hw fun _ w hw => ?_
      refine wp_tran (R := fun w => w.stHandler = .lstning ∧ Silent w) hk.stable hw
        (fun _ _ => trivial) (kept_silent .lstning).stable
        (fun _ hw => ⟨rfl, hw.2.opMode, hw.2.rxBusy⟩) fun w hw => ?_
      unfold Busy
      rw [hw.1]
      exact ⟨fun _ => hw.2, fun hn => by cases hn⟩
  · exact wp_stay (by decide) (by decide) hw

theorem handle_txing (hw : w.stHandler = .txing) :
    wp (layer p) ct (stTxing f) (Returned Idle Busy) w := by
  unfold stTxing
  split
  · repeat refine wp_go trivial hw fun _ w hw => ?_
    refine wp_perform (stHandler_stable p ct .txing) hw (fun _ _ => trivial) fun w c d w' hw _ hx => ?_
    obtain ⟨_, _, hx⟩ := Option.map_eq_some_iff.mp hx
    cases hx
    refine wp_perform (stHandler_stable p ct .txing) hw (fun _ _ => trivial) fun w c r w' hw _ hx => ?_
    obtain ⟨_, _, hx⟩ := Option.map_eq_some_iff.mp hx
    cases hx
    refine wp_perform (stHandler_stable p ct .txing) hw (fun _ _ => trivial) fun w c r w' hw _ hx => ?_
    cases hx
    exact wp_go trivial hw fun _ w hw => wp_stay (by decide) (by decide) hw
  split
  · exact wp_smTran (by decide) (by decide) hw
  · exact wp_stay (by decide) (by decide) hw

theorem wp_listening {r : SmRet} (hr : r ≠ .tran) (hw : w.stHandler = .lstning ∧ Listening w) :
    wp (layer p) ct (pure r) (Returned Idle Busy) w := by
  refine wp_return hr kept_listening.stable hw fun w hw => ?_
  unfold Idle
  rw [hw.1]
  exact hw.2

theorem wp_receiving (hw : w.stHandler = .rxing ∧ Receiving w) :
    wp (layer p) ct (pure .ignored) (Returned Idle Busy) w := by
  refine wp_return (by decide) ((stHandler_stable p ct .rxing).and (receiving_stable p)) hw
    fun w hw => ?_
  unfold Idle
  rw [hw.1]
  exact hw.2

/-- `SM_TRAN` to Rxing, which still has to hear of the frame's end. -/
theorem wp_smTran_rxing (hw : Receiving w) :
    wp (layer p) ct (smTran .rxing) (Returned Idle Busy) w := by
  refine wp_tran (R := fun w => w.stHandler = .rxing ∧ Receiving w) (receiving_stable p) hw
    (fun _ _ => trivial) ((stHandler_stable p ct .rxing).and (receiving_stable p))
    (fun _ hw => ⟨rfl, hw⟩) fun w hw => ?_
  unfold Busy
  rw [hw.1]
  exact Or.inr hw.2

/-- Clearing the flags before the chip receives again. -/
theorem cleared_writeFlags (h : Silent w) :
    Cleared (w.setRadio (w.radio.writeLoraIrqFlags rxIrqs)) := by
  have hclr : ∀ m, has (~~~rxIrqs) m = false →
      (w.setRadio (w.radio.writeLoraIrqFlags rxIrqs)).latched m = false := by
    intro m hm
    rw [World.latched, World.setRadio, SX127xRadio.writeLoraIrqFlags_regs, Function.update_self]
    exact has_and_of_right hm _
  exact ⟨⟨h.opMode, h.rxBusy⟩, hclr _ rfl, hclr _ rfl⟩

/-- A change of mode leaves what is latched. -/
theorem latched_writeOpMode (w : World) (m : OpMode) (i : Octet) :
    World.latched { w with
      radio := w.radio.writeOpMode m, opMode := some m, rxBusy := false } i = w.latched i := by
  rw [World.latched, SX127xRadio.writeOpMode_regs]
  rfl

/-- Entering Lstning: the chip receives with nothing latched. -/
theorem enter_lstning (hw : w.stHandler = .lstning ∧ Silent w) :
    wp (layer p) ct (do
      perform (.radio (.writeLoraIrqMask loraIrqAll rxIrqs))
      perform (.radio (.writeLoraIrqFlags rxIrqs))
      perform (.radio (.writeFifoPtr 0x00))
      perform (.radio (.writeOpMode .rxcont))
      pure .handled) (Returned Idle Busy) w := by
  have hk := kept_silent (p := p) .lstning
  refine wp_spare hk trivial hw fun _ w hw => ?_
  refine wp_perform hk.stable hw (fun _ _ => trivial) fun w c r w' hw _ hx => ?_
  cases hx
  refine wp_spare kept_cleared trivial ⟨hw.1, cleared_writeFlags hw.2⟩ fun _ w hw => ?_
  refine wp_perform kept_cleared.stable hw (fun _ _ => trivial) fun w c r w' hw _ hx => ?_
  cases hx
  have hheader := (latched_writeOpMode w .rxcont _).trans hw.2.header
  have hdone := (latched_writeOpMode w .rxcont _).trans hw.2.done
  exact wp_listening (by decide) ⟨hw.1, listening_of_unlatched hheader hdone rfl⟩

/-- Leaving Lstning to send: the chip is put in standby with nothing latched. -/
theorem leave_lstning (hw : w.stHandler = .lstning ∧ Listening w) :
    wp (layer p) ct (do
      perform (.radio (.writeOpMode .stby))
      smTran .setting) (Returned Idle Busy) w := by
  refine wp_perform kept_listening.stable hw (fun _ _ => trivial) fun w c r w' hw hok hx => ?_
  cases hx
  have hkeeps : ¬ BreaksOff w := hok.1
  have hheader : w.latched loraIrqValidHeader = false := by
    simpa using fun hv => hkeeps ⟨hw.1, hv⟩
  have hdone : w.latched loraIrqRxDone = false := hw.2.unlatched_done hheader
  have hcleared : Cleared { w with
      radio := w.radio.writeOpMode .stby, opMode := some .stby, rxBusy := false } :=
    ⟨⟨(fun h => by cases h), rfl⟩, (latched_writeOpMode w .stby _).trans hheader,
      (latched_writeOpMode w .stby _).trans hdone⟩
  exact wp_tran kept_cleared.stable ⟨hw.1, hcleared⟩ (fun _ hw _ => hw.2.header)
    (stHandler_stable p ct .setting) (fun _ _ => rfl) fun _ hw => busy_other (by decide) hw

theorem wp_onBtn (hw : w.stHandler = .lstning ∧ Listening w) :
    wp (layer p) ct onBtn (Returned Idle Busy) w := by
  have hk := kept_listening (p := p)
  unfold onBtn
  repeat refine wp_spare hk trivial hw fun _ w hw => ?_
  exact wp_listening (by decide) hw

/-- Lstning has nothing else to do. -/
theorem Takes.stLstning (ht : Takes f) (hent : has f evtSmEnter = false) :
    stLstning f = smTran .rxing := by
  rw [HeyMacLayer.stLstning, if_neg (by simp [hent]), if_neg (by simp [ht.prdc]),
    if_neg (by simp [ht.txRdy]), if_neg (by simp [ht.btn]), if_pos ht.header]

theorem stRxing_done (hent : has f evtSmEnter = false) (hf : has f evtDioRxDone = true) :
    stRxing f = smTran .setting := by
  rw [stRxing, if_neg (by simp [hent]), if_pos hf]

/-- Lstning keeps what it is owed, or leaves, or goes to Rxing with the header's event. -/
theorem handle_lstning (hw : w.stHandler = .lstning) (hb : BusyAt f .lstning w) :
    wp (layer p) ct (stLstning f) (Returned Idle Busy) w := by
  by_cases hent : has f evtSmEnter = true
  · rw [stLstning, if_pos hent]
    exact enter_lstning ⟨hw, hb.1 hent⟩
  have hent : has f evtSmEnter = false := by simpa using hent
  rcases hb.2 hent with hl | ⟨ht, hr⟩
  · rw [stLstning, if_neg (by simp [hent])]
    split
    · refine wp_spare kept_listening trivial ⟨hw, hl⟩ fun _ w hw => ?_
      exact wp_listening (by decide) hw
    split
    · exact leave_lstning ⟨hw, hl⟩
    split
    · exact wp_onBtn ⟨hw, hl⟩
    split
    · exact wp_smTran_rxing hl.receiving
    · exact wp_listening (by decide) ⟨hw, hl⟩
  · rw [ht.stLstning hent]
    exact wp_smTran_rxing hr

theorem handle_rxing (hf : f = evtSmEnter ∨ has f evtSmEnter = false) (hw : w.stHandler = .rxing)
    (hb : BusyAt f .rxing w) : wp (layer p) ct (stRxing f) (Returned Idle Busy) w := by
  unfold stRxing
  split
  · rename_i hent
    rcases hf with rfl | hf
    · rcases hb with h | h
      · cases h
      · exact wp_receiving ⟨hw, h⟩
    · exact absurd (hf.symm.trans hent) Bool.false_ne_true
  split
  · exact wp_smTran (by decide) (by decide) hw
  · rename_i hdone
    rcases hb with h | h
    · exact absurd h hdone
    · exact wp_receiving ⟨hw, h⟩

end Handlers

/-- A wait that loses nothing takes the header's event as the first. -/
theorem takes_of_keeps {w : World} (hst : w.stHandler = .lstning)
    (hv : w.latched loraIrqValidHeader = true) (hhdr : has w.flags evtDioValidHdr = true)
    (hkeeps : ¬ Loses w) : Takes w.flags ∧ w.latched loraIrqRxDone ≠ true := by
  have hno : ¬ (has w.flags evtThrdPrdc = true ∨ has w.flags evtTxRdy = true ∨
      has w.flags evtBtn = true ∨ w.latched loraIrqRxDone = true) :=
    fun h => hkeeps ⟨hst, hv, h⟩
  simp only [not_or, Bool.not_eq_true] at hno
  obtain ⟨hprdc, hrdy, hbtn, hdone⟩ := hno
  exact ⟨⟨hprdc, hrdy, hbtn, hhdr⟩, by simp [hdone]⟩

/-- The wait hands Lstning and Rxing what they need. -/
theorem wait_busy {w : World} (h : Idle w) (hok : ct.opOk .flagsWaitAny w) :
    Busy w.flags { w with flags := w.flags &&& ~~~evtAll } := by
  obtain ⟨hkeeps, hne⟩ := hok
  have hne : has w.flags evtSmEnter = false := hne
  unfold Idle at h
  unfold Busy
  cases hst : w.stHandler with
  | lstning =>
    rw [hst] at h
    refine ⟨fun he => absurd (hne.symm.trans he) Bool.false_ne_true, fun _ => ?_⟩
    cases hv : w.latched loraIrqValidHeader with
    | false =>
      have hr : w.latched loraIrqRxDone = false := h.unlatched_done hv
      have hb : w.rxBusy = false := by
        by_contra hb
        exact absurd (hv.symm.trans (h.busy (by simpa using hb))) Bool.false_ne_true
      exact Or.inl (listening_of_unlatched hv hr hb)
    | true =>
      obtain ⟨htakes, hdone⟩ := takes_of_keeps hst hv (h.header hv) hkeeps
      exact Or.inr ⟨htakes, fun hr => absurd hr hdone⟩
  | rxing =>
    rw [hst] at h
    by_cases hr : w.latched loraIrqRxDone = true
    · exact Or.inl (h hr)
    · exact Or.inr fun hr' => absurd hr' hr
  | _ => trivial

theorem idle_pre {w : World} (h : Idle w) : ct.pre .flagsWaitAny w := by
  unfold Idle at h
  constructor
  · intro hst hv
    rw [hst] at h
    exact h.header hv
  · intro hst hr
    rw [hst] at h
    exact h hr

variable (p : Platform)

theorem loopProof : LoopProof p ct (fun _ => True) Idle Busy where
  boot_stable := Stable.const
  idle_stable := idle_stable p
  busy_stable := busy_stable p
  boot_pre := fun _ _ => trivial
  idle_pre := fun _ h => idle_pre h
  busy_pre := fun _ _ _ => ⟨trivial, trivial⟩
  noEnter := fun _ h => h.2
  fresh := fun _ _ => trivial
  boot := fun _ _ => trivial
  wait := fun _ h hok => wait_busy h hok
  attach := fun f w h => by
    have hs : Spared w { w with ticker := true } := ⟨rfl, rfl, rfl, rfl, fun _ h => h⟩
    exact hs.busy h
  handle := fun st f w hf hst hb => by
    unfold Busy at hb
    rw [hst] at hb
    cases st with
    | initing => exact handle_initing hst
    | setting => exact handle_setting hst
    | lstning => exact handle_lstning hst hb
    | rxing => exact handle_rxing hf hst hb
    | txing => exact handle_txing hst

/-- A received header is pending where the loop is about to wait in Lstning, and if the wait
does not lose it the loop waits next in Rxing. A received frame is pending where the loop is
about to wait in Rxing, and the loop waits next in Setting. Lstning is left for Setting only
while no header is received. -/
structure Heard (c : LayerConfig) : Prop where
  header : c.prog.nextOp = some .flagsWaitAny → c.world.stHandler = .lstning →
    c.world.latched loraIrqValidHeader = true →
      has c.world.flags evtDioValidHdr = true ∧ (¬ Loses c.world → NextWait p c .rxing)
  done : c.prog.nextOp = some .flagsWaitAny → c.world.stHandler = .rxing →
    c.world.latched loraIrqRxDone = true →
      has c.world.flags evtDioRxDone = true ∧ NextWait p c .setting
  leaves : c.prog.nextOp = some (.setStHandler .setting) → c.world.stHandler = .lstning →
    c.world.latched loraIrqValidHeader = false

/-- In every run whose waits lose no event of reception and whose standby commands break
none off, what is received in Lstning is heard and leads through Rxing to Setting. -/
theorem reception_heard {c : LayerConfig} (h : (layer p).Reach Started contract.guard c) :
    Heard p c := by
  have hwp := (loopProof p).reach_assuming h
  have hfree : (layer p).Reach Started (fun _ _ => True) c := h.mono fun _ _ _ => trivial
  have hent : has c.world.flags evtSmEnter = false := reach_noEnter p hfree
  constructor
  · intro hwait hst hv
    have hhdr := (pre_of_wp hwp hwait).1 hst hv
    refine ⟨hhdr, fun hkeeps => ?_⟩
    obtain ⟨htakes, _⟩ := takes_of_keeps hst hv hhdr hkeeps
    refine nextWait_of_tran hfree hwait (LayerProgress.has_all rfl hhdr) ?_ (Or.inl rfl)
    rw [hst]
    exact htakes.stLstning hent
  · intro hwait hst hr
    have hf := (pre_of_wp hwp hwait).2 hst hr
    refine ⟨hf, nextWait_of_tran hfree hwait (LayerProgress.has_all rfl hf) ?_ (Or.inr rfl)⟩
    rw [hst]
    exact stRxing_done hent hf
  · intro ho hst
    exact pre_of_wp hwp ho hst

/-! Runs on fixed inputs. -/

instance (w : World) : Decidable (Loses w) := inferInstanceAs (Decidable (_ ∧ _))

instance (w : World) : Decidable (BreaksOff w) := inferInstanceAs (Decidable (_ ∧ _))

/-- The run neither loses nor breaks off a reception. -/
def testHeard (c : LayerConfig) : Label Event Choice → Bool
  | .env _ => true
  | .act _ => match c.prog.nextOp with
    | some .flagsWaitAny => decide (¬ Loses c.world)
    | some (.radio (.writeOpMode .stby)) => decide (¬ BreaksOff c.world)
    | _ => true

theorem testHeard_guard (c : LayerConfig) (l : Label Event Choice)
    (h : testHeard c l = true) : contract.guard c l := by
  cases l with
  | env e => trivial
  | act ch =>
    intro o ho
    rw [testHeard, ho] at h
    cases o with
    | flagsWaitAny =>
      have hkeeps : ¬ Loses c.world := of_decide_eq_true h
      exact hkeeps
    | radio rc =>
      cases rc with
      | writeOpMode m =>
        cases m with
        | stby =>
          have hgoes : ¬ BreaksOff c.world := of_decide_eq_true h
          exact hgoes
        | _ => trivial
      | _ => trivial
    | _ => trivial

/-- A header is received in Lstning, which goes to Rxing, and then the frame, with which
Rxing goes to Setting. -/
theorem reception_heard_frame : ∃ c d : LayerConfig,
    (layer .plain).Reach Started contract.guard c ∧
      (layer .plain).Reach Started contract.guard d ∧
      c.world.stHandler = .lstning ∧ NextWait .plain c .rxing ∧
      d.world.stHandler = .rxing ∧ NextWait .plain d .setting := by
  obtain ⟨c, hc, hP⟩ := reach_plain testHeard_guard (toLstning ++ [.env .validHeader])
    (fun c => waitsIn c .lstning &&
      decide (c.world.latched loraIrqValidHeader = true ∧ ¬ Loses c.world)) (by decide +kernel)
  obtain ⟨d, hd, hQ⟩ := reach_plain testHeard_guard
    (toLstning ++ [.env .validHeader] ++ acts 6 ++ [.env .rxDone])
    (fun d => waitsIn d .rxing && d.world.latched loraIrqRxDone) (by decide +kernel)
  obtain ⟨hw, hv⟩ := Bool.and_eq_true_iff.mp hP
  obtain ⟨hwait, hst⟩ := waitsIn_spec hw
  obtain ⟨hv, hkeeps⟩ := of_decide_eq_true hv
  obtain ⟨hw', hr⟩ := Bool.and_eq_true_iff.mp hQ
  obtain ⟨hwait', hst'⟩ := waitsIn_spec hw'
  exact ⟨c, d, hc, hd, hst, ((reception_heard .plain hc).header hwait hst hv).2 hkeeps, hst',
    ((reception_heard .plain hd).done hwait' hst' hr).2⟩

/-- The events of reception come from the chip's flags alone. -/
def FromChip (_ : LayerConfig) : Label Event Choice → Prop
  | .env (.dio sig) => sig ≠ .validHdr ∧ sig ≠ .rxDone
  | _ => True

def fromChip : Event → Bool
  | .dio sig => sig != .validHdr && sig != .rxDone
  | _ => true

theorem fromChip_guard (c : LayerConfig) (l : Label Event Choice)
    (h : testStep fromChip (fun _ => false) c l = true) : FromChip c l := by
  cases l with
  | env e =>
    cases e with
    | dio sig =>
      obtain ⟨hhdr, hdone⟩ := Bool.and_eq_true_iff.mp h
      exact ⟨bne_iff_ne.mp hhdr, bne_iff_ne.mp hdone⟩
    | _ => trivial
  | act ch => trivial

/-- A header's event is delivered with the ticker's: the loop waits in Lstning again with
the header latched and nothing pending. -/
theorem tick_swallows_header : ∃ c : LayerConfig,
    (layer .plain).Reach Started FromChip c ∧
      c.prog.nextOp = some .flagsWaitAny ∧ c.world.stHandler = .lstning ∧
      c.world.latched loraIrqValidHeader = true ∧ c.world.flags = 0 := by
  obtain ⟨c, hc, hP⟩ := reach_plain fromChip_guard
    (toLstning ++ [.env .validHeader, .env .tick] ++ acts 4)
    (fun c => waitsIn c .lstning &&
      decide (c.world.latched loraIrqValidHeader = true ∧ c.world.flags = 0))
    (by decide +kernel)
  obtain ⟨hw, hd⟩ := Bool.and_eq_true_iff.mp hP
  obtain ⟨hwait, hst⟩ := waitsIn_spec hw
  exact ⟨c, hc, hwait, hst, of_decide_eq_true hd⟩

/-- A frame's header and end are delivered together: the loop waits in Rxing with the frame
received and nothing pending. -/
example : ∃ c : LayerConfig, (layer .plain).Reach Started FromChip c ∧
    (waitsIn c .rxing && decide (c.world.latched loraIrqRxDone = true ∧ c.world.flags = 0)) =
      true :=
  reach_plain fromChip_guard (toLstning ++ [.env .validHeader, .env .rxDone] ++ acts 6) _
    (by decide +kernel)

/-- A whole frame is delivered with the wake-up for another: the loop waits in Setting with
the frame received and its events gone, to send. -/
example : ∃ c : LayerConfig, (layer .plain).Reach Started FromChip c ∧
    (waitsIn c .setting && decide (c.world.latched loraIrqRxDone = true ∧
      has c.world.flags (evtDioValidHdr ||| evtDioRxDone) = false)) = true :=
  reach_plain fromChip_guard (toLstning ++ [.env .validHeader, .env .rxDone,
    .env (.pushBack 0 0), .env .postTxRdy] ++ acts 9) _ (by decide +kernel)

end LayerReception
