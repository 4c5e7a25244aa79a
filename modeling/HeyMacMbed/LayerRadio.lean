import HeyMacMbed.LayerLoop
import HeyMacMbed.RadioShadow

/-!
# The state machine and the radio

Each state of the layer has the radio's op mode, and its pins mapped, as the
state needs them whenever the loop waits there. LoRa mode is settled by the
radio's initialisation and never outstanding afterwards.
-/

open Bits Octets Fields Threads HeyMacLayer SX127xRadio

namespace LayerRadio

/-- LoRa mode is applied as asked for. -/
def LoraSettled (w : World) : Prop :=
  w.radio.rdoStngs .rdoLoraMode = w.radio.rdoStngsApplied .rdoLoraMode

/-- The radio receives, and its pins tell RxDone, RxTimeout and ValidHeader. -/
structure Receiver (w : World) : Prop where
  opMode : w.opMode = some .rxcont
  dio0 : w.radio.rdoStngsApplied .rdoDio0 = 0
  dio1 : w.radio.rdoStngsApplied .rdoDio1 = 0
  dio3 : w.radio.rdoStngsApplied .rdoDio3 = 1

/-- The radio transmits, and its pin tells TxDone. -/
structure Transmitter (w : World) : Prop where
  opMode : w.opMode = some .tx
  dio0 : w.radio.rdoStngsApplied .rdoDio0 = 1

/-- What the radio is like before a call. -/
def contract : Contract Call World Event where
  envOk := fun _ _ => True
  opOk := fun _ _ => True
  pre := fun o w => match o with
    | .radio (.writeStngs _) => w.opMode = some .stby ∧ LoraSettled w
    | .radio .writeSleepStngs => w.opMode = some .sleep ∨ LoraSettled w
    | .radio .initRadio => False
    | .pinReset => w.opMode = none
    | .flagsWaitAny => (w.stHandler = .lstning ∨ w.stHandler = .rxing → Receiver w) ∧
        (w.stHandler = .txing → Transmitter w)
    | _ => True

def ct : Contract Call World Event := contract.assuming NoEnter

abbrev Stngs := List (Fld × Octet)

/-- In state `st` with the op mode as `M` tells, the settings `D` asked for and `A` applied. -/
structure Tuned (st : St) (M : Option OpMode → Prop) (D A : Stngs) (w : World) : Prop where
  stHandler : w.stHandler = st
  opMode : M w.opMode
  asked : ∀ x ∈ D, w.radio.rdoStngs x.1 = x.2
  applied : ∀ x ∈ A, w.radio.rdoStngsApplied x.1 = x.2

def loraOn : Stngs := [(.rdoLoraMode, 1)]
def forTx : Stngs := (.rdoDio0, 1) :: loraOn
def forRx : Stngs := (.rdoDio3, 1) :: (.rdoDio1, 0) :: (.rdoDio0, 0) :: loraOn

/-- The settings of a state. -/
def tunedTo : St → Stngs
  | .initing => []
  | .setting => loraOn
  | .lstning | .rxing => forRx
  | .txing => forTx

/-- The op modes of a state with the events `f`; its entry may have the mode to change. -/
def modeOk (f : BitVec 32) : St → Option OpMode → Prop
  | .initing, m => m = none
  | .setting, _ => True
  | .lstning, m => has f evtSmEnter = true ∨ m = some .rxcont
  | .rxing, m => m = some .rxcont
  | .txing, m => has f evtSmEnter = true ∨ m = some .tx

def TunedAt (f : BitVec 32) (st : St) : World → Prop :=
  Tuned st (modeOk f st) (tunedTo st) (tunedTo st)

def Busy (f : BitVec 32) (w : World) : Prop := TunedAt f w.stHandler w

def Idle : World → Prop := Busy 0

section Tuned
variable {st : St} {M M' : Option OpMode → Prop} {D D' A A' : Stngs} {w w' : World}

theorem Tuned.mono (h : Tuned st M D A w) (hM : ∀ m, M m → M' m) (hD : D' ⊆ D) (hA : A' ⊆ A) :
    Tuned st M' D' A' w :=
  ⟨h.stHandler, hM _ h.opMode, fun x hx => h.asked x (hD hx), fun x hx => h.applied x (hA hx)⟩

/-- A call of the driver that changes settings alone. -/
theorem Tuned.setRadio {r : SX127xRadio} (h : Tuned st M D A w)
    (hD : ∀ x ∈ D', r.rdoStngs x.1 = x.2) (hA : ∀ x ∈ A', r.rdoStngsApplied x.1 = x.2) :
    Tuned st M D' A' (w.setRadio r) := ⟨h.stHandler, h.opMode, hD, hA⟩

theorem Tuned.settled (h : Tuned st M D A w) (hD : (.rdoLoraMode, 1) ∈ D)
    (hA : (.rdoLoraMode, 1) ∈ A) : LoraSettled w :=
  (h.asked _ hD).trans (h.applied _ hA).symm

/-- What most calls keep. -/
structure Untouched (w w' : World) : Prop where
  stHandler : w'.stHandler = w.stHandler
  opMode : w'.opMode = w.opMode
  stngs : w'.radio.rdoStngs = w.radio.rdoStngs
  applied : w'.radio.rdoStngsApplied = w.radio.rdoStngsApplied

theorem Tuned.untouched (h : Tuned st M D A w) (hu : Untouched w w') : Tuned st M D A w' where
  stHandler := hu.stHandler.trans h.stHandler
  opMode := hu.opMode ▸ h.opMode
  asked := fun x hx => (congrFun hu.stngs _).trans (h.asked x hx)
  applied := fun x hx => (congrFun hu.applied _).trans (h.applied x hx)

theorem tuned_stable (p : Platform) : Stable (layer p) ct (Tuned st M D A) :=
  stable_of_around fun _ _ ha h => h.untouched ⟨ha.stHandler, ha.opMode, ha.stngs, ha.applied⟩

end Tuned

/-- Calls that leave state, op mode and settings alone, and of which nothing is asserted. -/
def Inert : Call → Prop
  | .flagsWaitAny | .setStHandler _ | .pinReset | .resetRdoStngs | .noteLoraMode
  | .radio .initRadio | .radio (.set _ _) | .radio (.writeOpMode _) | .radio (.writeStngs _)
  | .radio .writeSleepStngs => False
  | _ => True

theorem pre_inert {o : Call} (ho : Inert o) (w : World) : ct.pre o w := by
  cases o with
  | radio c => cases c <;> trivial
  | _ => trivial

theorem exec_inert {p : Platform} {o : Call} {ch : Choice} {w w' : World} {r : o.Res}
    (ho : Inert o) (h : Call.exec p o ch w = some (r, w')) : Untouched w w' := by
  have hf := exec_frame h
  have hmode := hf.mode (by rintro m rfl; exact ho)
  have hst : w'.stHandler = w.stHandler := by
    cases o with
    | setStHandler st => cases ho
    | _ => exact hf.stHandler
  have hstngs : w'.radio.rdoStngs = w.radio.rdoStngs ∧
      w'.radio.rdoStngsApplied = w.radio.rdoStngsApplied := by
    cases o with
    | pinReset => cases ho
    | resetRdoStngs => cases ho
    | noteLoraMode => cases ho
    | validateChip =>
      cases h
      exact ⟨rfl, rfl⟩
    | writeFifo frm =>
      cases h
      exact ⟨rfl, rfl⟩
    | radio c =>
      cases c with
      | initRadio => cases ho
      | set fld val => cases ho
      | writeOpMode m => cases ho
      | writeStngs b => cases ho
      | writeSleepStngs => cases ho
      | _ =>
        cases h
        exact ⟨rfl, rfl⟩
    | _ =>
      have hr : w'.radio = w.radio := hf.radio id
      rw [hr]
      exact ⟨rfl, rfl⟩
  exact ⟨hst, hmode.1, hstngs.1, hstngs.2⟩

section Handlers
variable {p : Platform} {f : BitVec 32} {w : World} {α : Type} {Q : α → World → Prop}
  {st : St} {M : Option OpMode → Prop} {D A : Stngs}

theorem wp_inert {o : Call} {k : o.Res → LayerProg α} (ho : Inert o) (hw : Tuned st M D A w)
    (h : ∀ r w, Tuned st M D A w → wp (layer p) ct (k r) Q w) :
    wp (layer p) ct (perform o >>= k) Q w :=
  wp_keep (tuned_stable p) (fun w _ => pre_inert ho w)
    (fun _ _ _ _ hw _ hx => hw.untouched (exec_inert ho hx)) hw h

theorem wp_mode {m : OpMode} {k : Unit → LayerProg α} (hw : Tuned st M D A w)
    (h : ∀ w, Tuned st (· = some m) D A w → wp (layer p) ct (k ()) Q w) :
    wp (layer p) ct (perform (.radio (.writeOpMode m)) >>= k) Q w := by
  refine wp_perform (tuned_stable p) hw (fun _ _ => trivial) fun w c r w' hw _ hx => ?_
  cases hx
  exact h _ ⟨hw.stHandler, rfl, hw.asked, hw.applied⟩

/-- A `set` asks for one setting and keeps the others asked for. -/
theorem wp_set {fld : Fld} {val : BitVec 32} {k : Unit → LayerProg α}
    (hD : ∀ x ∈ D, Single x.1 ∧ x.1 ≠ fld) (hw : Tuned st M D A w)
    (h : ∀ w, Tuned st M D A w → wp (layer p) ct (k ()) Q w) :
    wp (layer p) ct (perform (.radio (.set fld val)) >>= k) Q w := by
  refine wp_perform (tuned_stable p) hw (fun _ _ => trivial) fun w c r w' hw _ hx => ?_
  cases hx
  refine h _ (hw.setRadio (fun x hx => ?_) fun x hx => ?_)
  · exact (set_other p.target (single_within _ (hD x hx).1).1 (hD x hx).2).trans (hw.asked x hx)
  · exact (congrFun (w.radio.set_applied p.target fld val) _).trans (hw.applied x hx)

theorem wp_ask {fld : Fld} {val : BitVec 32} {v : Octet} {k : Unit → LayerProg α}
    (hf : Single fld ∧ InBounds fld val ∧ v.toNat = val.toNat)
    (hD : ∀ x ∈ D, Single x.1 ∧ x.1 ≠ fld) (hw : Tuned st M D A w)
    (h : ∀ w, Tuned st M ((fld, v) :: D) A w → wp (layer p) ct (k ()) Q w) :
    wp (layer p) ct (perform (.radio (.set fld val)) >>= k) Q w := by
  obtain ⟨hs, hb, hv⟩ := hf
  refine wp_perform (tuned_stable p) hw (fun _ _ => trivial) fun w c r w' hw _ hx => ?_
  cases hx
  refine h _ (hw.setRadio (fun x hx => ?_) fun x hx => ?_)
  · rcases List.mem_cons.mp hx with rfl | hx
    · obtain ⟨v', hv', hset⟩ := set_single p.target (r := w.radio) hs hb
      have heq : v' = v := BitVec.eq_of_toNat_eq (hv'.trans hv.symm)
      have hput : (w.radio.set p.target fld val).rdoStngs fld = v' := by
        simp only [hset, putStng, Function.update_self]
      exact hput.trans heq
    · exact (set_other p.target (single_within _ (hD x hx).1).1 (hD x hx).2).trans (hw.asked x hx)
  · exact (congrFun (w.radio.set_applied p.target fld val) _).trans (hw.applied x hx)

/-- The radio after `write_stngs`, by name: its definition is never looked into. -/
theorem exec_writeStngs {b : Bool} (ch : Choice) {w w' : World} {r : Unit}
    (h : Call.exec p (.radio (.writeStngs b)) ch w = some (r, w')) :
    ∃ rd, w' = w.setRadio rd ∧ rd = w.radio.writeStngs p.target b := by
  cases h
  exact ⟨_, rfl, rfl⟩

/-- `write_stngs` applies all that is asked for. -/
theorem wp_writeStngs {b : Bool} {k : Unit → LayerProg α} (hD : (.rdoLoraMode, 1) ∈ D)
    (hA : (.rdoLoraMode, 1) ∈ A) (hw : Tuned st (· = some .stby) D A w)
    (h : ∀ w, Tuned st (· = some .stby) D D w → wp (layer p) ct (k ()) Q w) :
    wp (layer p) ct (perform (.radio (.writeStngs b)) >>= k) Q w := by
  refine wp_perform (tuned_stable p) hw (fun _ hw => ⟨hw.opMode, hw.settled hD hA⟩)
    fun w c r w' hw _ hx => ?_
  obtain ⟨rd, rfl, hrd⟩ := exec_writeStngs c hx
  have hstngs : rd.rdoStngs = w.radio.rdoStngs := by rw [hrd, writeStngs_rdoStngs]
  have happlied : rd.rdoStngsApplied = w.radio.rdoStngs := by rw [hrd, writeStngs_applied]
  refine h _ (hw.setRadio (fun x hx => ?_) fun x hx => ?_)
  · exact (congrFun hstngs x.1).trans (hw.asked x hx)
  · exact (congrFun happlied x.1).trans (hw.asked x hx)

/-- `write_sleep_stngs` applies LoRa mode. -/
theorem wp_writeSleepStngs {k : Unit → LayerProg α} (hD : (.rdoLoraMode, 1) ∈ D)
    (hpre : ∀ w, Tuned st M D A w → w.opMode = some .sleep ∨ LoraSettled w)
    (hA : ∀ x ∈ A, x.1 = .rdoLoraMode → x.2 = 1) (hw : Tuned st M D A w)
    (h : ∀ w, Tuned st M D ((.rdoLoraMode, 1) :: A) w → wp (layer p) ct (k ()) Q w) :
    wp (layer p) ct (perform (.radio .writeSleepStngs) >>= k) Q w := by
  refine wp_perform (tuned_stable p) hw (fun w hw => hpre w hw) fun w c r w' hw _ hx => ?_
  cases hx
  have happ := writeSleepStngs_applied w.radio
  refine h _ (hw.setRadio (fun x hx => ?_) fun x hx => ?_)
  · exact (congrFun (writeSleepStngs_rdoStngs w.radio) _).trans (hw.asked x hx)
  · refine (congrFun happ x.1).trans ?_
    rcases List.mem_cons.mp hx with rfl | hx
    · rw [Function.update_self]
      exact hw.asked _ hD
    · by_cases hl : x.1 = .rdoLoraMode
      · rw [hl, Function.update_self, hA x hx hl]
        exact hw.asked _ hD
      · rw [Function.update_of_ne hl]
        exact hw.applied x hx

theorem wp_smTran {st' : St} (hM : ∀ m, M m → modeOk evtSmEnter st' m)
    (hD : tunedTo st' ⊆ D) (hA : tunedTo st' ⊆ A) (hw : Tuned st M D A w) :
    wp (layer p) ct (smTran st') (Returned Idle Busy) w := by
  refine wp_tran (R := TunedAt evtSmEnter st') (tuned_stable p) (hw.mono hM hD hA)
    (fun _ _ => trivial) (tuned_stable p) (fun _ hw => ⟨rfl, hw.opMode, hw.asked, hw.applied⟩)
    fun w hw => ?_
  rw [Busy, hw.stHandler]
  exact hw

theorem wp_stay {r : SmRet} (hr : r ≠ .tran) (hw : Tuned st M D A w)
    (hM : ∀ m, M m → modeOk 0 st m) (hD : tunedTo st ⊆ D) (hA : tunedTo st ⊆ A) :
    wp (layer p) ct (pure r) (Returned Idle Busy) w := by
  refine wp_return hr (tuned_stable p) (hw.mono hM hD hA) fun w hw => ?_
  rw [Idle, Busy, hw.stHandler]
  exact hw

/-- The radio's initialisation, from the pin reset to the settings of LoRa mode. -/
theorem wp_initRadio (hw : Tuned .initing (· = none) [] [] w) :
    wp (layer p) ct HeyMacLayer.initRadio (fun _ w => Tuned .initing (· = some .stby) loraOn loraOn w) w := by
  unfold HeyMacLayer.initRadio
  have keep : ∀ {w w' : World} {m : Option OpMode}, Tuned .initing (· = m) [] [] w →
      w'.stHandler = w.stHandler → w'.opMode = w.opMode → Tuned .initing (· = m) [] [] w' :=
    fun hw hst hm => ⟨hst.trans hw.stHandler, hm.trans hw.opMode, by simp, by simp⟩
  refine wp_perform (tuned_stable p) hw (fun _ hw => hw.opMode) fun w c r w' hw _ hx => ?_
  cases hx
  refine wp_perform (tuned_stable p) (keep hw rfl rfl) (fun _ _ => trivial)
    fun w c r w' hw _ hx => ?_
  cases hx
  refine wp_inert trivial (keep hw rfl rfl) fun _ w hw => ?_
  refine wp_mode hw fun w hw => ?_
  refine wp_ask (v := 1) (by decide) (by simp) hw fun w hw => ?_
  refine wp_writeSleepStngs List.mem_cons_self (fun _ hw => Or.inl hw.opMode) (by simp) hw
    fun w hw => ?_
  refine wp_mode hw fun w hw => ?_
  refine wp_last (tuned_stable p) hw (fun _ _ => trivial) fun w c r w' hw _ hx => ?_
  cases hx
  have hnoted : ∀ x ∈ loraOn, w.radio.noteLoraMode.rdoStngsApplied x.1 = x.2 := by
    intro x hx
    cases List.mem_singleton.mp hx
    exact Function.update_self .rdoLoraMode 1 w.radio.rdoStngsApplied
  exact wp_pure (tuned_stable p) (hw.setRadio (r := w.radio.noteLoraMode) hw.asked hnoted)
    fun _ hw => hw

theorem handle_initing (hw : TunedAt f .initing w) :
    wp (layer p) ct (stIniting p f) (Returned Idle Busy) w := by
  unfold stIniting
  split
  · refine wp_inert trivial hw fun _ w hw => ?_
    refine wp_bind (wp_mono (fun _ w hw => ?_) (wp_initRadio hw))
    -- LoRa mode is asked for once more
    have hw : Tuned .initing (· = some .stby) [] loraOn w :=
      hw.mono (fun _ h => h) (List.nil_subset _) fun _ h => h
    refine wp_ask (v := 1) (by decide) (by simp) hw fun w hw => ?_
    repeat refine wp_set (by decide) hw fun w hw => ?_
    exact wp_smTran (fun _ _ => trivial) (by decide) (by decide) hw
  · exact wp_stay (by decide) hw (fun _ h => h) (by decide) (by decide)

theorem handle_setting (hw : TunedAt f .setting w) :
    wp (layer p) ct (stSetting f) (Returned Idle Busy) w := by
  have done : ∀ {w : World} {M : Option OpMode → Prop}, Tuned .setting M loraOn loraOn w →
      wp (layer p) ct (pure SmRet.handled) (Returned Idle Busy) w := fun hw =>
    wp_stay (by decide) hw (fun _ _ => trivial) (by decide) (by decide)
  unfold stSetting
  split
  · refine wp_inert trivial hw fun sleep w hw => ?_
    split
    · exact wp_mode hw fun w hw => done hw
    · exact wp_inert trivial hw fun _ w hw => done hw
  split
  · refine wp_writeSleepStngs (by decide) (fun _ hw => Or.inr (hw.settled (by decide) (by decide)))
      (by decide) hw fun w hw => ?_
    refine wp_inert trivial hw fun _ w hw => ?_
    exact done (hw.mono (fun _ h => h) (List.Subset.refl _) (List.subset_cons_self _ _))
  split
  · refine wp_mode hw fun w hw => ?_
    refine wp_inert trivial hw fun empty w hw => ?_
    split
    · refine wp_ask (v := 1) (by decide) (by decide) hw fun w hw => ?_
      refine wp_writeStngs (by decide) (by decide) hw fun w hw => ?_
      exact wp_smTran (fun _ _ => Or.inl rfl) (by decide) (by decide) hw
    · refine wp_ask (v := 0) (by decide) (by decide) hw fun w hw => ?_
      refine wp_ask (v := 0) (by decide) (by decide) hw fun w hw => ?_
      refine wp_ask (v := 1) (by decide) (by decide) hw fun w hw => ?_
      refine wp_writeStngs (by decide) (by decide) hw fun w hw => ?_
      exact wp_smTran (fun _ _ => Or.inl rfl) (by decide) (by decide) hw
  · exact wp_stay (by decide) hw (fun _ h => h) (by decide) (by decide)

theorem wp_onBtn (hw : Tuned .lstning (· = some .rxcont) forRx forRx w) :
    wp (layer p) ct onBtn (Returned Idle Busy) w := by
  unfold onBtn
  repeat refine wp_inert trivial hw fun _ w hw => ?_
  exact wp_stay (by decide) hw (fun _ h => Or.inr h) (by decide) (by decide)

theorem handle_lstning (hw : TunedAt f .lstning w) :
    wp (layer p) ct (stLstning f) (Returned Idle Busy) w := by
  unfold stLstning
  split
  · repeat refine wp_inert trivial hw fun _ w hw => ?_
    refine wp_mode hw fun w hw => ?_
    exact wp_stay (by decide) hw (fun _ h => Or.inr h) (by decide) (by decide)
  rename_i hent
  have hw : Tuned .lstning (· = some .rxcont) forRx forRx w :=
    hw.mono (fun _ h => h.resolve_left hent) (List.Subset.refl _) (List.Subset.refl _)
  split
  · refine wp_inert trivial hw fun _ w hw => ?_
    exact wp_stay (by decide) hw (fun _ h => Or.inr h) (by decide) (by decide)
  split
  · refine wp_mode hw fun w hw => ?_
    exact wp_smTran (fun _ _ => trivial) (by decide) (by decide) hw
  split
  · exact wp_onBtn hw
  split
  · exact wp_smTran (fun _ h => h) (by decide) (by decide) hw
  · exact wp_stay (by decide) hw (fun _ h => Or.inr h) (by decide) (by decide)

theorem handle_rxing (hw : TunedAt f .rxing w) :
    wp (layer p) ct (stRxing f) (Returned Idle Busy) w := by
  unfold stRxing
  split
  · exact wp_stay (by decide) hw (fun _ h => h) (by decide) (by decide)
  split
  · exact wp_smTran (fun _ _ => trivial) (by decide) (by decide) hw
  · exact wp_stay (by decide) hw (fun _ h => h) (by decide) (by decide)

theorem handle_txing (hw : TunedAt f .txing w) :
    wp (layer p) ct (stTxing f) (Returned Idle Busy) w := by
  unfold stTxing
  split
  · repeat refine wp_inert trivial hw fun _ w hw => ?_
    refine wp_mode hw fun w hw => ?_
    exact wp_stay (by decide) hw (fun _ h => Or.inr h) (by decide) (by decide)
  rename_i hent
  split
  · exact wp_smTran (fun _ _ => trivial) (by decide) (by decide) hw
  · exact wp_stay (by decide) hw (fun _ h => Or.inr (h.resolve_left hent)) (by decide) (by decide)

end Handlers

/-! The bit of LoRa mode in the chip. -/

/-- A driver call of the layer changes the bit in sleep mode only. -/
theorem radio_lora {p : Platform} {c : RadioCall} {ch : Choice} {w w' : World} {r : Unit}
    (hpre : ct.pre (.radio c) w) (h : Call.exec p (.radio c) ch w = some (r, w')) :
    w'.radio.chipVal .rdoLoraMode = w.radio.chipVal .rdoLoraMode ∨ w.opMode = some .sleep := by
  cases c with
  | initRadio => exact absurd hpre id
  | writeStngs b =>
    obtain ⟨rd, rfl, hrd⟩ := exec_writeStngs ch h
    have hl := writeStngs_chipVal p.target b (by decide) hpre.2
    rw [← hrd] at hl
    exact Or.inl hl
  | writeSleepStngs =>
    rcases hpre with hs | hl
    · exact Or.inr hs
    · cases h
      exact Or.inl (congrArg (chipVal · .rdoLoraMode) (writeSleepStngs_idle hl))
  | writeOpMode m =>
    cases h
    exact Or.inl (writeOpMode_chipVal m .rdoLoraMode (by decide))
  | set fld val =>
    cases h
    exact Or.inl (chipVal_congr (congrFun (congrArg Chip.regs (w.radio.set_chip _ _ _)) _))
  | readOpMode =>
    cases h
    exact Or.inl (chipVal_congr (congrFun (w.radio.readReg_regs _) _))
  | updtRng =>
    cases h
    exact Or.inl (chipVal_congr (congrFun (w.radio.readReg_regs _) _))
  | writeFifo data sz =>
    cases h
    exact Or.inl (chipVal_congr (congrFun (w.radio.writeFifo_regs data sz) _))
  | writeFifoPtr offset =>
    cases h
    exact Or.inl (chipVal_congr (congrFun (w.radio.writeFifoPtr_regs offset) _))
  | writeLoraIrqMask d e =>
    cases h
    exact Or.inl (chipVal_congr (congrFun (w.radio.writeLoraIrqMask_regs d e) _))
  | writeLoraIrqFlags m =>
    cases h
    exact Or.inl (chipVal_congr (congrFun (w.radio.writeLoraIrqFlags_regs m) _))

/-- A call changes the bit in sleep mode only, or it is the reset before any op mode. -/
theorem exec_lora {p : Platform} {o : Call} {ch : Choice} {w w' : World} {r : o.Res}
    (hpre : ct.pre o w) (h : Call.exec p o ch w = some (r, w'))
    (hne : w'.radio.chipVal .rdoLoraMode ≠ w.radio.chipVal .rdoLoraMode) :
    w.opMode = some .sleep ∨ o = .pinReset ∧ w.opMode = none := by
  cases o with
  | pinReset => exact Or.inr ⟨rfl, hpre⟩
  | radio c => exact Or.inl ((radio_lora hpre h).resolve_left hne)
  | resetRdoStngs =>
    cases h
    exact absurd rfl hne
  | noteLoraMode =>
    cases h
    exact absurd rfl hne
  | writeFifo frm =>
    cases h
    exact absurd (chipVal_congr (congrFun (w.radio.writeFifo_regs _ _) _)) hne
  | validateChip =>
    cases h
    exact absurd (chipVal_congr (congrFun (w.radio.readReg_regs _) _)) hne
  | _ => exact absurd (congrArg (chipVal · .rdoLoraMode) ((exec_frame h).radio id)) hne

/-- While the loop waits, the state has the radio it needs. -/
theorem idle_pre {w : World} (h : Idle w) : ct.pre .flagsWaitAny w := by
  have hnone : has 0#32 evtSmEnter ≠ true := by decide
  unfold Idle Busy at h
  have hrx : ∀ {st : St} {w : World}, Tuned st (· = some .rxcont) forRx forRx w →
      Receiver w := fun hw =>
    ⟨hw.opMode, hw.applied (.rdoDio0, 0) (by decide), hw.applied (.rdoDio1, 0) (by decide),
      hw.applied (.rdoDio3, 1) (by decide)⟩
  refine ⟨fun hst => ?_, fun hst => ?_⟩
  · rcases hst with hst | hst
    · rw [hst] at h
      exact hrx (h.mono (fun _ h => h.resolve_left hnone) (List.Subset.refl _)
        (List.Subset.refl _))
    · rw [hst] at h
      exact hrx h
  · rw [hst] at h
    exact ⟨h.opMode.resolve_left hnone, h.applied (.rdoDio0, 1) (by decide)⟩

variable (p : Platform)

theorem busy_stable (f : BitVec 32) : Stable (layer p) ct (Busy f) :=
  stable_stHandler fun _ => tuned_stable p

theorem modeOk_wait {f : BitVec 32} {st : St} {m : Option OpMode} (h : modeOk 0 st m) :
    modeOk f st m := by
  have hnone : has 0#32 evtSmEnter ≠ true := by decide
  cases st with
  | lstning => exact Or.inr (h.resolve_left hnone)
  | txing => exact Or.inr (h.resolve_left hnone)
  | _ => exact h

theorem loopProof : LoopProof p ct (fun w => w.opMode = none) Idle Busy where
  boot_stable := stable_of_around fun _ _ ha h => ha.opMode.trans h
  idle_stable := busy_stable p 0
  busy_stable := busy_stable p
  boot_pre := fun _ _ => trivial
  idle_pre := fun _ h => idle_pre h
  busy_pre := fun _ _ _ => ⟨trivial, trivial⟩
  noEnter := fun _ h => h.2
  fresh := fun _ h => h.opMode
  boot := fun _ h => ⟨rfl, h, by simp [tunedTo], by simp [tunedTo]⟩
  wait := fun _ h _ => ⟨rfl, modeOk_wait h.opMode, h.asked, h.applied⟩
  attach := fun _ _ h => ⟨rfl, h.opMode, h.asked, h.applied⟩
  handle := fun st f w _ hst hb => by
    unfold Busy at hb
    rw [hst] at hb
    cases st with
    | initing => exact handle_initing hb
    | setting => exact handle_setting hb
    | lstning => exact handle_lstning hb
    | rxing => exact handle_rxing hb
    | txing => exact handle_txing hb

/-- Settings are written in standby with LoRa mode settled, the bit of LoRa mode changes
in sleep mode only, after the reset, and where the loop waits the radio does what the state
is there for. -/
structure Consistent (c : LayerConfig) : Prop where
  stngs : ∀ forRx, c.prog.nextOp = some (.radio (.writeStngs forRx)) →
    c.world.opMode = some .stby ∧ LoraSettled c.world
  loraBit : ∀ l c', (layer p).step c l = some c' →
    c'.world.radio.chipVal .rdoLoraMode ≠ c.world.radio.chipVal .rdoLoraMode →
    c.world.opMode = some .sleep ∨
      c.prog.nextOp = some .pinReset ∧ c.world.opMode = none
  receiver : c.prog.nextOp = some .flagsWaitAny →
    c.world.stHandler = .lstning ∨ c.world.stHandler = .rxing → Receiver c.world
  transmitter : c.prog.nextOp = some .flagsWaitAny →
    c.world.stHandler = .txing → Transmitter c.world

/-- The environment leaves the bit of LoRa mode alone. -/
theorem env_lora {e : Event} {w w' : World} (h : e.exec w = some w') :
    w'.radio.chipVal .rdoLoraMode = w.radio.chipVal .rdoLoraMode :=
  chipVal_congr ((Event.around h).regs _ (by decide))

/-- In every run the state machine and the radio agree. -/
theorem radio_consistent {c : LayerConfig} (h : (layer p).Reach Started (fun _ _ => True) c) :
    Consistent p c := by
  have hg : (layer p).Reach Started contract.guard c :=
    reach_guard (fun _ _ => trivial) (fun _ _ _ _ => trivial) h
  have hwp := (loopProof p).reach_assuming hg
  have hpre : ∀ o, c.prog.nextOp = some o → ct.pre o c.world := fun _ ho => pre_of_wp hwp ho
  refine ⟨fun _ ho => hpre _ ho, fun l c' hstep hne => ?_, fun ho => (hpre _ ho).1,
    fun ho => (hpre _ ho).2⟩
  obtain ⟨w, q⟩ := c
  cases l with
  | env e =>
    obtain ⟨w', he, rfl⟩ := Option.map_eq_some_iff.mp hstep
    exact absurd (env_lora he) hne
  | act ch =>
    cases q with
    | ret a =>
      cases hstep
      exact absurd rfl hne
    | call o k =>
      obtain ⟨⟨r, w'⟩, hx, rfl⟩ := Option.map_eq_some_iff.mp hstep
      rcases exec_lora (hpre o rfl) hx hne with hs | ⟨ho, hn⟩
      · exact Or.inl hs
      · exact Or.inr ⟨congrArg some ho, hn⟩

/-- A frame is queued while the loop waits in Lstning: the layer waits in Txing, the chip
transmitting and its pin mapped. -/
theorem radio_consistent_tx : ∃ c : LayerConfig, Transmitter c.world ∧ Consistent .plain c := by
  obtain ⟨c, hc, hP⟩ := reach_plain anyStep_guard
    (toLstning ++ [.env (.pushBack 0 0), .env .postTxRdy] ++ acts 26) (waitsIn · .txing)
    (by decide +kernel)
  obtain ⟨hwait, hst⟩ := waitsIn_spec hP
  have hcons := radio_consistent .plain hc
  exact ⟨c, hcons.transmitter hwait hst, hcons⟩

/-- Started again with the chip as a run left it, in standby with LoRa mode on. -/
def warm : LayerConfig :=
  ⟨World.plain.setRadio { SX127xRadio.zeroed with
    chip := ⟨fun a => if a = regRdoOpmode then 0x81 else 0, [], []⟩ }, mainStart 0⟩

/-- The next call clears the bit of LoRa mode before any op mode is commanded. -/
def clearsLora (c : LayerConfig) : Bool :=
  decide (c.world.opMode = none ∧ c.world.radio.chipVal .rdoLoraMode = 1) &&
    ((layer .plain).step c (.act .plain)).any
      fun c' => decide (c'.world.radio.chipVal .rdoLoraMode = 0)

/-- The bit of LoRa mode is set before `thread_start`: the reset of `init_radio` clears it
while no op mode was ever commanded. -/
theorem reset_clears_lora : ∃ c c' : LayerConfig,
    (layer .plain).Reach Started (fun _ _ => True) c ∧
      (layer .plain).step c (.act .plain) = some c' ∧ c.world.opMode = none ∧
      c.world.radio.chipVal .rdoLoraMode = 1 ∧ c'.world.radio.chipVal .rdoLoraMode = 0 := by
  have hwarm : Started warm :=
    ⟨⟨rfl, rfl, rfl, rfl, rfl, rfl, rfl, rfl, rfl, rfl, rfl, rfl⟩, 0, rfl⟩
  have hreach : ∃ c, (layer .plain).Reach Started (fun _ _ => True) c ∧ clearsLora c = true :=
    System.reach_of_any anyStep_guard hwarm (.env .threadStarted :: acts 6) clearsLora
      (by decide +kernel)
  obtain ⟨c, hc, hP⟩ := hreach
  obtain ⟨hbefore, hafter⟩ := Bool.and_eq_true_iff.mp hP
  obtain ⟨hmode, hset⟩ := of_decide_eq_true hbefore
  obtain ⟨c', hstep, hclear⟩ := (Option.any_eq_true _ _).mp hafter
  exact ⟨c, c', hc, hstep, hmode, hset, of_decide_eq_true hclear⟩

end LayerRadio
