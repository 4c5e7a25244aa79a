import HeyMacMbed.LayerRadio
import HeyMacMbed.RadioModem

/-!
# What is on the air

Initing asks for the modem's settings once and `write_stngs` brings them to the
chip when the layer first leaves Setting. From then on everything two nodes
have to agree on lies in the registers as asked for, whatever the layer went
through in between; the pins alone are mapped anew for each state.
-/

open Bits Octets Fields Threads HeyMacLayer SX127xRadio RadioCall RadioModem

namespace LayerModem

/-- The pins as a state needs them. -/
def pinsOf : St → List (Fld × Octet)
  | .initing | .setting => []
  | .lstning | .rxing => [(.rdoDio0, 0), (.rdoDio1, 0), (.rdoDio3, 1)]
  | .txing => [(.rdoDio0, 1)]

/-- Around the thread only interrupt flags change. -/
theorem event_kept {e : Event} {w w' : World} (h : e.exec w = some w') :
    Kept w.radio w'.radio := by
  have ha := Event.around h
  have hfreq : w'.radio.rdoStngsFreq = w.radio.rdoStngsFreq ∧
      w'.radio.rdoStngsFreqApplied = w.radio.rdoStngsFreqApplied := by
    have hlatch : ∀ m evt, (w.latch m evt).radio.rdoStngsFreq = w.radio.rdoStngsFreq ∧
        (w.latch m evt).radio.rdoStngsFreqApplied = w.radio.rdoStngsFreqApplied := by
      intro m evt
      unfold World.latch
      split <;> exact ⟨rfl, rfl⟩
    cases Event.effect h with
    | validHeader _ => exact hlatch _ _
    | rxDone _ => exact hlatch _ _
    | _ => exact ⟨rfl, rfl⟩
  refine ⟨ha.stngs, ha.applied, hfreq.1, hfreq.2, fun fld hf => ?_, fun a hout => ?_⟩
  · have hreg := (single_reg fld hf).2
    simp only [List.mem_cons, not_or] at hreg
    exact chipVal_congr (ha.regs _ hreg.2.1)
  · simp only [otherRegs, List.mem_cons, not_or] at hout
    exact ha.regs a hout.2.2.1

/-- What the chip holds while the layer is in a state that sends or receives. -/
structure OnAir (t : Target) (f f₀ : BitVec 32) (st : St) (r : SX127xRadio) : Prop where
  stngs : ∀ fld, Single fld → fld ∉ pinFlds → r.chipVal fld = (modem fld).toNat
  pins : ∀ x ∈ pinsOf st, r.chipVal x.1 = x.2.toNat
  wide : ∀ a ∈ wideRegs, r.chip.regs a = t.hwreset a
  freq : r.freqRegs = if f = f₀ then resetFreq t else freqOctets f
  errata : r.errataRegs = (0x40, false) ∨ r.errataRegs = (0x20, false)

/-- The settings are in the chip, with the pins mapped for the state `st`. -/
structure Mapped (t : Target) (f f₀ : BitVec 32) (st : St) (r : SX127xRadio) : Prop where
  asked : Asked t f r
  told : Told t f f₀ r
  pins : ∀ x ∈ pinsOf st, r.rdoStngsApplied x.1 = x.2

theorem pinsOf_single : ∀ st, ∀ x ∈ pinsOf st, Single x.1 := by
  intro st
  cases st <;> decide

theorem Mapped.onAir {t : Target} {f f₀ : BitVec 32} {st : St} {r : SX127xRadio}
    (h : Mapped t f f₀ st r) : OnAir t f f₀ st r where
  stngs := fun fld hf hp => by rw [h.asked.coherent.applied fld hf, h.told.applied fld hp]
  pins := fun x hx => by rw [h.asked.coherent.applied _ (pinsOf_single st x hx), h.pins x hx]
  wide := h.asked.wide
  freq := h.told.freqRegs
  errata := h.told.errata

/-! Through the states. -/

section States
variable (p : Platform) (f₀ : BitVec 32)

/-- The settings of Setting, with the pins `l` asked for. -/
structure Ready (l : List (Fld × Octet)) (r : SX127xRadio) : Prop where
  asked : Asked p.target p.rfFreqHz r
  state : Untold p.target f₀ r ∨ Told p.target p.rfFreqHz f₀ r
  pins : ∀ x ∈ l, r.rdoStngs x.1 = x.2

/-- The radio of a state. -/
def Holds : St → SX127xRadio → Prop
  | .initing, _ => True
  | .setting, r => Ready p f₀ [] r
  | st, r => Mapped p.target p.rfFreqHz f₀ st r

/-- Before the first op mode no frequency has been noted but what the memory held. -/
def Early (w : World) : Prop := w.opMode = none → w.radio.rdoStngsFreqApplied = f₀

/-- The state has settings on the air. -/
def InUse (st : St) : Prop := st ≠ .initing ∧ st ≠ .setting

/-- The chip is on the air as it should be before every call but those that change state. -/
def contract : Contract Call World Event where
  envOk := fun _ _ => True
  opOk := fun _ _ => True
  pre := fun o w => (∀ st, o ≠ .setStHandler st) → InUse w.stHandler →
    OnAir p.target p.rfFreqHz f₀ w.stHandler w.radio

def ct : Contract Call World Event := ((contract p f₀).assuming (Early f₀)).assuming NoEnter

def At (st : St) (I : SX127xRadio → Prop) (w : World) : Prop := w.stHandler = st ∧ I w.radio

/-- What a call that neither asks nor writes keeps, and of which nothing is to be shown. -/
structure Steady (st : St) (I : SX127xRadio → Prop) : Prop where
  kept : ∀ r r', I r → Kept r r' → I r'
  onAir : InUse st → ∀ r, I r → OnAir p.target p.rfFreqHz f₀ st r

variable {p f₀} {st : St} {I J : SX127xRadio → Prop} {α : Type} {Q : α → World → Prop} {w : World}

theorem Steady.stable (h : Steady p f₀ st I) : Stable (layer p) (ct p f₀) (At st I) := by
  rintro w w' ⟨hst, hI⟩ ⟨e, _, he⟩
  exact ⟨(Event.around he).stHandler.trans hst, h.kept _ _ hI (event_kept he)⟩

theorem Steady.pre (h : Steady p f₀ st I) (hw : At st I w) (o : Call) : (ct p f₀).pre o w := by
  intro _ huse
  rw [hw.1] at huse ⊢
  exact h.onAir huse _ hw.2

theorem steady_initing (h : ∀ r r', I r → Kept r r' → I r') : Steady p f₀ .initing I :=
  ⟨h, fun huse => absurd rfl huse.1⟩

theorem steady_reseted (D A : Fld → Octet) :
    Steady p f₀ .initing (Reseted p.target f₀ D A) :=
  steady_initing fun _ _ ⟨f, h⟩ hk => ⟨f, h.kept hk⟩

theorem steady_reset (f : BitVec 32) (D A : Fld → Octet) :
    Steady p f₀ .initing (Reset p.target f f₀ D A) :=
  steady_initing fun _ _ h hk => h.kept hk

theorem Ready.kept {l : List (Fld × Octet)} {r r' : SX127xRadio} (h : Ready p f₀ l r)
    (hk : Kept r r') : Ready p f₀ l r' :=
  ⟨h.asked.kept hk, h.state.imp (·.kept hk) (·.kept hk),
    fun x hx => (congrFun hk.stngs _).trans (h.pins x hx)⟩

theorem steady_ready (l : List (Fld × Octet)) : Steady p f₀ .setting (Ready p f₀ l) :=
  ⟨fun _ _ h hk => h.kept hk, fun huse => absurd rfl huse.2⟩

theorem Mapped.kept {t : Target} {f : BitVec 32} {r r' : SX127xRadio} (h : Mapped t f f₀ st r)
    (hk : Kept r r') : Mapped t f f₀ st r' :=
  ⟨h.asked.kept hk, h.told.kept hk, fun x hx => (congrFun hk.applied _).trans (h.pins x hx)⟩

/-- The pins of the state to come are mapped while the layer is still in Setting. -/
theorem steady_mapped (next : St) :
    Steady p f₀ .setting (Mapped p.target p.rfFreqHz f₀ next) :=
  ⟨fun _ _ h hk => h.kept hk, fun huse => absurd rfl huse.2⟩

theorem steady_holds (st : St) : Steady p f₀ st (Holds p f₀ st) := by
  cases st with
  | initing => exact steady_initing fun _ _ _ _ => trivial
  | setting => exact steady_ready []
  | lstning => exact ⟨fun _ _ h hk => h.kept hk, fun _ _ h => h.onAir⟩
  | rxing => exact ⟨fun _ _ h hk => h.kept hk, fun _ _ h => h.onAir⟩
  | txing => exact ⟨fun _ _ h hk => h.kept hk, fun _ _ h => h.onAir⟩

/-- Calls that keep the settings and their registers. -/
def Calm : Call → Prop
  | .setStHandler _ | .pinReset | .resetRdoStngs | .noteLoraMode => False
  | .radio c => Touchless c
  | _ => True

theorem exec_calm {o : Call} {ch : Choice} {w w' : World} {r : o.Res} (ho : Calm o)
    (h : Call.exec p o ch w = some (r, w')) :
    w'.stHandler = w.stHandler ∧ Kept w.radio w'.radio := by
  have hf := exec_frame h
  have hst : w'.stHandler = w.stHandler := by
    cases o with
    | setStHandler st => cases ho
    | _ => exact hf.stHandler
  refine ⟨hst, ?_⟩
  have hread : ∀ a, (w.radio.readReg a).2.chip.regs = w.radio.chip.regs :=
    w.radio.readReg_regs
  cases o with
  | pinReset => cases ho
  | resetRdoStngs => cases ho
  | noteLoraMode => cases ho
  | validateChip =>
    cases h
    exact ⟨rfl, rfl, rfl, rfl, fun _ _ => chipVal_congr (congrFun (hread _) _),
      fun a _ => congrFun (hread _) a⟩
  | writeFifo frm =>
    cases h
    have hregs := w.radio.writeFifo_regs (w.frames frm).buf (w.frames frm).getBufSz.toNat
    exact ⟨rfl, rfl, rfl, rfl, fun _ _ => chipVal_congr (congrFun hregs _),
      fun a _ => congrFun hregs a⟩
  | radio c =>
    have hk := exec_kept p.target w.radio ho
    cases c with
    | writeOpMode m =>
      cases h
      exact hk
    | writeStngs forRx => cases ho
    | _ =>
      cases exec_setRadio (by intro m hm; cases hm) h
      exact hk
  | _ =>
    rw [hf.radio id]
    exact Kept.refl _

theorem wp_calm {o : Call} {k : o.Res → LayerProg α} (hI : Steady p f₀ st I) (ho : Calm o)
    (hw : At st I w) (h : ∀ r w, At st I w → wp (layer p) (ct p f₀) (k r) Q w) :
    wp (layer p) (ct p f₀) (perform o >>= k) Q w := by
  refine wp_keep hI.stable (fun w hw => hI.pre hw o) (fun w c r w' hw _ hx => ?_) hw h
  obtain ⟨hst, hk⟩ := exec_calm ho hx
  exact ⟨hst.trans hw.1, hI.kept _ _ hw.2 hk⟩

/-- A driver call that changes settings. -/
theorem wp_drive {c : RadioCall} {k : Unit → LayerProg α} (hI : Steady p f₀ st I)
    (hc : ∀ m, c ≠ .writeOpMode m) (hw : At st I w)
    (hstep : ∀ r, I r → J (c.exec p.target r))
    (h : ∀ w, At st J w → wp (layer p) (ct p f₀) (k ()) Q w) :
    wp (layer p) (ct p f₀) (perform (.radio c) >>= k) Q w := by
  refine wp_perform hI.stable hw (fun w hw => hI.pre hw _) fun w ch r w' hw _ hx => ?_
  rw [exec_setRadio hc hx]
  exact h _ ⟨hw.1, hstep _ hw.2⟩

/-- The loop's invariant, whatever the events are. -/
def Idle (p : Platform) (f₀ : BitVec 32) (w : World) : Prop :=
  (w.stHandler = .initing → w.opMode = none) ∧ Holds p f₀ w.stHandler w.radio

def Busy (p : Platform) (f₀ : BitVec 32) (_ : BitVec 32) (w : World) : Prop := Idle p f₀ w

theorem idle_stable : Stable (layer p) (ct p f₀) (Idle p f₀) := by
  rintro w w' ⟨hmode, hw⟩ ⟨e, _, he⟩
  have ha := Event.around he
  rw [Idle, ha.stHandler, ha.opMode]
  exact ⟨hmode, (steady_holds _).kept _ _ hw (event_kept he)⟩

theorem Idle.returned {r : SmRet} (h : Idle p f₀ w) : Returned (Idle p f₀) (Busy p f₀) r w := by
  unfold Returned
  split <;> exact h

theorem idle_of_at (hst : st ≠ .initing) (hw : At st (Holds p f₀ st) w) : Idle p f₀ w := by
  obtain ⟨rfl, hI⟩ := hw
  exact ⟨fun h => absurd h hst, hI⟩

theorem wp_stay {r : SmRet} (hst : st ≠ .initing) (hw : At st (Holds p f₀ st) w) :
    wp (layer p) (ct p f₀) (pure r) (Returned (Idle p f₀) (Busy p f₀)) w :=
  wp_pure (steady_holds st).stable hw fun _ hw => (idle_of_at hst hw).returned

theorem wp_smTran {next : St} (hI : Steady p f₀ st I) (hnext : next ≠ .initing) (hw : At st I w)
    (h : ∀ r, I r → Holds p f₀ next r) :
    wp (layer p) (ct p f₀) (smTran next) (Returned (Idle p f₀) (Busy p f₀)) w := by
  refine wp_perform hI.stable hw (fun w hw => hI.pre hw _) fun w c r w' hw _ hx => ?_
  cases hx
  exact wp_stay hnext ⟨rfl, h _ hw.2⟩

section Handlers
variable {f : BitVec 32}

/-- The radio's initialisation, on a driver that has noted no frequency. -/
theorem wp_initRadio (hw : w.stHandler = .initing ∧ w.opMode = none) :
    wp (layer p) (ct p f₀) HeyMacLayer.initRadio
      (fun _ => At .initing (Reseted p.target f₀ (Function.update resetStng .rdoLoraMode 1)
        (Function.update resetStng .rdoLoraMode 1))) w := by
  have hboot : Stable (layer p) (ct p f₀) fun w => w.stHandler = .initing ∧ w.opMode = none :=
    stable_of_around fun _ _ ha h => ⟨ha.stHandler.trans h.1, ha.opMode.trans h.2⟩
  have hcleared : Steady p f₀ .initing (Cleared p.target f₀) :=
    steady_initing fun _ _ h hk => h.kept hk
  unfold HeyMacLayer.initRadio
  refine wp_perform hboot hw (fun w hw _ huse => absurd hw.1 huse.1) fun w c r w' hw hok hx => ?_
  cases hx
  have hw : At .initing (Cleared p.target f₀) (w.setRadio (w.radio.pinReset p.target)) :=
    ⟨hw.1, pinReset_cleared (hok.1.2 hw.2)⟩
  refine wp_perform hcleared.stable hw (fun w hw => hcleared.pre hw _) fun w c r w' hw _ hx => ?_
  cases hx
  have hw : At .initing (Reseted p.target f₀ resetStng resetStng)
      (w.setRadio w.radio.resetRdoStngs) := ⟨hw.1, _, hw.2.resetRdoStngs⟩
  refine wp_calm (steady_reseted _ _) trivial hw fun _ w hw => ?_
  refine wp_calm (steady_reseted _ _) trivial hw fun _ w hw => ?_
  refine wp_drive (steady_reseted _ _) (by simp) hw
    (fun r h => h.set (v := 1) (by decide)) fun w hw => ?_
  refine wp_drive (steady_reseted _ _) (by simp) hw (fun r h => h.writeSleepStngs) fun w hw => ?_
  refine wp_calm (steady_reseted _ _) trivial hw fun _ w hw => ?_
  refine wp_last (steady_reseted _ _).stable hw (fun w hw => (steady_reseted _ _).pre hw _)
    fun w c r w' hw _ hx => ?_
  cases hx
  obtain ⟨hst, f, h⟩ := hw
  exact wp_pure (steady_reseted _ _).stable ⟨hst, f, h.noteLoraMode (by decide)⟩ fun _ hw => hw

/-- The settings Initing has asked for, in its order. -/
def initingAsks : Fld → Octet :=
  let D := Function.update resetStng .rdoLoraMode 1
  let D := Function.update D .rdoLoraMode 1
  let D := Function.update D .rdoMaxPwr 7
  let D := Function.update D .rdoPaBoost 1
  let D := Function.update D .loraBw 8
  let D := Function.update D .loraSf 7
  let D := Function.update D .loraCr 2
  let D := Function.update D .loraCrcEn 1
  Function.update D .loraSyncWord 0x48

theorem initingAsks_eq : initingAsks = modem := by
  funext fld
  cases fld <;> rfl

theorem handle_initing (hz : InBounds .rdoFreqHz p.rfFreqHz)
    (hw : w.stHandler = .initing ∧ w.opMode = none) :
    wp (layer p) (ct p f₀) (stIniting p f) (Returned (Idle p f₀) (Busy p f₀)) w := by
  have hboot : Stable (layer p) (ct p f₀) fun w => w.stHandler = .initing ∧ w.opMode = none :=
    stable_of_around fun _ _ ha h => ⟨ha.stHandler.trans h.1, ha.opMode.trans h.2⟩
  unfold stIniting
  split
  · refine wp_perform hboot hw (fun w hw _ huse => absurd hw.1 huse.1) fun w c r w' hw _ hx => ?_
    cases hx
    refine wp_bind (wp_mono (fun _ w hw => ?_) (wp_initRadio hw))
    refine wp_drive (steady_reseted _ _) (by simp) hw (fun r h => h.set (v := 1) (by decide))
      fun w hw => ?_
    refine wp_drive (steady_reseted _ _) (by simp) hw (fun r h => h.setFreq hz) fun w hw => ?_
    refine wp_drive (steady_reset _ _ _) (by simp) hw (fun r h => h.set (v := 7) (by decide))
      fun w hw => ?_
    refine wp_drive (steady_reset _ _ _) (by simp) hw (fun r h => h.set (v := 1) (by decide))
      fun w hw => ?_
    refine wp_drive (steady_reset _ _ _) (by simp) hw (fun r h => h.set (v := 8) (by decide))
      fun w hw => ?_
    refine wp_drive (steady_reset _ _ _) (by simp) hw (fun r h => h.set (v := 7) (by decide))
      fun w hw => ?_
    refine wp_drive (steady_reset _ _ _) (by simp) hw (fun r h => h.set (v := 2) (by decide))
      fun w hw => ?_
    refine wp_drive (steady_reset _ _ _) (by simp) hw (fun r h => h.set (v := 1) (by decide))
      fun w hw => ?_
    refine wp_drive (steady_reset _ _ _) (by simp) hw (fun r h => h.set (v := 0x48) (by decide))
      fun w hw => ?_
    refine wp_smTran (steady_reset _ _ _) (by decide) hw fun r h => ?_
    have hother : ∀ fld, fld ≠ .rdoLoraMode →
        Function.update resetStng .rdoLoraMode 1 fld = resetStng fld :=
      fun fld hf => Function.update_of_ne hf 1 resetStng
    obtain ⟨hasked, huntold⟩ := h.asked_untold initingAsks_eq (by decide) hother
    exact ⟨hasked, Or.inl huntold, by simp⟩
  · refine wp_pure hboot hw fun w hw => ?_
    have hidle : Idle p f₀ w := by
      rw [Idle, hw.1]
      exact ⟨fun _ => hw.2, trivial⟩
    exact hidle.returned

theorem Ready.set {l : List (Fld × Octet)} {fld : Fld} {val : BitVec 32} {v : Octet}
    (hp : fld ∈ pinFlds ∧ fld ∉ l.map Prod.fst)
    (hv : Single fld ∧ InBounds fld val ∧ v.toNat = val.toNat) {r : SX127xRadio}
    (h : Ready p f₀ l r) : Ready p f₀ ((fld, v) :: l) (r.set p.target fld val) where
  asked := h.asked.set hp.1 hv.2.1
  state := h.state.imp (·.set) (·.set)
  pins := by
    obtain ⟨v', hv', hset⟩ := set_single p.target (r := r) hv.1 hv.2.1
    have heq : v' = v := BitVec.eq_of_toNat_eq (hv'.trans hv.2.2.symm)
    intro x hx
    simp only [hset, putStng, heq]
    rcases List.mem_cons.mp hx with rfl | hx
    · exact Function.update_self fld v r.rdoStngs
    · have hne : x.1 ≠ fld := fun e => hp.2 (e ▸ List.mem_map_of_mem hx)
      exact (Function.update_of_ne hne _ _).trans (h.pins x hx)

theorem Ready.writeStngs {l : List (Fld × Octet)} (next : St) (hl : pinsOf next ⊆ l)
    (forRx : Bool) {r : SX127xRadio} (h : Ready p f₀ l r) :
    Mapped p.target p.rfFreqHz f₀ next (r.writeStngs p.target forRx) where
  asked := writeStngs_asked forRx h.asked h.state
  told := writeStngs_told forRx h.asked h.state
  pins := fun x hx => by
    rw [writeStngs_applied]
    exact h.pins x (hl hx)

/-- LoRa mode is not outstanding in Setting. -/
theorem Ready.writeSleepStngs {l : List (Fld × Octet)} {r : SX127xRadio} (h : Ready p f₀ l r) :
    Ready p f₀ l r.writeSleepStngs := by
  rw [writeSleepStngs_idle ((h.asked.asked _ (by decide)).trans h.asked.lora.symm)]
  exact h

theorem handle_setting (hw : At .setting (Holds p f₀ .setting) w) :
    wp (layer p) (ct p f₀) (stSetting f) (Returned (Idle p f₀) (Busy p f₀)) w := by
  unfold stSetting
  split
  · refine wp_calm (steady_ready []) trivial hw fun sleep w hw => ?_
    split <;>
    · refine wp_calm (steady_ready []) trivial hw fun _ w hw => ?_
      exact wp_stay (by decide) hw
  split
  · refine wp_drive (steady_ready []) (by simp) hw (fun r h => h.writeSleepStngs) fun w hw => ?_
    refine wp_calm (steady_ready []) trivial hw fun _ w hw => ?_
    exact wp_stay (by decide) hw
  split
  · refine wp_calm (steady_ready []) trivial hw fun _ w hw => ?_
    refine wp_calm (steady_ready []) trivial hw fun empty w hw => ?_
    split
    · refine wp_drive (steady_ready _) (by simp) hw
        (fun r h => h.set (v := 1) (by decide) (by decide)) fun w hw => ?_
      refine wp_drive (steady_ready _) (by simp) hw
        (fun r h => h.writeStngs .txing (by decide) false) fun w hw => ?_
      exact wp_smTran (steady_mapped .txing) (by decide) hw fun _ h => h
    · refine wp_drive (steady_ready _) (by simp) hw
        (fun r h => h.set (v := 0) (by decide) (by decide)) fun w hw => ?_
      refine wp_drive (steady_ready _) (by simp) hw
        (fun r h => h.set (v := 0) (by decide) (by decide)) fun w hw => ?_
      refine wp_drive (steady_ready _) (by simp) hw
        (fun r h => h.set (v := 1) (by decide) (by decide)) fun w hw => ?_
      refine wp_drive (steady_ready _) (by simp) hw
        (fun r h => h.writeStngs .lstning (by decide) true) fun w hw => ?_
      exact wp_smTran (steady_mapped .lstning) (by decide) hw fun _ h => h
  · exact wp_stay (by decide) hw

/-- Back in Setting the settings are in the chip. -/
theorem Mapped.ready {next : St} {r : SX127xRadio}
    (h : Mapped p.target p.rfFreqHz f₀ next r) : Ready p f₀ [] r :=
  ⟨h.asked, Or.inr h.told, by simp⟩

theorem handle_lstning (hw : At .lstning (Holds p f₀ .lstning) w) :
    wp (layer p) (ct p f₀) (stLstning f) (Returned (Idle p f₀) (Busy p f₀)) w := by
  have hs : Steady p f₀ .lstning (Holds p f₀ .lstning) := steady_holds .lstning
  unfold stLstning onBtn enqTxFrame
  split
  · repeat refine wp_calm hs trivial hw fun _ w hw => ?_
    exact wp_stay (by decide) hw
  split
  · refine wp_calm hs trivial hw fun _ w hw => ?_
    exact wp_stay (by decide) hw
  split
  · refine wp_calm hs trivial hw fun _ w hw => ?_
    exact wp_smTran hs (by decide) hw fun _ h => h.ready
  split
  · repeat refine wp_calm hs trivial hw fun _ w hw => ?_
    exact wp_stay (by decide) hw
  split
  · exact wp_smTran hs (by decide) hw fun _ h => ⟨h.asked, h.told, h.pins⟩
  · exact wp_stay (by decide) hw

theorem handle_rxing (hw : At .rxing (Holds p f₀ .rxing) w) :
    wp (layer p) (ct p f₀) (stRxing f) (Returned (Idle p f₀) (Busy p f₀)) w := by
  have hs : Steady p f₀ .rxing (Holds p f₀ .rxing) := steady_holds .rxing
  unfold stRxing
  split
  · exact wp_stay (by decide) hw
  split
  · exact wp_smTran hs (by decide) hw fun _ h => h.ready
  · exact wp_stay (by decide) hw

theorem handle_txing (hw : At .txing (Holds p f₀ .txing) w) :
    wp (layer p) (ct p f₀) (stTxing f) (Returned (Idle p f₀) (Busy p f₀)) w := by
  have hs : Steady p f₀ .txing (Holds p f₀ .txing) := steady_holds .txing
  unfold stTxing
  split
  · repeat refine wp_calm hs trivial hw fun _ w hw => ?_
    exact wp_stay (by decide) hw
  split
  · exact wp_smTran hs (by decide) hw fun _ h => h.ready
  · exact wp_stay (by decide) hw

end Handlers

theorem loopProof (p : Platform) (f₀ : BitVec 32) (hz : InBounds .rdoFreqHz p.rfFreqHz) :
    LoopProof p (ct p f₀) (fun w => w.opMode = none) (Idle p f₀) (Busy p f₀) where
  boot_stable := stable_of_around fun _ _ ha h => ha.opMode.trans h
  idle_stable := idle_stable
  busy_stable := fun _ => idle_stable
  boot_pre := fun _ _ h => absurd rfl (h .initing)
  idle_pre := fun w h => (steady_holds w.stHandler).pre ⟨rfl, h.2⟩ _
  busy_pre := fun _ w h => ⟨(steady_holds w.stHandler).pre ⟨rfl, h.2⟩ _,
    (steady_holds w.stHandler).pre ⟨rfl, h.2⟩ _⟩
  noEnter := fun _ h => h.2
  fresh := fun _ h => h.opMode
  boot := fun _ h => ⟨fun _ => h, trivial⟩
  wait := fun _ h _ => h
  attach := fun _ _ h => h
  handle := fun st f w _ hst hb => by
    obtain ⟨hmode, hb⟩ := hb
    rw [hst] at hb
    cases st with
    | initing => exact handle_initing hz ⟨hst, hmode hst⟩
    | setting => exact handle_setting ⟨hst, hb⟩
    | lstning => exact handle_lstning ⟨hst, hb⟩
    | rxing => exact handle_rxing ⟨hst, hb⟩
    | txing => exact handle_txing ⟨hst, hb⟩

end States

/-! Whole runs. -/

section Runs
variable {p : Platform}

/-- Nothing notes a frequency before the first op mode. -/
theorem exec_early {f₀ : BitVec 32} {o : Call} {ch : Choice} {w w' : World} {r : o.Res}
    (hpre : LayerRadio.ct.pre o w) (hw : Early f₀ w) (h : Call.exec p o ch w = some (r, w')) :
    Early f₀ w' := by
  have hf := exec_frame h
  intro hnone
  cases o with
  | radio c =>
    by_cases hm : ∃ m, c = .writeOpMode m
    · obtain ⟨m, rfl⟩ := hm
      cases h
      cases hnone
    · have hmode := (hf.mode fun m e => hm ⟨m, Call.radio.inj e⟩).1
      rw [exec_setRadio (fun m e => hm ⟨m, e⟩) h]
      have hw₀ : w.radio.rdoStngsFreqApplied = f₀ := hw (hmode ▸ hnone)
      refine (exec_freqApplied p.target w.radio fun forRx e => ?_).trans hw₀
      subst e
      have hstby : w.opMode = some .stby := hpre.1
      rw [hmode, hstby] at hnone
      cases hnone
  | pinReset =>
    cases h
    exact hw hnone
  | resetRdoStngs =>
    cases h
    exact hw hnone
  | validateChip =>
    cases h
    exact hw hnone
  | noteLoraMode =>
    cases h
    exact hw hnone
  | writeFifo frm =>
    cases h
    exact hw hnone
  | _ =>
    rw [hf.radio id]
    exact hw ((hf.mode fun m e => by cases e).1 ▸ hnone)

theorem reach_started {c₀ c : LayerConfig} {guard : LayerConfig → Label Event Choice → Prop}
    (h₀ : Started c₀) (h : (layer p).Reach (· = c₀) guard c) :
    (layer p).Reach Started guard c := by
  induction h with
  | start h =>
    cases h
    exact .start h₀
  | next _ hg hs ih => exact .next ih hg hs

theorem reach_early {c₀ c : LayerConfig} (h₀ : Started c₀)
    (h : (layer p).Reach (· = c₀) (fun _ _ => True) c) :
    Early c₀.world.radio.rdoStngsFreqApplied c.world := by
  induction h with
  | start h =>
    cases h
    exact fun _ => rfl
  | @next c c' l hr _ hs ih =>
    have hg : (layer p).Reach Started LayerRadio.contract.guard c :=
      reach_guard (fun _ _ => trivial) (fun _ _ _ _ => trivial) (reach_started h₀ hr)
    have hwp := (LayerRadio.loopProof p).reach_assuming hg
    have hpre : ∀ o, c.prog.nextOp = some o → LayerRadio.ct.pre o c.world :=
      fun _ ho => pre_of_wp hwp ho
    obtain ⟨w, q⟩ := c
    cases l with
    | env e =>
      obtain ⟨w', he, rfl⟩ := Option.map_eq_some_iff.mp hs
      intro hnone
      exact (event_kept he).freqApplied.trans (ih ((Event.around he).opMode ▸ hnone))
    | act ch =>
      cases q with
      | ret a =>
        cases hs
        exact ih
      | call o k =>
        obtain ⟨⟨r, w'⟩, hx, rfl⟩ := Option.map_eq_some_iff.mp hs
        exact exec_early (hpre o rfl) ih hx

/-- The layer is in a state that sends or receives and about to make a call other than
one to change state. -/
def OnDuty (c : LayerConfig) : Prop :=
  InUse c.world.stHandler ∧ ∃ o, c.prog.nextOp = some o ∧ ∀ st, o ≠ .setStHandler st

/-- In every run, in the states that send or receive, the chip holds all settings of the
modem as Initing asked for them, the others at their reset values, the pins as the state
needs them, and the carrier frequency of the build, unless the memory held just that
frequency when the run began. -/
theorem on_air (p : Platform) (hz : InBounds .rdoFreqHz p.rfFreqHz) {c₀ c : LayerConfig}
    (h₀ : Started c₀) (h : (layer p).Reach (· = c₀) (fun _ _ => True) c) (hduty : OnDuty c) :
    OnAir p.target p.rfFreqHz c₀.world.radio.rdoStngsFreqApplied c.world.stHandler
      c.world.radio := by
  obtain ⟨huse, o, ho, hset⟩ := hduty
  have free : (layer p).Reach (· = c₀)
      (contract p c₀.world.radio.rdoStngsFreqApplied).guard c :=
    reach_guard (fun _ _ => trivial) (fun _ _ _ _ => trivial) h
  have hearly := Threads.reach_assuming (fun _ hc => reach_early h₀ hc) free
  have hwp := (loopProof p _ hz).reach_assuming (reach_started h₀ hearly)
  exact pre_of_wp hwp ho hset huse

/-- Two nodes built for one frequency, with memory that did not hold it, agree on
everything one has to know to receive what the other sends. -/
theorem nodes_agree {p q : Platform} (hz : InBounds .rdoFreqHz p.rfFreqHz)
    (hpq : q.rfFreqHz = p.rfFreqHz) {c₀ c d₀ d : LayerConfig} (hc₀ : Started c₀)
    (hd₀ : Started d₀) (hc : (layer p).Reach (· = c₀) (fun _ _ => True) c)
    (hd : (layer q).Reach (· = d₀) (fun _ _ => True) d) (hcduty : OnDuty c) (hdduty : OnDuty d)
    (hcf : p.rfFreqHz ≠ c₀.world.radio.rdoStngsFreqApplied)
    (hdf : p.rfFreqHz ≠ d₀.world.radio.rdoStngsFreqApplied) :
    c.world.radio.freqRegs = d.world.radio.freqRegs ∧
      ∀ fld, Single fld → fld ∉ pinFlds →
        c.world.radio.chipVal fld = d.world.radio.chipVal fld := by
  have hcair := on_air p hz hc₀ hc hcduty
  have hdair := on_air q (hpq ▸ hz) hd₀ hd hdduty
  refine ⟨?_, fun fld hf hp => ?_⟩
  · rw [hcair.freq, if_neg hcf, hdair.freq, hpq, if_neg hdf]
  · rw [hcair.stngs fld hf hp, hdair.stngs fld hf hp]

theorem onDuty_of_waits {c : LayerConfig} {st : St} (h : waitsIn c st = true)
    (huse : InUse st) : OnDuty c := by
  obtain ⟨hwait, hst⟩ := waitsIn_spec h
  exact ⟨hst ▸ huse, _, hwait, fun _ h => by cases h⟩

/-- One node sends a frame that came while it listened, the other listens. -/
theorem nodes_agree_air : ∃ c d : LayerConfig,
    waitsIn c .txing = true ∧ waitsIn d .lstning = true ∧
      c.world.radio.freqRegs = d.world.radio.freqRegs ∧
      ∀ fld, Single fld → fld ∉ pinFlds →
        c.world.radio.chipVal fld = d.world.radio.chipVal fld := by
  have hsend : ((layer .plain).run anyStep LayerConfig.plain
      (toLstning ++ [.env (.pushBack 0 0), .env .postTxRdy] ++ acts 26)).any
        (waitsIn · .txing) = true := by decide +kernel
  have hlisten : ((layer .plain).run anyStep LayerConfig.plain toLstning).any
      (waitsIn · .lstning) = true := by decide +kernel
  obtain ⟨c, hrc, hc⟩ := (Option.any_eq_true _ _).mp hsend
  obtain ⟨d, hrd, hd⟩ := (Option.any_eq_true _ _).mp hlisten
  exact ⟨c, d, hc, hd, nodes_agree (p := .plain) (q := .plain) (by decide) rfl
    LayerConfig.plain_started LayerConfig.plain_started
    (System.reach_run anyStep_guard (.start rfl) hrc)
    (System.reach_run anyStep_guard (.start rfl) hrd)
    (onDuty_of_waits hc ⟨by decide, by decide⟩) (onDuty_of_waits hd ⟨by decide, by decide⟩)
    (by decide) (by decide)⟩

end Runs

end LayerModem
