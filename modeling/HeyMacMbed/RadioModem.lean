import HeyMacMbed.RadioErrata
import HeyMacMbed.RadioSettle

/-!
# The modem's settings on their way to the chip

After the reset the settings of the layer's modem are asked for one by one, then
all written by the first `write_stngs`, and from then on only the pins are
outstanding at times. Each stage is a predicate of the driver, kept by the calls
that touch no setting.
-/

open Bits Octets Fields SX127xRadio RadioCall

namespace RadioModem

/-- What the table says a field resets to. -/
def resetStng (fld : Fld) : Octet := (stngsInfoLut fld).resetVal.setWidth 8

/-- The settings Initing asks for, over the reset values. -/
def modem : Fld → Octet
  | .rdoLoraMode => 1
  | .rdoMaxPwr => 7
  | .rdoPaBoost => 1
  | .loraBw => stngLoraBw250k
  | .loraSf => 7
  | .loraCr => 2
  | .loraCrcEn => 1
  | .loraSyncWord => 0x48
  | fld => resetStng fld

/-- The pins Setting maps for the state to come. -/
def pinFlds : List Fld := [.rdoDio0, .rdoDio1, .rdoDio3]

/-- The registers of the two-octet settings, which nobody asks to change. -/
def wideRegs : List RegAddr :=
  [regLoraRxSymTmout, regLoraPreambleLen, regLoraPreambleLenLsb]

def resetFreq (t : Target) : Octet × Octet × Octet :=
  (t.hwreset 0x06, t.hwreset 0x07, t.hwreset 0x08)

/-! What a call may leave as it is. -/

/-- Settings, shadows and the registers of both are the same. -/
structure Kept (r r' : SX127xRadio) : Prop where
  stngs : r'.rdoStngs = r.rdoStngs
  applied : r'.rdoStngsApplied = r.rdoStngsApplied
  freq : r'.rdoStngsFreq = r.rdoStngsFreq
  freqApplied : r'.rdoStngsFreqApplied = r.rdoStngsFreqApplied
  vals : ∀ fld, Single fld → r'.chipVal fld = r.chipVal fld
  regs : ∀ a, a ∉ otherRegs → r'.chip.regs a = r.chip.regs a

theorem Kept.refl (r : SX127xRadio) : Kept r r :=
  ⟨rfl, rfl, rfl, rfl, fun _ _ => rfl, fun _ _ => rfl⟩

theorem Kept.coherent {r r' : SX127xRadio} (h : Kept r r') (hr : r.Coherent) : r'.Coherent :=
  hr.of_kept h.stngs h.applied h.vals

/-- Calls that neither ask for a setting nor write one. -/
def Touchless : RadioCall → Prop
  | .initRadio | .set _ _ | .writeStngs _ | .writeSleepStngs => False
  | _ => True

theorem exec_kept (t : Target) (r : SX127xRadio) {c : RadioCall} (hc : Touchless c) :
    Kept r (c.exec t r) := by
  have hregs : ∀ a, a ∉ otherRegs → (c.exec t r).chip.regs a = r.chip.regs a := fun a ha =>
    exec_regs_other t r (by rintro rfl; exact hc) (by rintro b rfl; exact hc) ha
  have hvals : ∀ fld, Single fld → (c.exec t r).chipVal fld = r.chipVal fld := by
    intro fld hf
    have hreg := (single_reg fld hf).2
    simp only [List.mem_cons, List.not_mem_nil, or_false, not_or] at hreg
    obtain ⟨hmask, hflags, hd, he, hfp⟩ := hreg
    cases c with
    | initRadio => cases hc
    | set g val => cases hc
    | writeStngs forRx => cases hc
    | writeSleepStngs => cases hc
    | writeOpMode m => exact writeOpMode_chipVal m fld hf
    | readOpMode => exact chipVal_congr (congrFun (readReg_regs r regRdoOpmode) _)
    | updtRng => exact chipVal_congr (congrFun (readReg_regs r regLoraRssiWb) _)
    | writeFifo data sz => exact chipVal_congr (congrFun (writeFifo_regs r data sz) _)
    | writeFifoPtr o =>
      refine chipVal_congr ?_
      rw [exec, writeFifoPtr_regs, Function.update_of_ne hfp, Function.update_of_ne he,
        Function.update_of_ne hd]
    | writeLoraIrqMask d e =>
      refine chipVal_congr ?_
      rw [exec, writeLoraIrqMask_regs, Function.update_of_ne hmask]
    | writeLoraIrqFlags m =>
      refine chipVal_congr ?_
      rw [exec, writeLoraIrqFlags_regs, Function.update_of_ne hflags]
  cases c with
  | initRadio => cases hc
  | set g val => cases hc
  | writeStngs forRx => cases hc
  | writeSleepStngs => cases hc
  | _ => exact ⟨rfl, rfl, rfl, rfl, hvals, hregs⟩

/-! What the registers hold on the way. -/

section Registers
variable (t : Target) (f f₀ : BitVec 32)

/-- Between the reset and the first `write_stngs`: `D` is asked for, `A` noted, and the
chip has its reset values. -/
structure Reset (D A : Fld → Octet) (r : SX127xRadio) : Prop where
  coherent : r.Coherent
  asked : r.rdoStngs = D
  applied : r.rdoStngsApplied = A
  freq : r.rdoStngsFreq = f
  freqApplied : r.rdoStngsFreqApplied = f₀
  regs : ∀ a, a ∉ otherRegs → r.chip.regs a = t.hwreset a

/-- The modem's settings are asked for. -/
structure Asked (r : SX127xRadio) : Prop where
  coherent : r.Coherent
  asked : ∀ fld, fld ∉ pinFlds → r.rdoStngs fld = modem fld
  lora : r.rdoStngsApplied .rdoLoraMode = 1
  freq : r.rdoStngsFreq = f
  wide : ∀ a ∈ wideRegs, r.chip.regs a = t.hwreset a

/-- None is in the chip yet. -/
structure Untold (r : SX127xRadio) : Prop where
  applied : ∀ fld, fld ≠ .rdoLoraMode → r.rdoStngsApplied fld = resetStng fld
  freqApplied : r.rdoStngsFreqApplied = f₀
  freqRegs : r.freqRegs = resetFreq t

/-- All are. The frequency is not written where the memory held it by chance. -/
structure Told (r : SX127xRadio) : Prop where
  applied : ∀ fld, fld ∉ pinFlds → r.rdoStngsApplied fld = modem fld
  freqApplied : r.rdoStngsFreqApplied = f
  freqRegs : r.freqRegs = if f = f₀ then resetFreq t else freqOctets f
  errata : r.errataRegs = (0x40, false) ∨ r.errataRegs = (0x20, false)

variable {t f f₀} {r r' : SX127xRadio}

theorem Reset.kept {D A : Fld → Octet} (h : Reset t f f₀ D A r) (hk : Kept r r') :
    Reset t f f₀ D A r' where
  coherent := hk.coherent h.coherent
  asked := hk.stngs.trans h.asked
  applied := hk.applied.trans h.applied
  freq := hk.freq.trans h.freq
  freqApplied := hk.freqApplied.trans h.freqApplied
  regs := fun a ha => (hk.regs a ha).trans (h.regs a ha)

theorem Kept.freqRegs (hk : Kept r r') : r'.freqRegs = r.freqRegs := by
  rw [SX127xRadio.freqRegs, hk.regs _ (by decide), hk.regs _ (by decide), hk.regs _ (by decide)]
  rfl

theorem Asked.kept (h : Asked t f r) (hk : Kept r r') : Asked t f r' where
  coherent := hk.coherent h.coherent
  asked := fun fld hf => (congrFun hk.stngs fld).trans (h.asked fld hf)
  lora := (congrFun hk.applied _).trans h.lora
  freq := hk.freq.trans h.freq
  wide := fun a ha => (hk.regs a (by revert a; decide)).trans (h.wide a ha)

theorem Untold.kept (h : Untold t f₀ r) (hk : Kept r r') : Untold t f₀ r' where
  applied := fun fld hf => (congrFun hk.applied fld).trans (h.applied fld hf)
  freqApplied := hk.freqApplied.trans h.freqApplied
  freqRegs := hk.freqRegs.trans h.freqRegs

theorem Told.kept (h : Told t f f₀ r) (hk : Kept r r') : Told t f f₀ r' where
  applied := fun fld hf => (congrFun hk.applied fld).trans (h.applied fld hf)
  freqApplied := hk.freqApplied.trans h.freqApplied
  freqRegs := hk.freqRegs.trans h.freqRegs
  errata := by
    rw [errataRegs_congr fun a ha => hk.regs a (by revert a; decide)]
    exact h.errata

/-! From the reset to the settings asked for. -/

/-- The registers after the reset, with nothing noted yet. -/
structure Cleared (t : Target) (f₀ : BitVec 32) (r : SX127xRadio) : Prop where
  freqApplied : r.rdoStngsFreqApplied = f₀
  vals : ∀ fld, Single fld → r.chipVal fld = (resetStng fld).toNat
  regs : ∀ a, a ∉ otherRegs → r.chip.regs a = t.hwreset a

theorem Cleared.kept (h : Cleared t f₀ r) (hk : Kept r r') : Cleared t f₀ r' where
  freqApplied := hk.freqApplied.trans h.freqApplied
  vals := fun fld hf => (hk.vals fld hf).trans (h.vals fld hf)
  regs := fun a ha => (hk.regs a ha).trans (h.regs a ha)

theorem pinReset_cleared (h : r.rdoStngsFreqApplied = f₀) : Cleared t f₀ (r.pinReset t) where
  freqApplied := h
  vals := fun fld hf => (afterReset_coherent t (r := r)).applied fld hf
  regs := fun _ _ => rfl

theorem Cleared.resetRdoStngs (h : Cleared t f₀ r) :
    Reset t r.rdoStngsFreq f₀ resetStng resetStng r.resetRdoStngs where
  coherent := ⟨h.vals, (afterReset_coherent t (r := r)).fits⟩
  asked := rfl
  applied := rfl
  freq := rfl
  freqApplied := h.freqApplied
  regs := h.regs

section Reset
variable {D A : Fld → Octet}

theorem Reset.set {fld : Fld} {val : BitVec 32} {v : Octet}
    (hf : Single fld ∧ InBounds fld val ∧ v.toNat = val.toNat) (h : Reset t f f₀ D A r) :
    Reset t f f₀ (Function.update D fld v) A (r.set t fld val) := by
  obtain ⟨hs, hb, hv⟩ := hf
  obtain ⟨v', hv', hset⟩ := set_single t (r := r) hs hb
  have heq : v' = v := BitVec.eq_of_toNat_eq (hv'.trans hv.symm)
  refine ⟨set_coherent t hb h.coherent, ?_, (set_applied r t fld val).trans h.applied, ?_, ?_, ?_⟩
  · simp only [hset, putStng, heq, h.asked]
  · simp only [hset, putStng, h.freq]
  · exact (set_freqApplied r t fld val).trans h.freqApplied
  · intro a ha
    rw [set_chip]
    exact h.regs a ha

theorem Reset.setFreq {val : BitVec 32} (hb : InBounds .rdoFreqHz val)
    (h : Reset t f f₀ D A r) : Reset t val f₀ D A (r.set t .rdoFreqHz val) := by
  have hset : r.set t .rdoFreqHz val = { r with rdoStngsFreq := val } := if_pos hb
  have hcoh := set_coherent t hb h.coherent
  rw [hset] at hcoh ⊢
  exact ⟨hcoh, h.asked, h.applied, rfl, h.freqApplied, h.regs⟩

theorem Reset.writeSleepStngs (h : Reset t f f₀ D A r) :
    Reset t f f₀ D (Function.update A .rdoLoraMode (D .rdoLoraMode)) r.writeSleepStngs where
  coherent := writeSleepStngs_coherent h.coherent
  asked := (writeSleepStngs_rdoStngs r).trans h.asked
  applied := by rw [writeSleepStngs_applied, h.applied, h.asked]
  freq := by
    unfold SX127xRadio.writeSleepStngs
    split <;> exact h.freq
  freqApplied := (exec_freqApplied t r (c := .writeSleepStngs) (by simp)).trans h.freqApplied
  regs := fun a ha =>
    (writeSleepStngs_regs_other r (by rintro rfl; exact ha (by decide))).trans (h.regs a ha)

theorem Reset.noteLoraMode (hA : A .rdoLoraMode = 1) (h : Reset t f f₀ D A r) :
    Reset t f f₀ D A r.noteLoraMode := by
  have hsame : r.noteLoraMode = r := by
    unfold SX127xRadio.noteLoraMode
    rw [← hA, ← h.applied, Function.update_eq_self]
  rw [hsame]
  exact h

/-- Whatever frequency the memory held. -/
def Reseted (t : Target) (f₀ : BitVec 32) (D A : Fld → Octet) (r : SX127xRadio) : Prop :=
  ∃ f, Reset t f f₀ D A r

theorem Reseted.set {fld : Fld} {val : BitVec 32} {v : Octet}
    (hf : Single fld ∧ InBounds fld val ∧ v.toNat = val.toNat) :
    Reseted t f₀ D A r → Reseted t f₀ (Function.update D fld v) A (r.set t fld val)
  | ⟨f, h⟩ => ⟨f, h.set hf⟩

theorem Reseted.writeSleepStngs : Reseted t f₀ D A r →
    Reseted t f₀ D (Function.update A .rdoLoraMode (D .rdoLoraMode)) r.writeSleepStngs
  | ⟨f, h⟩ => ⟨f, h.writeSleepStngs⟩

theorem Reseted.setFreq {val : BitVec 32} (hb : InBounds .rdoFreqHz val) :
    Reseted t f₀ D A r → Reset t val f₀ D A (r.set t .rdoFreqHz val)
  | ⟨_, h⟩ => h.setFreq hb

/-- What Initing leaves. -/
theorem Reset.asked_untold (hD : D = modem) (hlora : A .rdoLoraMode = 1)
    (hA : ∀ fld, fld ≠ .rdoLoraMode → A fld = resetStng fld) (h : Reset t f f₀ D A r) :
    Asked t f r ∧ Untold t f₀ r := by
  have hregs : ∀ a ∈ wideRegs ++ [0x06, 0x07, 0x08], r.chip.regs a = t.hwreset a := fun a ha =>
    h.regs a (by revert a; decide)
  refine ⟨⟨h.coherent, fun fld _ => ?_, ?_, h.freq, fun a ha => ?_⟩, ⟨fun fld hf => ?_, h.freqApplied, ?_⟩⟩
  · rw [h.asked, hD]
  · rw [h.applied, hlora]
  · exact hregs a (List.mem_append_left _ ha)
  · rw [h.applied, hA fld hf]
  · rw [SX127xRadio.freqRegs, hregs _ (by decide), hregs _ (by decide), hregs _ (by decide)]
    rfl

end Reset

/-! Mapping the pins and writing the settings. -/

theorem pins_single : ∀ fld ∈ pinFlds, Single fld := by decide

theorem Asked.set {fld : Fld} {val : BitVec 32} (hp : fld ∈ pinFlds) (hb : InBounds fld val)
    (h : Asked t f r) : Asked t f (r.set t fld val) := by
  obtain ⟨v, _, hset⟩ := set_single t (r := r) (pins_single fld hp) hb
  have hcoh := set_coherent t hb h.coherent
  rw [hset] at hcoh ⊢
  refine ⟨hcoh, fun g hg => ?_, h.lora, h.freq, h.wide⟩
  have hne : g ≠ fld := by
    rintro rfl
    exact hg hp
  exact (Function.update_of_ne hne _ _).trans (h.asked g hg)

theorem Untold.set {fld : Fld} {val : BitVec 32} (h : Untold t f₀ r) :
    Untold t f₀ (r.set t fld val) where
  applied := fun g hg => by
    rw [set_applied]
    exact h.applied g hg
  freqApplied := (set_freqApplied r t fld val).trans h.freqApplied
  freqRegs := by
    rw [SX127xRadio.freqRegs, set_chip]
    exact h.freqRegs

theorem Told.set {fld : Fld} {val : BitVec 32} (h : Told t f f₀ r) :
    Told t f f₀ (r.set t fld val) where
  applied := fun g hg => by
    rw [set_applied]
    exact h.applied g hg
  freqApplied := (set_freqApplied r t fld val).trans h.freqApplied
  freqRegs := by
    rw [SX127xRadio.freqRegs, set_chip]
    exact h.freqRegs
  errata := by
    rw [errataRegs, set_chip]
    exact h.errata

/-- The settings whose reset value the layer leaves are not outstanding. -/
theorem not_outstanding (ha : Asked t f r) (ht : Untold t f₀ r ∨ Told t f f₀ r) {fld : Fld}
    (hf : fld ∉ pinFlds ∧ fld ≠ .rdoLoraMode ∧ modem fld = resetStng fld) :
    r.rdoStngs fld = r.rdoStngsApplied fld := by
  rw [ha.asked fld hf.1]
  rcases ht with ht | ht
  · rw [ht.applied fld hf.2.1, hf.2.2]
  · rw [ht.applied fld hf.1]

theorem wide_only : ∀ a ∈ wideRegs, ∀ fld, a = (stngsInfoLut fld).regStart →
    fld ∉ pinFlds ∧ fld ≠ .rdoLoraMode ∧ modem fld = resetStng fld := by decide

/-- At 250K the carrier is the frequency asked for in both directions. -/
theorem Asked.carrier (ha : Asked t f r) (forRx : Bool) : r.carrier forRx = f := by
  have hbw : r.rdoStngs .loraBw = stngLoraBw250k := ha.asked _ (by decide)
  have hoff : r.rejectionOffset forRx = 0 := by
    unfold rejectionOffset
    rw [hbw]
    split <;> rfl
  rw [carrier_eq, hoff, ha.freq]
  exact BitVec.add_zero f

theorem Asked.errata (ha : Asked t f r) (forRx : Bool) :
    ((r.errata forRx).2.2, (r.errata forRx).2.1) = (if forRx then 0x40 else 0x20, false) := by
  have hbw : r.rdoStngs .loraBw = stngLoraBw250k := ha.asked _ (by decide)
  have hlora : r.rdoStngs .rdoLoraMode = 1 := ha.asked _ (by decide)
  unfold SX127xRadio.errata
  rw [hbw, hlora]
  cases forRx <;> rfl

/-- The bandwidth is outstanding until the settings are in the chip. -/
theorem Untold.outstanding (hu : Untold t f₀ r) (ha : Asked t f r) : r.ErrataOutstanding := by
  refine Or.inr ?_
  rw [ha.asked _ (by decide), hu.applied _ (by decide)]
  decide

theorem Told.not_outstanding (ht : Told t f f₀ r) (ha : Asked t f r) : ¬ r.ErrataOutstanding := by
  rintro (h | h)
  · exact h ((ha.asked _ (by decide)).trans (ht.applied _ (by decide)).symm)
  · exact h ((ha.asked _ (by decide)).trans (ht.applied _ (by decide)).symm)

theorem writeStngs_asked (forRx : Bool) (ha : Asked t f r) (ht : Untold t f₀ r ∨ Told t f f₀ r) :
    Asked t f (r.writeStngs t forRx) where
  coherent := writeStngs_coherent t forRx ha.coherent
  asked := fun fld hf => by
    rw [writeStngs_rdoStngs]
    exact ha.asked fld hf
  lora := by
    rw [writeStngs_applied]
    exact ha.asked _ (by decide)
  freq := (writeStngs_freq t r forRx).trans ha.freq
  wide := fun a hw => by
    rw [writeStngs_regs_idle r t forRx (by revert a; decide) fun fld hfld =>
      RadioModem.not_outstanding ha ht (wide_only a hw fld hfld)]
    exact ha.wide a hw

theorem writeStngs_told (forRx : Bool) (ha : Asked t f r) (ht : Untold t f₀ r ∨ Told t f f₀ r) :
    Told t f f₀ (r.writeStngs t forRx) := by
  have hslot : ¬ r.slotOutstanding := not_not.mpr
    (RadioModem.not_outstanding ha ht (by decide))
  refine ⟨fun fld hf => ?_, ?_, ?_, ?_⟩
  · rw [writeStngs_applied]
    exact ha.asked fld hf
  · exact (writeStngs_freqApplied r t forRx).trans (ha.carrier forRx)
  · rw [writeStngs_freqRegs, slotInto, if_neg hslot, ha.carrier]
    rcases ht with ht | ht
    · rw [ht.freqApplied, ht.freqRegs]
      exact ite_not _ _ _
    · rw [ht.freqApplied, if_neg (not_not.mpr rfl)]
      exact ht.freqRegs
  · rw [writeStngs_errataRegs, ha.errata]
    rcases ht with ht | ht
    · rw [if_pos (ht.outstanding ha)]
      cases forRx
      · exact Or.inr rfl
      · exact Or.inl rfl
    · rw [if_neg (ht.not_outstanding ha)]
      exact ht.errata

end Registers

end RadioModem
