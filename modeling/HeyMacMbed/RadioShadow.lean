import HeyMacMbed.RadioCalls

/-!
# Coherence of the register shadow

In every driver state reached from `init_radio` the bits of each field that lies
in one register are those of the applied shadow, and `write_stngs` makes both
the values last asked for.
-/

open Bits Octets Fields

namespace SX127xRadio

/-- The field lies in one register. -/
def Single (fld : Fld) : Prop := (stngsInfoLut fld).regCnt = 1

instance (fld : Fld) : Decidable (Single fld) := inferInstanceAs (Decidable (_ = _))

/-- The field's bits all lie in the octet of its first register. -/
def Within (fld : Fld) : Prop :=
  (stngsInfoLut fld).regCnt ≠ 0 ∧ (stngsInfoLut fld).bitStart + (stngsInfoLut fld).bitCnt ≤ 8

instance (fld : Fld) : Decidable (Within fld) := inferInstanceAs (Decidable (_ ∧ _))

/-- The value of a field's bits in the chip. -/
def chipVal (r : SX127xRadio) (fld : Fld) : Nat := ((fieldOf fld).read r.chip.regs).toNat

/-- A field's bits are those of its register. -/
theorem chipVal_congr {r r' : SX127xRadio} {fld : Fld}
    (h : r'.chip.regs (fieldOf fld).reg = r.chip.regs (fieldOf fld).reg) :
    r'.chipVal fld = r.chipVal fld := by
  rw [chipVal, chipVal, BitField.read, BitField.read, h]

def opModeVal (r : SX127xRadio) : Nat := (opModeField.read r.chip.regs).toNat

structure Coherent (r : SX127xRadio) : Prop where
  applied : ∀ fld, Single fld → r.chipVal fld = (r.rdoStngsApplied fld).toNat
  fits : ∀ fld, Single fld → (r.rdoStngs fld).toNat < 2 ^ (stngsInfoLut fld).bitCnt

/-! The layout of the settings table. -/

theorem single_within : ∀ fld, Single fld → Within fld := by decide

theorem single_fits (fld : Fld) (h : Single fld) :
    (stngsInfoLut fld).bitStart + (stngsInfoLut fld).bitCnt ≤ 8 := (single_within fld h).2

theorem fieldOf_apart : ∀ fld other, fld ≠ other → Within other →
    (fieldOf fld).Apart (fieldOf other) := by decide

theorem opModeField_apart : ∀ fld,
    (fieldOf fld).Apart opModeField ∧ opModeField.Apart (fieldOf fld) := by decide

/-- The second halves share no register with another field or the op mode. -/
theorem half_reg : ∀ fld other, (stngsInfoLut fld).regCnt = 0 → Within other →
    (fieldOf fld).reg ≠ (fieldOf other).reg ∧ (fieldOf fld).reg ≠ opModeField.reg := by decide

/-- The registers the driver writes besides those of fields. -/
theorem single_reg : ∀ fld, Single fld →
    (fieldOf fld).reg ∉ [regLoraIfFreq2, regLoraDtctOptmz, 0x06, 0x07, 0x08] ∧
      (fieldOf fld).reg ∉ [regLoraIrqMask, regLoraIrqFlags, 0x0D, 0x0E, 0x0F] := by decide

/-- `BIT_FLD` for a run of bits inside the word. -/
def fldMask (ls1 nbits : Nat) : BitVec 32 :=
  (BitVec.allOnes 32 >>> (32 - (ls1 + nbits))) &&& ~~~((1#32 <<< ls1) - 1#32)

theorem bitFld_eq (t : Target) {ls1 nbits : Nat} (h0 : 0 < ls1 + nbits) (h : ls1 + nbits ≤ 32) :
    t.bitFld ls1 nbits = fldMask ls1 nbits := by
  have hshift : ((31 : Int) - (ls1 + nbits - 1 : Int)).toNat = 32 - (ls1 + nbits) := by omega
  have hrange : 0 ≤ (31 : Int) - (ls1 + nbits - 1 : Int) ∧
      (31 : Int) - (ls1 + nbits - 1 : Int) < 32 := by omega
  simp only [Target.bitFld, if_pos hrange, hshift]
  rfl

theorem fldMask_isMask : ∀ fld, (stngsInfoLut fld).regCnt ≠ 0 →
    0 < (stngsInfoLut fld).bitStart + (stngsInfoLut fld).bitCnt ∧
      (stngsInfoLut fld).bitStart + (stngsInfoLut fld).bitCnt ≤ 32 ∧
      IsMask ((fldMask (stngsInfoLut fld).bitStart (stngsInfoLut fld).bitCnt).setWidth 8 : Octet)
        (stngsInfoLut fld).bitStart (stngsInfoLut fld).bitCnt := by decide

theorem bitf_isMask (t : Target) {fld : Fld} (h : (stngsInfoLut fld).regCnt ≠ 0) :
    IsMask (bitf t fld) (fieldOf fld).start (fieldOf fld).cnt := by
  obtain ⟨hpos, hle, hm⟩ := fldMask_isMask fld h
  rw [bitf, bitFld_eq t hpos hle]
  exact hm

theorem fldMask_whole : ∀ fld,
    (stngsInfoLut fld).bitStart = 0 ∧ 8 ≤ (stngsInfoLut fld).bitCnt →
      (stngsInfoLut fld).bitCnt ≤ 32 ∧
        (fldMask (stngsInfoLut fld).bitStart (stngsInfoLut fld).bitCnt).setWidth 8 =
          (0xFF : Octet) := by decide

/-- A field that starts at bit 0 and fills its register is written whole. -/
theorem bitf_whole (t : Target) (fld : Fld)
    (h : (stngsInfoLut fld).bitStart = 0 ∧ 8 ≤ (stngsInfoLut fld).bitCnt) :
    bitf t fld = 0xFF := by
  obtain ⟨hle, hmask⟩ := fldMask_whole fld h
  obtain ⟨hstart, hcnt⟩ := h
  rw [bitf, bitFld_eq t (by omega) (by omega), hmask]

theorem valMax_fits : ∀ fld, Single fld → 0 < (stngsInfoLut fld).bitCnt ∧
    (stngsInfoLut fld).valMax.toNat < 2 ^ (stngsInfoLut fld).bitCnt ∧
    (fldMask 0 (stngsInfoLut fld).bitCnt).toNat = 2 ^ (stngsInfoLut fld).bitCnt - 1 := by decide

theorem resetVal_fits : ∀ fld, Single fld →
    (stngsInfoLut fld).resetVal.toNat < 2 ^ (stngsInfoLut fld).bitCnt := by decide

section WriteFld
variable (t : Target) (r : SX127xRadio) (fld : Fld)

/-- Writing one field leaves alone the bits that are apart from it. -/
theorem writeFld_read_apart {g : BitField RegAddr} (hg : g.start + g.cnt ≤ 8)
    (hap : (fieldOf fld).Apart g)
    (hhalf : (stngsInfoLut fld).regCnt = 0 → (fieldOf fld).reg ≠ g.reg) :
    g.read (r.writeFld t fld).chip.regs = g.read r.chip.regs := by
  have hm : (fieldOf fld).reg = g.reg →
      IsMask (bitf t fld) (fieldOf fld).start (fieldOf fld).cnt := by
    intro hreg
    by_cases hc : (stngsInfoLut fld).regCnt = 0
    · exact absurd hreg (hhalf hc)
    · exact bitf_isMask t hc
  rw [writeFld_regs]
  split
  · rw [BitField.read_write_apart _ hm hg hap]
  · rfl

/-- Writing one field leaves the bits of every other field alone. -/
theorem writeFld_chipVal_other {other : Fld} (hne : fld ≠ other) (ho : Within other) :
    (r.writeFld t fld).chipVal other = r.chipVal other :=
  congrArg BitVec.toNat (writeFld_read_apart t r fld ho.2 (fieldOf_apart fld other hne ho)
    fun hc => (half_reg fld other hc ho).1)

/-- Writing one field leaves the op mode alone. -/
theorem writeFld_opModeVal : (r.writeFld t fld).opModeVal = r.opModeVal :=
  congrArg BitVec.toNat (writeFld_read_apart t r fld (by decide) (opModeField_apart fld).1
    fun hc => (half_reg fld .rdoLoraMode hc (by decide)).2)

/-- The bits of a field are those noted, and what is asked for fits them. -/
structure Held (r : SX127xRadio) (fld : Fld) : Prop where
  applied : r.chipVal fld = (r.rdoStngsApplied fld).toNat
  fits : (r.rdoStngs fld).toNat < 2 ^ (stngsInfoLut fld).bitCnt

theorem writeFld_held {other : Fld} (ho : Within other) (h : r.Held other) :
    (r.writeFld t fld).Held other := by
  refine ⟨?_, by rw [writeFld_rdoStngs]; exact h.fits⟩
  rw [writeFld_applied]
  by_cases hne : fld = other
  · subst hne
    rw [Function.update_self]
    by_cases hout : r.rdoStngs fld = r.rdoStngsApplied fld
    · rw [chipVal, writeFld_regs, if_neg (by simp [hout]), hout]
      exact h.applied
    · rw [chipVal, writeFld_regs, if_pos hout,
        BitField.read_write_same _ _ (bitf_isMask t ho.1) ho.2]
      exact toNat_extract_of_lt h.fits
  · rw [Function.update_of_ne (Ne.symm hne), writeFld_chipVal_other t r fld hne ho]
    exact h.applied

theorem writeFlds_held {other : Fld} (ho : Within other) (flds : List Fld) (h : r.Held other) :
    (r.writeFlds t flds).Held other :=
  writeFlds_invariant t (fun r fld h => writeFld_held t r fld ho h) h flds

theorem Coherent.held {r : SX127xRadio} (h : r.Coherent) {fld : Fld} (hf : Single fld) :
    r.Held fld := ⟨h.applied fld hf, h.fits fld hf⟩

theorem writeFlds_coherent (flds : List Fld) (h : r.Coherent) :
    (r.writeFlds t flds).Coherent := by
  have hheld : ∀ fld, Single fld → (r.writeFlds t flds).Held fld := fun fld hf =>
    writeFlds_held t r (single_within fld hf) flds (h.held hf)
  exact ⟨fun fld hf => (hheld fld hf).applied, fun fld hf => (hheld fld hf).fits⟩

theorem writeFlds_chipVal {fld : Fld} (hf : Single fld)
    (h : r.rdoStngs fld = r.rdoStngsApplied fld) (flds : List Fld) :
    (r.writeFlds t flds).chipVal fld = r.chipVal fld := by
  induction flds generalizing r with
  | nil => rfl
  | cons g flds ih =>
    rw [writeFlds_cons, ih]
    · by_cases hg : g = fld
      · subst hg
        rw [chipVal, writeFld_regs, if_neg (by simp [h]), chipVal]
      · exact writeFld_chipVal_other t r g hg (single_within fld hf)
    · rw [writeFld_rdoStngs, writeFld_applied]
      by_cases hg : fld = g
      · rw [hg, Function.update_self]
      · rw [Function.update_of_ne hg, h]

/-- Bits apart from every field, in no second half's register, are never written. -/
theorem writeFlds_read_apart {g : BitField RegAddr} (hg : g.start + g.cnt ≤ 8)
    (hap : ∀ fld, (fieldOf fld).Apart g ∧
      ((stngsInfoLut fld).regCnt = 0 → (fieldOf fld).reg ≠ g.reg)) (flds : List Fld) :
    g.read (r.writeFlds t flds).chip.regs = g.read r.chip.regs := by
  refine writeFlds_invariant t (I := fun r' => g.read r'.chip.regs = g.read r.chip.regs)
    (fun r' fld h => ?_) rfl flds
  exact (writeFld_read_apart t r' fld hg (hap fld).1 (hap fld).2).trans h

end WriteFld

/-- A call that keeps the shadow and the registers of all fields keeps coherence. -/
theorem Coherent.of_kept {r r' : SX127xRadio} (h : r.Coherent) (hs : r'.rdoStngs = r.rdoStngs)
    (ha : r'.rdoStngsApplied = r.rdoStngsApplied)
    (hr : ∀ fld, Single fld → r'.chipVal fld = r.chipVal fld) : r'.Coherent := by
  refine ⟨fun fld hf => ?_, fun fld hf => ?_⟩
  · rw [hr fld hf, ha]
    exact h.applied fld hf
  · rw [hs]
    exact h.fits fld hf

section Calls
variable (t : Target) {r : SX127xRadio}

/-- Nothing outside the loop of `write_stngs` touches a field. -/
theorem beforeFlds_chipVal (forRx : Bool) (fld : Fld) (hf : Single fld) :
    (r.beforeFlds forRx).chipVal fld = r.chipVal fld :=
  chipVal_congr (beforeFlds_regs_other r forRx (single_reg fld hf).1)

/-- `write_stngs` leaves a setting alone that is not outstanding. -/
theorem writeStngs_chipVal {fld : Fld} (forRx : Bool) (hf : Single fld)
    (h : r.rdoStngs fld = r.rdoStngsApplied fld) :
    (r.writeStngs t forRx).chipVal fld = r.chipVal fld := by
  rw [writeStngs_eq, writeFlds_chipVal t _ hf, beforeFlds_chipVal forRx fld hf]
  rw [beforeFlds_rdoStngs, beforeFlds_applied, h]

theorem writeStngs_coherent (forRx : Bool) (h : r.Coherent) :
    (r.writeStngs t forRx).Coherent := by
  rw [writeStngs_eq]
  exact writeFlds_coherent t _ _
    (h.of_kept (beforeFlds_rdoStngs r forRx) (beforeFlds_applied r forRx)
      (beforeFlds_chipVal forRx))

theorem writeStngs_read_apart (forRx : Bool) {g : BitField RegAddr} (hg : g.start + g.cnt ≤ 8)
    (hreg : g.reg ∉ [regLoraIfFreq2, regLoraDtctOptmz, 0x06, 0x07, 0x08])
    (hap : ∀ fld, (fieldOf fld).Apart g ∧
      ((stngsInfoLut fld).regCnt = 0 → (fieldOf fld).reg ≠ g.reg)) :
    g.read (r.writeStngs t forRx).chip.regs = g.read r.chip.regs := by
  rw [writeStngs_eq, writeFlds_read_apart t _ hg hap]
  simp only [BitField.read]
  rw [beforeFlds_regs_other r forRx hreg]

theorem writeStngs_opModeVal (forRx : Bool) :
    (r.writeStngs t forRx).opModeVal = r.opModeVal :=
  congrArg BitVec.toNat (writeStngs_read_apart t forRx (by decide) (by decide) fun fld =>
    ⟨(opModeField_apart fld).1, fun hc => (half_reg fld .rdoLoraMode hc (by decide)).2⟩)

theorem writeSleepStngs_idle (h : r.rdoStngs .rdoLoraMode = r.rdoStngsApplied .rdoLoraMode) :
    r.writeSleepStngs = r := by
  rw [writeSleepStngs, if_neg (by simp [h])]

theorem sleepMask_isMask : IsMask (0x80 : Octet) (fieldOf .rdoLoraMode).start
    (fieldOf .rdoLoraMode).cnt := by decide

theorem writeSleepStngs_coherent (h : r.Coherent) : r.writeSleepStngs.Coherent := by
  have hv := h.fits .rdoLoraMode (by decide)
  have hregs := writeSleepStngs_regs r hv
  refine ⟨fun fld hf => ?_, fun fld hf => ?_⟩
  · rw [writeSleepStngs_applied, chipVal, hregs]
    by_cases hout : r.rdoStngs .rdoLoraMode = r.rdoStngsApplied .rdoLoraMode
    · rw [if_neg (by simp [hout]), hout, Function.update_eq_self]
      exact h.applied fld hf
    · rw [if_pos hout]
      by_cases hfld : fld = .rdoLoraMode
      · subst hfld
        rw [Function.update_self, BitField.read_write_same _ _ sleepMask_isMask (by decide)]
        exact toNat_extract_of_lt hv
      · rw [Function.update_of_ne hfld, BitField.read_write_apart _ (fun _ => sleepMask_isMask)
          (single_fits fld hf) (fieldOf_apart _ _ (Ne.symm hfld) (single_within fld hf))]
        exact h.applied fld hf
  · rw [writeSleepStngs_rdoStngs]
    exact h.fits fld hf

theorem writeSleepStngs_opModeVal (h : r.Coherent) :
    r.writeSleepStngs.opModeVal = r.opModeVal := by
  rw [opModeVal, writeSleepStngs_regs r (h.fits .rdoLoraMode (by decide)), opModeVal]
  split
  · rw [BitField.read_write_apart _ (fun _ => sleepMask_isMask) (by decide)
      (opModeField_apart .rdoLoraMode).1]
  · rfl

theorem opModeMask_isMask : IsMask (0x7 : Octet) opModeField.start opModeField.cnt := by decide

/-- The op mode shares its register with two fields and changes neither. -/
theorem writeOpMode_chipVal (m : OpMode) (fld : Fld) (hf : Single fld) :
    (r.writeOpMode m).chipVal fld = r.chipVal fld := by
  rw [chipVal, writeOpMode_regs, BitField.read_write_apart _ (fun _ => opModeMask_isMask)
    (single_fits fld hf) (opModeField_apart fld).2, chipVal]

theorem writeOpMode_coherent (m : OpMode) (h : r.Coherent) : (r.writeOpMode m).Coherent :=
  h.of_kept rfl rfl (writeOpMode_chipVal m)

/-- What `set` stores for a field of one register is the value itself. -/
theorem set_single {fld : Fld} {val : BitVec 32} (hf : Single fld) (hb : InBounds fld val) :
    ∃ v : Octet, v.toNat = val.toNat ∧ r.set t fld val = r.putStng fld v := by
  obtain ⟨hpos, hmax, hmask⟩ := valMax_fits fld hf
  have hfit := single_fits fld hf
  have hlt : val.toNat < 2 ^ (stngsInfoLut fld).bitCnt :=
    Nat.lt_of_le_of_lt (BitVec.le_def.mp hb.2) hmax
  have h8 : 2 ^ (stngsInfoLut fld).bitCnt ≤ 2 ^ 8 := Nat.pow_le_pow_right (by omega) (by omega)
  refine ⟨(val &&& t.bitFld 0 (stngsInfoLut fld).bitCnt).setWidth 8, ?_, ?_⟩
  · rw [bitFld_eq t (by omega) (by omega), BitVec.toNat_setWidth, BitVec.toNat_and, hmask,
      Nat.and_two_pow_sub_one_eq_mod, Nat.mod_eq_of_lt hlt, Nat.mod_eq_of_lt (by omega)]
  · unfold set
    rw [if_pos hb]
    cases fld <;> first | rfl | exact absurd hf (by decide)

/-- A `set` of one field leaves the others as they are asked for. -/
theorem set_other {fld other : Fld} {val : BitVec 32}
    (ho : (stngsInfoLut other).regCnt ≠ 0) (hne : other ≠ fld) :
    (r.set t fld val).rdoStngs other = r.rdoStngs other := by
  unfold set
  split
  · cases fld <;> simp only [putStng] <;>
      first
      | rfl
      | exact Function.update_of_ne hne _ _
      | (rw [Function.update_of_ne (by rintro rfl; exact absurd ho (by decide)),
          Function.update_of_ne hne])
  · rfl

theorem set_coherent {fld : Fld} {val : BitVec 32} (hb : InBounds fld val) (h : r.Coherent) :
    (r.set t fld val).Coherent := by
  refine ⟨fun other ho => ?_, fun other ho => ?_⟩
  · rw [chipVal, set_chip, set_applied]
    exact h.applied other ho
  · by_cases hne : other = fld
    · subst hne
      obtain ⟨v, hv, hset⟩ := set_single t (r := r) ho hb
      simp only [hset, putStng, Function.update_self, hv]
      exact Nat.lt_of_le_of_lt (BitVec.le_def.mp hb.2) (valMax_fits other ho).2.1
    · rw [set_other t (single_within other ho).1 hne]
      exact h.fits other ho

/-! The calls that never touch a field's register. -/

theorem readReg_coherent (a : RegAddr) (h : r.Coherent) : (r.readReg a).2.Coherent :=
  h.of_kept rfl rfl fun fld _ => by rw [chipVal, readReg_regs, chipVal]

theorem updtRng_coherent (h : r.Coherent) : r.updtRng.Coherent :=
  h.of_kept rfl rfl fun fld _ => congrArg
    (fun m => ((fieldOf fld).read m).toNat) (readReg_regs r regLoraRssiWb)

theorem writeFifo_coherent (data : Mem) (sz : Nat) (h : r.Coherent) :
    (r.writeFifo data sz).2.Coherent :=
  h.of_kept rfl rfl fun fld _ => by rw [chipVal, writeFifo_regs, chipVal]

/-- A call that writes registers of no field. -/
theorem coherent_of_regs {r' : SX127xRadio} (h : r.Coherent) (hs : r'.rdoStngs = r.rdoStngs)
    (ha : r'.rdoStngsApplied = r.rdoStngsApplied)
    (hr : ∀ a, a ∉ [regLoraIrqMask, regLoraIrqFlags, 0x0D, 0x0E, 0x0F] →
      r'.chip.regs a = r.chip.regs a) : r'.Coherent :=
  h.of_kept hs ha fun fld hf => chipVal_congr (hr _ (single_reg fld hf).2)

theorem writeLoraIrqMask_coherent (d e : Octet) (h : r.Coherent) :
    (r.writeLoraIrqMask d e).Coherent :=
  coherent_of_regs h rfl rfl fun a ha => by
    simp only [List.mem_cons, not_or] at ha
    rw [writeLoraIrqMask_regs, Function.update_of_ne ha.1]

theorem writeLoraIrqFlags_coherent (c : Octet) (h : r.Coherent) :
    (r.writeLoraIrqFlags c).Coherent :=
  coherent_of_regs h rfl rfl fun a ha => by
    simp only [List.mem_cons, not_or] at ha
    rw [writeLoraIrqFlags_regs, Function.update_of_ne ha.2.1]

theorem writeFifoPtr_coherent (o : Octet) (h : r.Coherent) : (r.writeFifoPtr o).Coherent :=
  coherent_of_regs h rfl rfl fun a ha => by
    simp only [List.mem_cons, List.not_mem_nil, or_false, not_or] at ha
    rw [writeFifoPtr_regs, Function.update_of_ne ha.2.2.2.2, Function.update_of_ne ha.2.2.2.1,
      Function.update_of_ne ha.2.2.1]

/-! `init_radio`. -/

/-- The driver right after the pin reset. -/
def afterReset (r : SX127xRadio) : SX127xRadio := (r.pinReset t).resetRdoStngs

theorem afterReset_coherent : (afterReset t r).Coherent := by
  have hval : ∀ fld, Single fld →
      (((stngsInfoLut fld).resetVal).setWidth 8).toNat = (stngsInfoLut fld).resetVal.toNat := by
    decide
  refine ⟨fun fld hf => ?_, fun fld hf => ?_⟩
  · exact (t.hwreset_stngs fld hf).trans (hval fld hf).symm
  · have hfit : (((stngsInfoLut fld).resetVal).setWidth 8).toNat < _ :=
      (hval fld hf).symm ▸ resetVal_fits fld hf
    exact hfit

/-- The driver when `init_radio` has only its shadow left to note. -/
def initTail (r : SX127xRadio) : SX127xRadio :=
  (((((afterReset t r).validateChip).writeOpMode .sleep).set t .rdoLoraMode 1).writeSleepStngs
    ).writeOpMode .stby

theorem initRadio_eq : r.initRadio t = (initTail t r).noteLoraMode := rfl

theorem initTail_coherent : (initTail t r).Coherent :=
  writeOpMode_coherent _ (writeSleepStngs_coherent (set_coherent t (by decide)
    (writeOpMode_coherent _ (readReg_coherent _ (afterReset_coherent t)))))

theorem initTail_stngs (fld : Fld) (hf : Single fld) :
    ((initTail t r).rdoStngs fld).toNat =
      Function.update (fun fld => (stngsInfoLut fld).resetVal.toNat) .rdoLoraMode 1 fld := by
  obtain ⟨v, hv, hset⟩ : ∃ v : Octet, v.toNat = (1#32).toNat ∧
      (((afterReset t r).validateChip).writeOpMode .sleep).set t .rdoLoraMode 1 =
        (((afterReset t r).validateChip).writeOpMode .sleep).putStng .rdoLoraMode v :=
    set_single t (by decide) (by decide)
  have hs : (initTail t r).rdoStngs =
      ((((afterReset t r).validateChip).writeOpMode .sleep).set t .rdoLoraMode 1).rdoStngs := by
    exact writeSleepStngs_rdoStngs _
  rw [hs]
  by_cases hfld : fld = .rdoLoraMode
  · subst hfld
    simp only [hset, putStng, Function.update_self, hv]
    rfl
  · rw [Function.update_of_ne hfld, set_other t (single_within fld hf).1 hfld]
    have hval : ∀ fld, Single fld →
        (((stngsInfoLut fld).resetVal).setWidth 8).toNat = (stngsInfoLut fld).resetVal.toNat := by
      decide
    exact hval fld hf

/-- What `init_radio` notes last is already noted. -/
theorem noteLoraMode_initTail : (initTail t r).noteLoraMode = initTail t r := by
  have hst : ((initTail t r).rdoStngs .rdoLoraMode).toNat = 1 :=
    initTail_stngs t .rdoLoraMode (by decide)
  have h1 : (initTail t r).rdoStngs .rdoLoraMode = 1 := BitVec.eq_of_toNat_eq hst
  have happ : (initTail t r).rdoStngsApplied .rdoLoraMode = 1 := by
    rw [← h1]
    have hs : (initTail t r).rdoStngsApplied = _ := writeSleepStngs_applied
      ((((afterReset t r).validateChip).writeOpMode .sleep).set t .rdoLoraMode 1)
    rw [hs, Function.update_self]
    exact (congrFun (writeSleepStngs_rdoStngs _) _).symm
  unfold noteLoraMode
  rw [← happ, Function.update_eq_self]

theorem initRadio_coherent : (r.initRadio t).Coherent := by
  rw [initRadio_eq, noteLoraMode_initTail]
  exact initTail_coherent t

/-- After `init_radio` the registers have their reset values, the op mode apart. -/
theorem initRadio_regs_other {a : RegAddr} (ha : a ≠ regRdoOpmode) :
    (r.initRadio t).chip.regs a = t.hwreset a := by
  have ham : a ≠ opModeField.reg := ha
  have hbefore : ((((afterReset t r).validateChip).writeOpMode .sleep).set t
      .rdoLoraMode 1).chip.regs a = t.hwreset a := by
    rw [set_chip, writeOpMode_regs, BitField.write, Function.update_of_ne ham, validateChip,
      readReg_regs]
    rfl
  rw [initRadio_eq, noteLoraMode_initTail, initTail, writeOpMode_regs, BitField.write,
    Function.update_of_ne ham, writeSleepStngs_regs_other _ ha, hbefore]

/-- And both copies of the settings have theirs, LoRa mode apart. -/
theorem initRadio_applied_other {fld : Fld} (hf : fld ≠ .rdoLoraMode) :
    (r.initRadio t).rdoStngsApplied fld = (stngsInfoLut fld).resetVal.setWidth 8 := by
  have hs : (initTail t r).rdoStngsApplied = _ := writeSleepStngs_applied
    ((((afterReset t r).validateChip).writeOpMode .sleep).set t .rdoLoraMode 1)
  rw [initRadio_eq, noteLoraMode_initTail, hs, Function.update_of_ne hf, set_applied]
  rfl

theorem initRadio_rdoStngs_other {fld : Fld} (hf : fld ≠ .rdoLoraMode)
    (hc : (stngsInfoLut fld).regCnt ≠ 0) :
    (r.initRadio t).rdoStngs fld = (stngsInfoLut fld).resetVal.setWidth 8 := by
  have hs : (initTail t r).rdoStngs = _ := writeSleepStngs_rdoStngs
    ((((afterReset t r).validateChip).writeOpMode .sleep).set t .rdoLoraMode 1)
  rw [initRadio_eq, noteLoraMode_initTail, hs, set_other t hc hf]
  rfl

end Calls

/-! Whole sequences of calls. -/

open RadioCall

/-- The fields of one register are asked for as `w` tells. -/
def Asks (r : SX127xRadio) (w : Fld → Nat) : Prop :=
  ∀ fld, Single fld → (r.rdoStngs fld).toNat = w fld

theorem exec_coherent (t : Target) {r : SX127xRadio} {c : RadioCall} (hc : c.Accepted)
    (h : r.Coherent) : (c.exec t r).Coherent := by
  cases c with
  | initRadio =>
    rw [exec]
    exact initRadio_coherent t
  | readOpMode =>
    rw [exec]
    exact readReg_coherent _ h
  | set fld val =>
    rw [exec]
    exact set_coherent t hc.1 h
  | updtRng =>
    rw [exec]
    exact updtRng_coherent h
  | writeFifo data sz =>
    rw [exec]
    exact writeFifo_coherent data sz h
  | writeFifoPtr o =>
    rw [exec]
    exact writeFifoPtr_coherent o h
  | writeLoraIrqMask d e =>
    rw [exec]
    exact writeLoraIrqMask_coherent d e h
  | writeLoraIrqFlags c =>
    rw [exec]
    exact writeLoraIrqFlags_coherent c h
  | writeOpMode m =>
    rw [exec]
    exact writeOpMode_coherent m h
  | writeStngs forRx =>
    rw [exec]
    exact writeStngs_coherent t forRx h
  | writeSleepStngs =>
    rw [exec]
    exact writeSleepStngs_coherent h

theorem exec_asks (t : Target) {r : SX127xRadio} {w : Fld → Nat} {c : RadioCall}
    (hc : c.Accepted) (h : r.Asks w) : (c.exec t r).Asks (c.wants w) := by
  intro fld hf
  cases c with
  | initRadio =>
    simp only [exec, wants, initRadio_eq, noteLoraMode_initTail]
    exact initTail_stngs t fld hf
  | set f val =>
    simp only [exec, wants]
    by_cases hfld : fld = f
    · subst hfld
      obtain ⟨v, hv, hset⟩ := set_single t (r := r) hf hc.1
      simp only [hset, putStng, Function.update_self, hv]
    · rw [set_other t (single_within fld hf).1 hfld, Function.update_of_ne hfld]
      exact h fld hf
  | writeStngs forRx =>
    simp only [exec, wants, writeStngs_rdoStngs]
    exact h fld hf
  | writeSleepStngs =>
    simp only [exec, wants, writeSleepStngs_rdoStngs]
    exact h fld hf
  | _ => exact h fld hf

theorem run_coherent (t : Target) {r : SX127xRadio} {calls : List RadioCall}
    (hc : ∀ c ∈ calls, c.Accepted) (h : r.Coherent) : (run t r calls).Coherent :=
  run_invariant t (fun _ c hmem h => exec_coherent t (hc c hmem) h) h

theorem run_asks (t : Target) {r : SX127xRadio} {w : Fld → Nat} {calls : List RadioCall}
    (hc : ∀ c ∈ calls, c.Accepted) (h : r.Asks w) :
    (run t r calls).Asks (calls.foldl wants w) := by
  induction calls generalizing r w with
  | nil => exact h
  | cons c calls ih =>
    have hhead := exec_asks t (hc c List.mem_cons_self) h
    exact ih (fun c' h' => hc c' (List.mem_cons_of_mem _ h')) hhead

/-- The chip and the shadow after `init_radio` and any accepted calls. -/
structure ShadowHolds (t : Target) (r : SX127xRadio) (w : Fld → Nat) : Prop where
  applied : ∀ fld, Single fld → r.chipVal fld = (r.rdoStngsApplied fld).toNat
  settled : ∀ forRx fld, Single fld → (r.writeStngs t forRx).chipVal fld = w fld
  oneField : ∀ fld other, fld ≠ other → Single other →
    (r.writeFld t fld).chipVal other = r.chipVal other
  opMode : (∀ fld, (r.writeFld t fld).opModeVal = r.opModeVal) ∧
    (∀ forRx, (r.writeStngs t forRx).opModeVal = r.opModeVal) ∧
    r.writeSleepStngs.opModeVal = r.opModeVal
  modeBits : ∀ m, (r.writeOpMode m).chipVal .rdoLfMode = r.chipVal .rdoLfMode ∧
    (r.writeOpMode m).chipVal .rdoLoraMode = r.chipVal .rdoLoraMode

/-- After `init_radio` on a driver in any state and any further accepted calls, the bits
of every field of one register are the applied shadow's, a `write_stngs` makes them
what was last asked for, and no write reaches a neighbouring field or the op mode. -/
theorem shadow_coherent (t : Target) (r : SX127xRadio) (calls : List RadioCall)
    (hc : ∀ c ∈ calls, c.Accepted) :
    ShadowHolds t (run t r (.initRadio :: calls)) (wanted (.initRadio :: calls)) := by
  have hcoh : (run t r (.initRadio :: calls)).Coherent :=
    run_coherent t (r := r.initRadio t) hc (initRadio_coherent t)
  have hasks : (run t r (.initRadio :: calls)).Asks (wanted (.initRadio :: calls)) := by
    have hinit : (r.initRadio t).Asks (wants (fun _ => 0) .initRadio) := by
      intro fld hf
      rw [initRadio_eq, noteLoraMode_initTail]
      exact initTail_stngs t fld hf
    exact run_asks t (r := r.initRadio t) hc hinit
  refine ⟨hcoh.applied, fun forRx fld hf => ?_, fun fld other hne ho => ?_, ⟨?_, ?_, ?_⟩, ?_⟩
  · rw [(writeStngs_coherent t forRx hcoh).applied fld hf, writeStngs_applied]
    exact hasks fld hf
  · exact writeFld_chipVal_other t _ fld hne (single_within other ho)
  · exact fun fld => writeFld_opModeVal t _ fld
  · exact fun forRx => writeStngs_opModeVal t forRx
  · exact writeSleepStngs_opModeVal hcoh
  · exact fun m => ⟨writeOpMode_chipVal m _ (by decide), writeOpMode_chipVal m _ (by decide)⟩

/-- Two fields of one register set, written and followed by a mode change. -/
theorem shadow_coherent_tx :
    let calls : List RadioCall :=
      [.set .rdoMaxPwr 7, .set .rdoPaBoost 1, .writeStngs false, .writeOpMode .tx]
    ShadowHolds .plain (run .plain zeroed (.initRadio :: calls))
      (wanted (.initRadio :: calls)) :=
  shadow_coherent .plain zeroed _ (by decide)

end SX127xRadio
