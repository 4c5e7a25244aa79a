import HeyMacMbed.RadioSpec

/-!
# Sequences of driver calls

The public calls of the driver and the settings their users ask for.
-/

open Bits Octets Fields SX127xRadio

inductive RadioCall where
  | initRadio
  | readOpMode
  | set (fld : Fld) (val : BitVec 32)
  | updtRng
  | writeFifo (data : Mem) (sz : Nat)
  | writeFifoPtr (offset : Octet)
  | writeLoraIrqMask (disableThese enableThese : Octet)
  | writeLoraIrqFlags (clearThese : Octet)
  | writeOpMode (opMode : OpMode)
  | writeStngs (forRx : Bool)
  | writeSleepStngs

namespace RadioCall

variable (t : Target)

def exec (r : SX127xRadio) : RadioCall → SX127xRadio
  | .initRadio => r.initRadio t
  | .readOpMode => r.readOpMode.2
  | .set fld val => r.set t fld val
  | .updtRng => r.updtRng
  | .writeFifo data sz => (r.writeFifo data sz).2
  | .writeFifoPtr offset => r.writeFifoPtr offset
  | .writeLoraIrqMask d e => r.writeLoraIrqMask d e
  | .writeLoraIrqFlags c => r.writeLoraIrqFlags c
  | .writeOpMode m => r.writeOpMode m
  | .writeStngs forRx => r.writeStngs t forRx
  | .writeSleepStngs => r.writeSleepStngs

/-- The calls from the first on. -/
def run (r : SX127xRadio) (calls : List RadioCall) : SX127xRadio := calls.foldl (exec t) r

theorem run_concat (r : SX127xRadio) (calls : List RadioCall) (c : RadioCall) :
    run t r (calls ++ [c]) = c.exec t (run t r calls) := by
  rw [run, List.foldl_concat]
  rfl

/-- What each call of a sequence keeps, the sequence keeps. -/
theorem run_invariant {I : SX127xRadio → Prop} {calls : List RadioCall}
    (hstep : ∀ r, ∀ c ∈ calls, I r → I (c.exec t r)) {r : SX127xRadio} (h : I r) :
    I (run t r calls) := by
  induction calls generalizing r with
  | nil => exact h
  | cons c calls ih =>
    have hhead := hstep r c List.mem_cons_self h
    exact ih (fun r c' h' => hstep r c' (List.mem_cons_of_mem _ h')) hhead

/-- A `set` within bounds, of a field that is not the second half of another. -/
def Accepted : RadioCall → Prop
  | .set fld val => InBounds fld val ∧ (stngsInfoLut fld).regCnt ≠ 0
  | _ => True

instance (c : RadioCall) : Decidable c.Accepted := by
  cases c <;> unfold Accepted <;> infer_instance

/-- The registers that calls other than `init_radio` and `write_stngs` may write. -/
def otherRegs : List RegAddr :=
  [regRdoOpmode, regLoraIrqMask, regLoraIrqFlags, 0x0D, 0x0E, 0x0F]

theorem exec_regs_other (r : SX127xRadio) {c : RadioCall} (hinit : c ≠ .initRadio)
    (hwrite : ∀ forRx, c ≠ .writeStngs forRx) {a : RegAddr} (ha : a ∉ otherRegs) :
    (c.exec t r).chip.regs a = r.chip.regs a := by
  simp only [otherRegs, List.mem_cons, List.not_mem_nil, or_false, not_or] at ha
  obtain ⟨hop, hmask, hflags, hd, he, hf⟩ := ha
  cases c with
  | initRadio => exact absurd rfl hinit
  | writeStngs forRx => exact absurd rfl (hwrite forRx)
  | readOpMode => exact congrFun (readReg_regs r regRdoOpmode) a
  | updtRng => exact congrFun (readReg_regs r regLoraRssiWb) a
  | set fld val => rw [exec, set_chip]
  | writeFifo data sz => exact congrFun (writeFifo_regs r data sz) a
  | writeFifoPtr o =>
    rw [exec, writeFifoPtr_regs, Function.update_of_ne hf, Function.update_of_ne he,
      Function.update_of_ne hd]
  | writeLoraIrqMask d e => rw [exec, writeLoraIrqMask_regs, Function.update_of_ne hmask]
  | writeLoraIrqFlags c => rw [exec, writeLoraIrqFlags_regs, Function.update_of_ne hflags]
  | writeOpMode m =>
    rw [exec, writeOpMode_regs]
    exact Function.update_of_ne hop _ _
  | writeSleepStngs => exact writeSleepStngs_regs_other r hop

/-- Besides `init_radio` and `write_stngs` only LoRa mode is ever noted as written. -/
theorem exec_applied_other (r : SX127xRadio) {c : RadioCall} (hinit : c ≠ .initRadio)
    (hwrite : ∀ forRx, c ≠ .writeStngs forRx) {fld : Fld} (hf : fld ≠ .rdoLoraMode) :
    (c.exec t r).rdoStngsApplied fld = r.rdoStngsApplied fld := by
  cases c with
  | initRadio => exact absurd rfl hinit
  | writeStngs forRx => exact absurd rfl (hwrite forRx)
  | set g val => exact congrFun (set_applied r t g val) fld
  | writeSleepStngs => rw [exec, writeSleepStngs_applied, Function.update_of_ne hf]
  | _ => rfl

/-- Only `write_stngs` notes a frequency, not even `init_radio`. -/
theorem exec_freqApplied (r : SX127xRadio) {c : RadioCall}
    (hwrite : ∀ forRx, c ≠ .writeStngs forRx) :
    (c.exec t r).rdoStngsFreqApplied = r.rdoStngsFreqApplied := by
  have hsleep : ∀ s : SX127xRadio,
      s.writeSleepStngs.rdoStngsFreqApplied = s.rdoStngsFreqApplied := by
    intro s
    unfold SX127xRadio.writeSleepStngs
    split <;> rfl
  cases c with
  | writeStngs forRx => exact absurd rfl (hwrite forRx)
  | set fld val => exact set_freqApplied r t fld val
  | writeSleepStngs => exact hsleep r
  | initRadio =>
    have hop : ∀ (s : SX127xRadio) (m : OpMode),
        (s.writeOpMode m).rdoStngsFreqApplied = s.rdoStngsFreqApplied := fun _ _ => rfl
    simp only [exec, SX127xRadio.initRadio, noteLoraMode, hop, hsleep, set_freqApplied]
    rfl
  | _ => rfl

/-- The last value asked of each field; `init_radio` starts from the reset values
and itself asks for LoRa mode. -/
def wants (w : Fld → Nat) : RadioCall → Fld → Nat
  | .initRadio =>
    Function.update (fun fld => (stngsInfoLut fld).resetVal.toNat) .rdoLoraMode 1
  | .set fld val => Function.update w fld val.toNat
  | _ => w

def wanted (calls : List RadioCall) : Fld → Nat := calls.foldl wants fun _ => 0

end RadioCall
